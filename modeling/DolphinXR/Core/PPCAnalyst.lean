import DolphinXR.Core.PPCTables
import Mathlib.Data.Fintype.Basic

/- The analysis of a block of instructions (Core/PowerPC/PPCAnalyst.cpp): what each instruction
   reads, writes and may do, the scan from the end of the block for what is not needed any more, and
   the scan from its beginning for what the floating-point registers hold. A set of registers is a
   finite set. The GQRs and the host's carry flag are left out. -/
namespace DolphinXR.PowerPC

attribute [local instance] neZero_gprs neZero_crFields

namespace UGeckoInstruction
variable (inst : UGeckoInstruction)

def rcReg : Fin 32 := (inst.extractLsb' 6 5).toFin
def fa : Fin 32 := (inst.extractLsb' 16 5).toFin
def fb : Fin 32 := (inst.extractLsb' 11 5).toFin
def fc : Fin 32 := (inst.extractLsb' 6 5).toFin
def fd : Fin 32 := (inst.extractLsb' 21 5).toFin
def fs : Fin 32 := (inst.extractLsb' 21 5).toFin
def bi : Fin 32 := (inst.extractLsb' 16 5).toFin
def bo : BitVec 5 := inst.extractLsb' 21 5
def aa : Bool := inst.getLsbD 1
def li : BitVec 24 := inst.extractLsb' 2 24
def bd : BitVec 14 := inst.extractLsb' 2 14
def spru : Nat := (inst.extractLsb' 11 5).toNat
def sprl : Nat := (inst.extractLsb' 16 5).toNat

end UGeckoInstruction

namespace PPCAnalyst
open PPCTables

def boDontDecrementFlag : BitVec 5 := 4

def isMfspr (inst : UGeckoInstruction) : Bool := inst.opcd == 31 && inst.subop10 == 339

def isMtspr (inst : UGeckoInstruction) : Bool := inst.opcd == 31 && inst.subop10 == 467

def getSPRIndex (inst : UGeckoInstruction) : Nat := inst.spru * 32 + inst.sprl

def sprXer : Nat := 1
def sprMmcr0 : Nat := 952
def sprMmcr1 : Nat := 956

/-! The stats of an instruction. -/

structure CodeOp where
  inst : UGeckoInstruction
  opinfo : GekkoOPInfo
  address : BitVec 32
  /-- `UINT32_MAX` where there is no destination to be computed. -/
  branchTo : BitVec 32 := -1
  branchUsesCtr : Bool := false
  regsIn : Finset (Fin 32) := ∅
  regsOut : Finset (Fin 32) := ∅
  fregsIn : Finset (Fin 32) := ∅
  /-- A negative number where there is none. -/
  fregOut : Option (Fin 32) := none
  crIn : Finset (Fin 8) := ∅
  crOut : Finset (Fin 8) := ∅
  wantsFPRF : Bool := false
  outputFPRF : Bool := false
  wantsCA : Bool := false
  outputCA : Bool := false
  canEndBlock : Bool := false
  canCauseException : Bool := false

def CodeOp.getFregsOut (op : CodeOp) : Finset (Fin 32) := op.fregOut.elim ∅ ({·})

structure PPCAnalyzer where
  enableFloatExceptions : Bool
  enableDivByZeroExceptions : Bool

/-- An instruction that was read, and whether it is the first of the block that uses the FPU. -/
structure Fetched where
  inst : UGeckoInstruction
  address : BitVec 32
  firstFpuInstruction : Bool

section
variable (inst : UGeckoInstruction) (opinfo : GekkoOPInfo)

def instructionCanEndBlock : Bool :=
  opinfo.has flEndblock &&
    (!isMtspr inst || getSPRIndex inst == sprMmcr0 || getSPRIndex inst == sprMmcr1)

def statsCrIn : Finset (Fin 8) :=
  if opinfo.has flReadAllCr then Finset.univ
  else if opinfo.has flReadCrn then {inst.crfs}
  else if opinfo.has flReadCrBi then {ConditionRegister.fieldOf inst.bi}
  else if opinfo.type = .cr then
    -- Only one bit of the destination is written: the other three are inputs.
    {ConditionRegister.fieldOf inst.crba, ConditionRegister.fieldOf inst.crbb,
      ConditionRegister.fieldOf inst.crbd}
  else ∅

def statsCrOut : Finset (Fin 8) :=
  if opinfo.has flSetAllCr then Finset.univ
  else if opinfo.has flSetCrn then {inst.crfd}
  else if opinfo.has flSetCr0 || (opinfo.has flRcBit && inst.rc) then {0}
  else if opinfo.has flSetCr1 || (opinfo.has flRcBitF && inst.rc) then {1}
  else if opinfo.type = .cr then {ConditionRegister.fieldOf inst.crbd}
  else ∅

def regIf (condition : Bool) (reg : Fin 32) : Finset (Fin 32) := if condition then {reg} else ∅

def statsRegsIn : Finset (Fin 32) :=
  regIf (opinfo.has flInA || (opinfo.has flInA0 && inst.ra != 0)) inst.ra ∪
    regIf (opinfo.has flInB) inst.rb ∪ regIf (opinfo.has flInC) inst.rcReg ∪
    regIf (opinfo.has flInS) inst.rs ∪
    -- stmw
    if inst.opcd = 47 then Finset.univ.filter (inst.rs ≤ ·) else ∅

def statsRegsOut : Finset (Fin 32) :=
  regIf (opinfo.has flOutA) inst.ra ∪ regIf (opinfo.has flOutD) inst.rd ∪
    -- lmw
    if inst.opcd = 46 then Finset.univ.filter (inst.rd ≤ ·) else ∅

def statsFregsIn : Finset (Fin 32) :=
  regIf (opinfo.has flInFloatA) inst.fa ∪ regIf (opinfo.has flInFloatB) inst.fb ∪
    regIf (opinfo.has flInFloatC) inst.fc ∪ regIf (opinfo.has flInFloatD) inst.fd ∪
    regIf (opinfo.has flInFloatS) inst.fs

/-- The destination of `bx` and `bcx`. -/
def statsBranchTo (address : BitVec 32) : BitVec 32 :=
  if inst.opcd = 18 then
    let destination := (inst.li ++ 0#2).signExtend 32
    if inst.aa then destination else address + destination
  else if inst.opcd = 16 then
    let destination := (inst.bd ++ 0#2).signExtend 32
    if inst.aa then destination else address + destination
  else -1

/-- Of `bcx`, `bclrx` and `bcctrx`. -/
def statsBranchUsesCtr : Bool :=
  (inst.opcd == 16 || (inst.opcd == 19 && (inst.subop10 == 16 || inst.subop10 == 528))) &&
    inst.bo &&& boDontDecrementFlag == 0

end

def PPCAnalyzer.setInstructionStats (analyzer : PPCAnalyzer) (code : Fetched)
    (opinfo : GekkoOPInfo) : CodeOp where
  inst := code.inst
  opinfo := opinfo
  address := code.address
  branchTo := statsBranchTo code.inst code.address
  branchUsesCtr := statsBranchUsesCtr code.inst
  regsIn := statsRegsIn code.inst opinfo
  regsOut := statsRegsOut code.inst opinfo
  fregsIn := statsFregsIn code.inst opinfo
  fregOut := if opinfo.has flOutFloatD then some code.inst.fd else none
  crIn := statsCrIn code.inst opinfo
  crOut := statsCrOut code.inst opinfo
  wantsFPRF := opinfo.has flReadFprf
  outputFPRF := opinfo.has flSetFprf
  wantsCA :=
    if isMfspr code.inst then getSPRIndex code.inst == sprXer else opinfo.has flReadCa
  outputCA :=
    if isMtspr code.inst then getSPRIndex code.inst == sprXer else opinfo.has flSetCa
  canEndBlock := instructionCanEndBlock code.inst opinfo
  canCauseException :=
    code.firstFpuInstruction || opinfo.has (flLoadstore ||| flProgramexception) ||
      (analyzer.enableFloatExceptions && opinfo.has flFloatException) ||
      (analyzer.enableDivByZeroExceptions && opinfo.has flFloatDiv)

def PPCAnalyzer.codeOp (analyzer : PPCAnalyzer) (code : Fetched) : CodeOp :=
  analyzer.setInstructionStats code (getOpInfo code.inst)

/-! The scan from the end. -/

def canCauseGatherPipeInterruptCheck (op : CodeOp) : Bool :=
  -- eieio
  (op.inst.opcd == 31 && op.inst.subop10 == 854) ||
    (op.opinfo.type = .store || op.opinfo.type = .storeFP || op.opinfo.type = .storePS)

/-- Where functions are replaced, and where the breakpoints are. -/
structure Exits where
  hle : BitVec 32 → Bool
  breakpoint : BitVec 32 → Bool

def Exits.mayExitBlock (exits : Exits) (op : CodeOp) : Bool :=
  exits.hle op.address || exits.breakpoint op.address || op.canEndBlock || op.canCauseException

/-- What the scan knows of the instructions it has passed, and what an instruction gets of it. -/
structure Liveness where
  wantsFPRF : Bool := true
  wantsCA : Bool := true
  crWillBeRead : Finset (Fin 8) := ∅
  crWillBeWritten : Finset (Fin 8) := ∅
  crDiscardable : Finset (Fin 8) := ∅
  gprWillBeRead : Finset (Fin 32) := ∅
  gprWillBeWritten : Finset (Fin 32) := ∅
  gprDiscardable : Finset (Fin 32) := ∅
  fprWillBeRead : Finset (Fin 32) := ∅
  fprWillBeWritten : Finset (Fin 32) := ∅
  fprDiscardable : Finset (Fin 32) := ∅
  fprInXmm : Finset (Fin 32) := ∅

def Liveness.noneDiscardable (s : Liveness) : Liveness :=
  { s with gprDiscardable := ∅, fprDiscardable := ∅, crDiscardable := ∅ }

/-- All registers have to be flushed for a gather pipe interrupt check after the instruction. -/
def Liveness.checked (s : Liveness) (op : CodeOp) : Liveness :=
  if canCauseGatherPipeInterruptCheck op then s.noneDiscardable else s

/-- What the instruction gets. -/
def Liveness.atOp (exits : Exits) (s : Liveness) (op : CodeOp) : Liveness :=
  let s := s.checked op
  { s with
    wantsFPRF := s.wantsFPRF || exits.mayExitBlock op
    wantsCA := s.wantsCA || exits.mayExitBlock op }

/-- What the scan goes on with. -/
def Liveness.beforeOp (exits : Exits) (s : Liveness) (op : CodeOp) : Liveness :=
  let s := s.checked op
  let s := { s with
    wantsFPRF := (s.wantsFPRF || (op.wantsFPRF || exits.mayExitBlock op)) &&
      (!op.outputFPRF || op.wantsFPRF)
    wantsCA := (s.wantsCA || (op.wantsCA || exits.mayExitBlock op)) &&
      (!op.outputCA || op.wantsCA)
    gprWillBeRead := s.gprWillBeRead \ op.regsOut ∪ op.regsIn
    gprWillBeWritten := s.gprWillBeWritten ∪ op.regsOut
    fprWillBeRead := s.fprWillBeRead \ op.getFregsOut ∪ op.fregsIn
    fprWillBeWritten := s.fprWillBeWritten ∪ op.getFregsOut
    crWillBeRead := s.crWillBeRead \ op.crOut ∪ op.crIn
    crWillBeWritten := s.crWillBeWritten ∪ op.crOut
    fprInXmm := if op.opinfo.isCalled "stfd" then s.fprInXmm else s.fprInXmm ∪ op.fregsIn }
  if exits.hle op.address || exits.breakpoint op.address then
    { wantsFPRF := s.wantsFPRF, wantsCA := s.wantsCA }
  else if op.canEndBlock || op.canCauseException then
    s.noneDiscardable
  else
    { s with
      gprDiscardable := (s.gprDiscardable ∪ op.regsOut) \ op.regsIn
      fprDiscardable := (s.fprDiscardable ∪ op.getFregsOut) \ op.fregsIn
      crDiscardable := (s.crDiscardable ∪ op.crOut) \ op.crIn }

/-- The instructions with what they get, and the state before the first of them. -/
def backwardScan (exits : Exits) : List CodeOp → List (CodeOp × Liveness) × Liveness
  | [] => ([], {})
  | op :: code =>
    let after := backwardScan exits code
    ((op, after.2.atOp exits op) :: after.1, after.2.beforeOp exits op)

structure FprState where
  fprIsSingle : Finset (Fin 32) := ∅
  fprIsDuplicated : Finset (Fin 32) := ∅
  fprIsStoreSafe : Finset (Fin 32) := ∅

def CodeOp.bitexactInputs (op : CodeOp) : Finset (Fin 32) :=
  regIf (op.opinfo.has flInFloatABitexact) op.inst.fa ∪
    regIf (op.opinfo.has flInFloatBBitexact) op.inst.fb ∪
    regIf (op.opinfo.has flInFloatCBitexact) op.inst.fc

/-- `set[reg] = value`. -/
def setReg (set : Finset (Fin 32)) (reg : Fin 32) (value : Bool) : Finset (Fin 32) :=
  if value then insert reg set else set.erase reg

def FprState.afterOp (s : FprState) (op : CodeOp) : FprState :=
  match op.fregOut with
  | none => s
  | some reg =>
    let info := op.opinfo
    let inputs := op.bitexactInputs
    let (single, duplicated) :=
      if info.type = .singleFP || info.isCalled "frsp" then (true, true)
      else if info.isCalled "lfs" then (true, true)
      else if inputs ≠ ∅ then (decide (inputs ⊆ s.fprIsSingle), false)
      else if info.type = .ps || info.type = .loadPS then (true, false)
      else (false, false)
    { fprIsSingle := setReg s.fprIsSingle reg single
      fprIsDuplicated := setReg s.fprIsDuplicated reg duplicated
      fprIsStoreSafe :=
        -- The float mode is changed.
        if info.isCalled "mtfs" then ∅
        -- A copy of bits is store-safe if what is copied is.
        else if inputs ≠ ∅ then setReg s.fprIsStoreSafe reg (inputs ⊆ s.fprIsStoreSafe)
        else
          setReg s.fprIsStoreSafe reg
            (info.type = .singleFP || info.type = .ps || info.isCalled "frsp") }

def forwardScan (s : FprState) : List CodeOp → List (CodeOp × FprState × FprState)
  | [] => []
  | op :: code => (op, s, s.afterOp op) :: forwardScan (s.afterOp op) code

end PPCAnalyst
end DolphinXR.PowerPC
