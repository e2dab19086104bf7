import DolphinXR.Core.InterpreterIntegerOps
import DolphinXR.Core.PPCAnalyst

/- The loads of the interpreter (Core/PowerPC/Interpreter/Interpreter_LoadStore.cpp) into the
   general-purpose registers. What the MMU reads at an address is a parameter; where it raises an
   exception, and where an instruction raises one itself, there is no next state. The reservation
   of `lwarx`, which no load reads, is left out.

   With the branches (Core/PowerPC/Interpreter/Interpreter_Branch.cpp) come the tables that it runs
   instructions by (Interpreter_Tables.cpp). Of the tables the integer instructions,
   the loads into general-purpose registers and the branches are kept, in the source's order. The
   branch watch and the replaced functions are left out. -/
namespace DolphinXR.PowerPC

attribute [local instance] neZero_gprs neZero_crFields

namespace UGeckoInstruction

def nb (inst : UGeckoInstruction) : Nat := (inst.extractLsb' 11 5).toNat

end UGeckoInstruction

open PowerPCState UGeckoInstruction

/-- What the loads find outside of the registers: the bit LE of MSR and the memory. -/
structure MmuReads where
  msrLe : Bool
  read8 : BitVec 32 → Option (BitVec 8)
  read16 : BitVec 32 → Option (BitVec 16)
  read32 : BitVec 32 → Option (BitVec 32)

namespace MmuReads
variable (mmu : MmuReads)

/-- The widths a register is loaded with. -/
def byte (address : BitVec 32) : Option (BitVec 32) := (mmu.read8 address).map (·.setWidth 32)
def half (address : BitVec 32) : Option (BitVec 32) := (mmu.read16 address).map (·.setWidth 32)
def halfSigned (address : BitVec 32) : Option (BitVec 32) :=
  (mmu.read16 address).map (·.signExtend 32)

end MmuReads

def swap16 (x : BitVec 16) : BitVec 16 := x.extractLsb' 0 8 ++ x.extractLsb' 8 8

def swap32 (x : BitVec 32) : BitVec 32 :=
  x.extractLsb' 0 8 ++ x.extractLsb' 8 8 ++ x.extractLsb' 16 8 ++ x.extractLsb' 24 8

namespace Interpreter
variable (mmu : MmuReads) (s : PowerPCState) (inst : UGeckoInstruction)

def helperGetEA : BitVec 32 :=
  if inst.ra ≠ 0 then s.gpr inst.ra + inst.simm16.signExtend 32 else inst.simm16.signExtend 32

def helperGetEAU : BitVec 32 := s.gpr inst.ra + inst.simm16.signExtend 32

def helperGetEAX : BitVec 32 :=
  if inst.ra ≠ 0 then s.gpr inst.ra + s.gpr inst.rb else s.gpr inst.rb

def helperGetEAUX : BitVec 32 := s.gpr inst.ra + s.gpr inst.rb

/-- `gpr[RD] = temp`, and in the forms with an update `gpr[RA] = address`. -/
def load (temp : Option (BitVec 32)) : Option PowerPCState := temp.map (writeGpr s inst.rd)

def loadUpdate (address : BitVec 32) (temp : Option (BitVec 32)) : Option PowerPCState :=
  temp.map fun temp => writeGpr (writeGpr s inst.rd temp) inst.ra address

def lbz : Option PowerPCState := load s inst (mmu.byte (helperGetEA s inst))
def lhz : Option PowerPCState := load s inst (mmu.half (helperGetEA s inst))
def lha : Option PowerPCState := load s inst (mmu.halfSigned (helperGetEA s inst))
def lwz : Option PowerPCState := load s inst (mmu.read32 (helperGetEA s inst))

def lbzx : Option PowerPCState := load s inst (mmu.byte (helperGetEAX s inst))
def lhzx : Option PowerPCState := load s inst (mmu.half (helperGetEAX s inst))
def lhax : Option PowerPCState := load s inst (mmu.halfSigned (helperGetEAX s inst))
def lwzx : Option PowerPCState := load s inst (mmu.read32 (helperGetEAX s inst))

def lhbrx : Option PowerPCState :=
  load s inst ((mmu.read16 (helperGetEAX s inst)).map fun temp => (swap16 temp).setWidth 32)

def lwbrx : Option PowerPCState := load s inst ((mmu.read32 (helperGetEAX s inst)).map swap32)

def lbzu : Option PowerPCState :=
  let address := helperGetEAU s inst
  loadUpdate s inst address (mmu.byte address)

def lhzu : Option PowerPCState :=
  let address := helperGetEAU s inst
  loadUpdate s inst address (mmu.half address)

def lhau : Option PowerPCState :=
  let address := helperGetEAU s inst
  loadUpdate s inst address (mmu.halfSigned address)

def lwzu : Option PowerPCState :=
  let address := helperGetEAU s inst
  loadUpdate s inst address (mmu.read32 address)

def lbzux : Option PowerPCState :=
  let address := helperGetEAUX s inst
  loadUpdate s inst address (mmu.byte address)

def lhzux : Option PowerPCState :=
  let address := helperGetEAUX s inst
  loadUpdate s inst address (mmu.half address)

def lhaux : Option PowerPCState :=
  let address := helperGetEAUX s inst
  loadUpdate s inst address (mmu.halfSigned address)

def lwzux : Option PowerPCState :=
  let address := helperGetEAUX s inst
  loadUpdate s inst address (mmu.read32 address)

def lwarx : Option PowerPCState :=
  let address := helperGetEAX s inst
  if address &&& 3 != 0 then none else load s inst (mmu.read32 address)

def tempValue (offset : Nat) (byte : BitVec 8) : BitVec 32 := byte.setWidth 32 <<< (24 - offset)

/-- The state of `lswx` after `n` bytes. -/
def lswxBytes (ea : BitVec 32) : Nat → Option PowerPCState
  | 0 => some s
  | n + 1 => do
    let s ← lswxBytes ea n
    let reg : Fin 32 := Fin.ofNat 32 (inst.rd + n / 4)
    let s := if n % 4 = 0 then writeGpr s reg 0 else s
    let temp ← mmu.read8 (ea + BitVec.ofNat 32 n)
    some (writeGpr s reg (s.gpr reg ||| tempValue (n % 4 * 8) temp))

/-- The lower byte of `xer_stringctrl`. -/
def stringLength : Nat := (s.xerStringctrl.setWidth 8).toNat

def lswx : Option PowerPCState :=
  if mmu.msrLe then none else lswxBytes mmu s inst (helperGetEAX s inst) (stringLength s)

/-- What the loop of `lswi` goes on with. -/
structure StringLoop where
  state : PowerPCState
  r : Fin 32
  i : Nat

/-- `lswi` after some of its bytes. -/
def lswiBytes (ea : BitVec 32) : Nat → Option StringLoop
  | 0 => some ⟨s, inst.rd - 1, 0⟩
  | n + 1 => do
    let loop ← lswiBytes ea n
    let r := if loop.i = 0 then loop.r + 1 else loop.r
    let s := if loop.i = 0 then writeGpr loop.state r 0 else loop.state
    let temp ← mmu.read8 (ea + BitVec.ofNat 32 n)
    let s := writeGpr s r (s.gpr r ||| tempValue loop.i temp)
    let i := loop.i + 8
    some ⟨s, r, if i = 32 then 0 else i⟩

/-- The number of bytes of `lswi`. -/
def stringImmediate : Nat := if inst.nb ≠ 0 then inst.nb else 32

def lswi : Option PowerPCState :=
  let ea := if inst.ra ≠ 0 then s.gpr inst.ra else 0
  if mmu.msrLe then none else (lswiBytes mmu s inst ea (stringImmediate inst)).map (·.state)

/-! ### Strings that fit into one register -/

/-- The first `n` bytes of a string as a word. -/
def stringWord (mmu : MmuReads) (ea : BitVec 32) : Nat → Option (BitVec 32)
  | 0 => some 0
  | n + 1 => do
    let word ← stringWord mmu ea n
    let temp ← mmu.read8 (ea + BitVec.ofNat 32 n)
    some (word ||| tempValue (n % 4 * 8) temp)

theorem writeGpr_writeGpr (s : PowerPCState) (reg : Fin 32) (value value' : BitVec 32) :
    writeGpr (writeGpr s reg value) reg value' = writeGpr s reg value' := by
  simp [writeGpr]

theorem ofNat_rd (inst : UGeckoInstruction) {n : Nat} (hn : n < 4) :
    Fin.ofNat 32 (inst.rd + n / 4) = inst.rd := by
  apply Fin.ext
  show (inst.rd.val + n / 4) % 32 = inst.rd.val
  have := inst.rd.isLt
  omega

theorem stringWord_succ (ea : BitVec 32) (n : Nat) :
    stringWord mmu ea (n + 1) = (stringWord mmu ea n).bind fun word =>
      (mmu.read8 (ea + BitVec.ofNat 32 n)).map (word ||| tempValue (n % 4 * 8) ·) := by
  rw [stringWord]
  cases stringWord mmu ea n with
  | none => rfl
  | some word => cases mmu.read8 (ea + BitVec.ofNat 32 n) <;> rfl

theorem lswxBytes_eq (ea : BitVec 32) {n : Nat} (hn : n < 4) :
    lswxBytes mmu s inst ea (n + 1) = (stringWord mmu ea (n + 1)).map (writeGpr s inst.rd) := by
  induction n with
  | zero =>
    rw [lswxBytes, lswxBytes, stringWord_succ, stringWord]
    cases mmu.read8 (ea + BitVec.ofNat 32 0) with
    | none => rfl
    | some temp => simp [writeGpr_writeGpr]
  | succ n ih =>
    have hmod : ¬(n + 1) % 4 = 0 := by omega
    rw [lswxBytes, ih (by omega), stringWord_succ _ _ (n + 1)]
    cases stringWord mmu ea (n + 1) with
    | none => rfl
    | some word =>
      cases mmu.read8 (ea + BitVec.ofNat 32 (n + 1)) with
      | none => rfl
      | some temp =>
        simp only [Option.map_some, Option.bind_eq_bind, Option.bind_some, ofNat_rd inst hn,
          if_neg hmod, writeGpr_gpr, writeGpr_writeGpr]

theorem lswiBytes_eq (ea : BitVec 32) {n : Nat} (hn : n < 4) :
    lswiBytes mmu s inst ea (n + 1) = (stringWord mmu ea (n + 1)).map fun word =>
      ⟨writeGpr s inst.rd word, inst.rd, if n = 3 then 0 else (n + 1) * 8⟩ := by
  induction n with
  | zero =>
    have hr : ∀ r : Fin 32, r - 1 + 1 = r := by decide
    rw [lswiBytes, lswiBytes, stringWord_succ, stringWord]
    cases mmu.read8 (ea + BitVec.ofNat 32 0) with
    | none => rfl
    | some temp => simp [writeGpr_writeGpr, hr]
  | succ n ih =>
    have hn3 : n ≠ 3 := by omega
    have hi : (n + 1) * 8 ≠ 0 := by omega
    have hoffset : (n + 1) % 4 * 8 = (n + 1) * 8 := by omega
    have hlast : (n + 1) * 8 + 8 = 32 ↔ n + 1 = 3 := by omega
    rw [lswiBytes, ih (by omega), stringWord_succ _ _ (n + 1)]
    cases stringWord mmu ea (n + 1) with
    | none => rfl
    | some word =>
      cases mmu.read8 (ea + BitVec.ofNat 32 (n + 1)) with
      | none => rfl
      | some temp =>
        simp only [Option.map_some, Option.bind_eq_bind, Option.bind_some, if_neg hn3, if_neg hi,
          hoffset, hlast, writeGpr_gpr, writeGpr_writeGpr]
        rw [show (n + 1) * 8 + 8 = (n + 1 + 1) * 8 by omega]

end Interpreter

namespace UGeckoInstruction

def lk (inst : UGeckoInstruction) : Bool := inst.getLsbD 0

end UGeckoInstruction

@[ext] structure Machine extends PowerPCState where
  pc : BitVec 32
  npc : BitVec 32
  lr : BitVec 32
  ctr : BitVec 32

namespace Interpreter
open UGeckoInstruction

section
variable (m : Machine) (inst : UGeckoInstruction)

def linked : Machine := if inst.lk then { m with lr := m.pc + 4 } else m

def countedDown : Machine :=
  if inst.bo &&& PPCAnalyst.boDontDecrementFlag = 0 then { m with ctr := m.ctr - 1 } else m

def branchCounter : Bool := inst.bo.getLsbD 2 || ((m.ctr != 0) ^^ inst.bo.getLsbD 1)

def branchCondition : Bool :=
  inst.bo.getLsbD 4 || m.cr.getBit inst.bi == flag 32 (inst.bo.getLsbD 3)

def bx : Machine :=
  let m := linked m inst
  let destinationAddr := (inst.li ++ 0#2).signExtend 32
  { m with npc := if inst.aa then destinationAddr else destinationAddr + m.pc }

def bcx : Machine :=
  let m := countedDown m inst
  if branchCounter m inst && branchCondition m inst then
    let m := linked m inst
    let destinationAddr := (inst.bd ++ 0#2).signExtend 32
    { m with npc := if inst.aa then destinationAddr else destinationAddr + m.pc }
  else m

def bcctrx : Machine :=
  if branchCondition m inst then linked { m with npc := m.ctr &&& ~~~3 } inst else m

def bclrx : Machine :=
  let m := countedDown m inst
  if branchCounter m inst && branchCondition m inst then
    linked { m with npc := m.lr &&& ~~~3 } inst
  else m

end

/-! ### Tables -/

abbrev Instruction := MmuReads → Machine → UGeckoInstruction → Option Machine

def integer (fn : PowerPCState → UGeckoInstruction → PowerPCState) : Instruction :=
  fun _ m inst => some { m with toPowerPCState := fn m.toPowerPCState inst }

def loading (fn : MmuReads → PowerPCState → UGeckoInstruction → Option PowerPCState) : Instruction :=
  fun mmu m inst => (fn mmu m.toPowerPCState inst).map fun s => { m with toPowerPCState := s }

def branch (fn : Machine → UGeckoInstruction → Machine) : Instruction :=
  fun _ m inst => some (fn m inst)

structure InterpreterOpTemplate where
  opcode : Nat
  fn : Instruction

def primaryTable : List InterpreterOpTemplate := [
  ⟨16, branch bcx⟩, ⟨18, branch bx⟩,
  ⟨7, integer mulli⟩, ⟨8, integer subfic⟩, ⟨10, integer cmpli⟩, ⟨11, integer cmpi⟩,
  ⟨12, integer addic⟩, ⟨13, integer addicRc⟩, ⟨14, integer addi⟩, ⟨15, integer addis⟩,
  ⟨20, integer rlwimix⟩, ⟨21, integer rlwinmx⟩, ⟨23, integer rlwnmx⟩,
  ⟨24, integer ori⟩, ⟨25, integer oris⟩, ⟨26, integer xori⟩, ⟨27, integer xoris⟩,
  ⟨28, integer andiRc⟩, ⟨29, integer andisRc⟩,
  ⟨32, loading lwz⟩, ⟨33, loading lwzu⟩, ⟨34, loading lbz⟩, ⟨35, loading lbzu⟩,
  ⟨40, loading lhz⟩, ⟨41, loading lhzu⟩, ⟨42, loading lha⟩, ⟨43, loading lhau⟩]

def table19 : List InterpreterOpTemplate := [⟨528, branch bcctrx⟩, ⟨16, branch bclrx⟩]

def table31 : List InterpreterOpTemplate := [
  ⟨266, integer addx⟩, ⟨778, integer addx⟩, ⟨10, integer addcx⟩, ⟨522, integer addcx⟩,
  ⟨138, integer addex⟩, ⟨650, integer addex⟩, ⟨234, integer addmex⟩, ⟨746, integer addmex⟩,
  ⟨202, integer addzex⟩, ⟨714, integer addzex⟩, ⟨491, integer divwx⟩, ⟨1003, integer divwx⟩,
  ⟨459, integer divwux⟩, ⟨971, integer divwux⟩, ⟨75, integer mulhwx⟩, ⟨11, integer mulhwux⟩,
  ⟨235, integer mullwx⟩, ⟨747, integer mullwx⟩, ⟨104, integer negx⟩, ⟨616, integer negx⟩,
  ⟨40, integer subfx⟩, ⟨552, integer subfx⟩, ⟨8, integer subfcx⟩, ⟨520, integer subfcx⟩,
  ⟨136, integer subfex⟩, ⟨648, integer subfex⟩, ⟨232, integer subfmex⟩, ⟨744, integer subfmex⟩,
  ⟨200, integer subfzex⟩, ⟨712, integer subfzex⟩,
  ⟨28, integer andx⟩, ⟨60, integer andcx⟩, ⟨444, integer orx⟩, ⟨124, integer norx⟩,
  ⟨316, integer xorx⟩, ⟨412, integer orcx⟩, ⟨476, integer nandx⟩, ⟨284, integer eqvx⟩,
  ⟨0, integer cmp⟩, ⟨32, integer cmpl⟩, ⟨26, integer cntlzwx⟩, ⟨922, integer extshx⟩,
  ⟨954, integer extsbx⟩, ⟨536, integer srwx⟩, ⟨792, integer srawx⟩, ⟨824, integer srawix⟩,
  ⟨24, integer slwx⟩,
  ⟨23, loading lwzx⟩, ⟨55, loading lwzux⟩, ⟨279, loading lhzx⟩, ⟨311, loading lhzux⟩,
  ⟨343, loading lhax⟩, ⟨375, loading lhaux⟩, ⟨87, loading lbzx⟩, ⟨119, loading lbzux⟩,
  ⟨534, loading lwbrx⟩, ⟨790, loading lhbrx⟩, ⟨20, loading lwarx⟩, ⟨533, loading lswx⟩,
  ⟨597, loading lswi⟩]

def lookup (table : List InterpreterOpTemplate) (opcode : Nat) : Option Instruction :=
  (table.find? fun template => template.opcode == opcode).map (·.fn)

/-- Of the instructions that are modelled, the one that is run. -/
def interpreterOp (inst : UGeckoInstruction) : Option Instruction :=
  match inst.opcd with
  | 19 => lookup table19 inst.subop10
  | 31 => lookup table31 inst.subop10
  | opcd => lookup primaryTable opcd

def singleStepInner (mmu : MmuReads) (m : Machine) (inst : UGeckoInstruction) : Option Machine := do
  let fn ← interpreterOp inst
  let m ← fn mmu { m with npc := m.pc + 4 } inst
  some { m with pc := m.npc }

end Interpreter

end DolphinXR.PowerPC
