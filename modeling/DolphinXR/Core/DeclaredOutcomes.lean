import DolphinXR.Core.InterpreterTables

/- The integer instructions and loads as the flags of the instruction tables declare them: an
   outcome computed from the operands that the flags name and written where they say. Every
   instruction of the interpreter is the one that its flags declare, with the string loads as the
   exception: they are only while they load a single register. What no flag names is part of the
   writing: the overflow bit with OE, and SO, which is copied to each field of CR that is written.
-/
namespace DolphinXR.PowerPC

attribute [local instance] neZero_gprs neZero_crFields

open PPCTables PPCAnalyst PowerPCState UGeckoInstruction

/-- What an instruction may read. What its flags do not name is zero. -/
@[ext] structure Operands where
  a : BitVec 32
  b : BitVec 32
  s : BitVec 32
  carry : BitVec 32
  stringLength : Nat

/-- What an instruction may write. The flags say what of it is written, but for the overflow bit. -/
structure Outcome where
  d : BitVec 32 := 0
  a : BitVec 32 := 0
  carry : Bool := false
  oe : Bool := false
  ov : Bool := false
  crField : BitVec 4 := 0

section
variable (info : GekkoOPInfo) (inst : UGeckoInstruction)

def operands (x : PowerPCState) : Operands where
  a := if info.has flInA || (info.has flInA0 && inst.ra != 0) then x.gpr inst.ra else 0
  b := if info.has flInB then x.gpr inst.rb else 0
  s := if info.has flInS then x.gpr inst.rs else 0
  carry := if info.has flReadCa then x.getCarry else 0
  stringLength := Interpreter.stringLength x

/-- `lwarx` is said to set the first field of CR; it does not. -/
def recordsCr0 : Bool :=
  info.type = .integer && (info.has flSetCr0 || (info.has flRcBit && inst.rc))

namespace Outcome
variable (o : Outcome) (x : PowerPCState)

def writeGprs : PowerPCState :=
  let x := if info.has flOutD then Interpreter.writeGpr x inst.rd o.d else x
  if info.has flOutA then Interpreter.writeGpr x inst.ra o.a else x

def writeXer : PowerPCState :=
  let x := if info.has flSetCa then x.setCarry o.carry else x
  if o.oe then x.setXerOv o.ov else x

def writeCr : PowerPCState :=
  if info.has flSetCrn then
    let crField := if x.getXerSo != 0 then o.crField ||| crSo else o.crField
    { x with cr := x.cr.setField inst.crfd crField }
  else if recordsCr0 info inst then
    Interpreter.helperUpdateCR0 x (if info.has flOutD then o.d else o.a)
  else x

def write : PowerPCState :=
  o.writeCr info inst (o.writeXer info (o.writeGprs info inst x))

end Outcome

end

/-- The string loads load one register, all of it or the upper part. -/
def OneRegister (inst : UGeckoInstruction) (x : PowerPCState) : Prop :=
  inst.opcd = 31 →
    (inst.subop10 = 533 → 0 < Interpreter.stringLength x ∧ Interpreter.stringLength x ≤ 4) ∧
    (inst.subop10 = 597 → Interpreter.stringImmediate inst ≤ 4)

/-- The instruction is the one that the flags declare. -/
def AsDeclared (info : GekkoOPInfo) (fn : Interpreter.Instruction) (inst : UGeckoInstruction) :
    Prop :=
  ∃ outcome : MmuReads → Operands → Option Outcome, ∀ mmu m, OneRegister inst m.toPowerPCState →
    fn mmu m inst = (outcome mmu (operands info inst m.toPowerPCState)).map fun o =>
      { m with toPowerPCState := o.write info inst m.toPowerPCState }

namespace Outcome
variable (inst : UGeckoInstruction) (i : Operands)

def sum (x y result : BitVec 32) (carry : Bool) : Outcome :=
  { d := result, carry := carry, oe := inst.oe, ov := Interpreter.hasAddOverflowed x y result }

def add : Outcome := sum inst i.a i.b (i.a + i.b) false

def addc : Outcome := sum inst i.a i.b (i.a + i.b) (Interpreter.helperCarry i.a i.b)

def adde : Outcome :=
  sum inst i.a i.b (i.a + i.b + i.carry)
    (Interpreter.helperCarry i.a i.b ||
      i.carry != 0 && Interpreter.helperCarry (i.a + i.b) i.carry)

def addme : Outcome :=
  sum inst i.a 0xFFFFFFFF#32 (i.a + 0xFFFFFFFF#32 + i.carry)
    (Interpreter.helperCarry i.a (i.carry - 1))

def addze : Outcome := sum inst i.a 0 (i.a + i.carry) (Interpreter.helperCarry i.a i.carry)

def subf : Outcome := sum inst (~~~i.a) i.b (~~~i.a + i.b + 1) false

def subfc : Outcome :=
  sum inst (~~~i.a) i.b (~~~i.a + i.b + 1)
    (~~~i.a == 0xFFFFFFFF#32 || Interpreter.helperCarry i.b (~~~i.a + 1))

def subfe : Outcome :=
  sum inst (~~~i.a) i.b (~~~i.a + i.b + i.carry)
    (Interpreter.helperCarry (~~~i.a) i.b || Interpreter.helperCarry (~~~i.a + i.b) i.carry)

def subfme : Outcome :=
  sum inst (~~~i.a) 0xFFFFFFFF#32 (~~~i.a + 0xFFFFFFFF#32 + i.carry)
    (Interpreter.helperCarry (~~~i.a) (i.carry - 1))

def subfze : Outcome :=
  sum inst (~~~i.a) 0 (~~~i.a + i.carry) (Interpreter.helperCarry (~~~i.a) i.carry)

def divw : Outcome :=
  let overflow := i.b == 0 || (i.a == 0x80000000#32 && i.b == 0xFFFFFFFF#32)
  { d := if overflow then if i.a.msb then 0xFFFFFFFF else 0 else i.a.sdiv i.b
    oe := inst.oe
    ov := overflow }

def divwu : Outcome :=
  { d := if i.b == 0 then 0 else i.a / i.b, oe := inst.oe, ov := i.b == 0 }

def mullw : Outcome :=
  let result := i.a.signExtend 64 * i.b.signExtend 64
  { d := result.setWidth 32
    oe := inst.oe
    ov := result.toInt < -0x80000000 || 0x7FFFFFFF < result.toInt }

def neg : Outcome := { d := ~~~i.a + 1, oe := inst.oe, ov := i.a == 0x80000000 }

def sraw : Outcome :=
  let far := i.b &&& 0x20 != 0
  let amount := (i.b &&& 0x1F).toNat
  { a := if far then if i.s &&& 0x80000000 != 0 then 0xFFFFFFFF else 0 else i.s.sshiftRight amount
    carry := if far then i.s &&& 0x80000000 != 0 else Interpreter.losesBits i.s amount }

def compare {T : Type*} [LT T] [DecidableLT T] (a b : T) : Outcome :=
  { crField := if a < b then crLt else if b < a then crGt else crEq }

end Outcome

namespace Interpreter

/-- How the instructions of a table are selected: by OPCD, or by SUBOP10 behind 31. -/
abbrev Selection := UGeckoInstruction → Nat → Prop

def byOpcd : Selection := fun inst opcode => inst.opcd = opcode

def bySubop10 : Selection := fun inst opcode => inst.opcd = 31 ∧ inst.subop10 = opcode

/-- The instruction at a place of the tables is the one that its flags declare. -/
def AsDeclaredAt (table : List InterpreterOpTemplate) (selects : Selection)
    (template : GekkoOPTemplate) : Prop :=
  ∃ fn, lookup table template.opcode = some fn ∧
    ∀ inst, selects inst template.opcode → AsDeclared template.toGekkoOPInfo fn inst

/-! ### The families -/

namespace AsDeclaredAt
variable {table : List InterpreterOpTemplate} {selects : Selection} {template : GekkoOPTemplate}

theorem integer {fn : PowerPCState → UGeckoInstruction → PowerPCState}
    (hfn : lookup table template.opcode = some (Interpreter.integer fn))
    (outcome : UGeckoInstruction → Operands → Outcome)
    (h : ∀ inst x, fn x inst =
      (outcome inst (operands template.toGekkoOPInfo inst x)).write template.toGekkoOPInfo inst x) :
    AsDeclaredAt table selects template := by
  refine ⟨_, hfn, fun inst _ => ⟨fun _ i => some (outcome inst i), fun _ m _ => ?_⟩⟩
  rw [Interpreter.integer, h]
  rfl

theorem writeRa {fn : PowerPCState → UGeckoInstruction → PowerPCState}
    (hfn : lookup table template.opcode = some (Interpreter.integer fn))
    (result : UGeckoInstruction → Operands → BitVec 32)
    (h : ∀ inst x, fn x inst =
      Interpreter.writeRa x inst (result inst (operands template.toGekkoOPInfo inst x)))
    (hinfo : ∀ inst x value, Interpreter.writeRa x inst value =
      Outcome.write template.toGekkoOPInfo inst { a := value } x) :
    AsDeclaredAt table selects template :=
  integer hfn (fun inst i => { a := result inst i }) fun inst x => by rw [h, hinfo]

theorem loading {fn : MmuReads → PowerPCState → UGeckoInstruction → Option PowerPCState}
    (hfn : lookup table template.opcode = some (Interpreter.loading fn))
    (outcome : UGeckoInstruction → MmuReads → Operands → Option Outcome)
    (h : ∀ inst mmu x, selects inst template.opcode → OneRegister inst x →
      fn mmu x inst = (outcome inst mmu (operands template.toGekkoOPInfo inst x)).map
        (·.write template.toGekkoOPInfo inst x)) :
    AsDeclaredAt table selects template := by
  refine ⟨_, hfn, fun inst hsel => ⟨outcome inst, fun mmu m hone => ?_⟩⟩
  rw [Interpreter.loading, h inst mmu m.toPowerPCState hsel hone, Option.map_map]
  rfl

theorem load {fn : MmuReads → PowerPCState → UGeckoInstruction → Option PowerPCState}
    (hfn : lookup table template.opcode = some (Interpreter.loading fn))
    (temp : UGeckoInstruction → MmuReads → Operands → Option (BitVec 32))
    (h : ∀ inst mmu x, selects inst template.opcode → OneRegister inst x → fn mmu x inst =
      Interpreter.load x inst (temp inst mmu (operands template.toGekkoOPInfo inst x)))
    (hinfo : ∀ inst x value,
      writeGpr x inst.rd value = Outcome.write template.toGekkoOPInfo inst { d := value } x) :
    AsDeclaredAt table selects template := by
  refine loading hfn (fun inst mmu i => (temp inst mmu i).map ({ d := · }))
    fun inst mmu x hsel hone => ?_
  rw [h inst mmu x hsel hone, Interpreter.load, Option.map_map]
  exact congrArg (Option.map · _) (funext (hinfo inst x))

theorem loadUpdate {fn : MmuReads → PowerPCState → UGeckoInstruction → Option PowerPCState}
    (hfn : lookup table template.opcode = some (Interpreter.loading fn))
    (address : UGeckoInstruction → Operands → BitVec 32)
    (temp : MmuReads → BitVec 32 → Option (BitVec 32))
    (h : ∀ inst mmu x, fn mmu x inst =
      Interpreter.loadUpdate x inst (address inst (operands template.toGekkoOPInfo inst x))
        (temp mmu (address inst (operands template.toGekkoOPInfo inst x))))
    (hinfo : ∀ inst x value address, writeGpr (writeGpr x inst.rd value) inst.ra address =
      Outcome.write template.toGekkoOPInfo inst { d := value, a := address } x) :
    AsDeclaredAt table selects template := by
  refine loading hfn
    (fun inst mmu i => (temp mmu (address inst i)).map ({ d := ·, a := address inst i }))
    fun inst mmu x _ _ => ?_
  rw [h, Interpreter.loadUpdate, Option.map_map]
  exact congrArg (Option.map · _) (funext fun value => hinfo inst x value _)

end AsDeclaredAt

/-! ### The members with a form of their own -/

section
variable (x : PowerPCState) (inst : UGeckoInstruction)

def ra0 : BitVec 32 := if inst.ra != 0 then x.gpr inst.ra else 0

theorem ite_ra0 {α : Sort*} (f : BitVec 32 → α) :
    (if inst.ra ≠ 0 then f (x.gpr inst.ra) else f 0#32) = f (ra0 x inst) := by
  unfold ra0
  by_cases h : inst.ra = 0
  · simp [h]
  · simp [h]

theorem addi_eq : addi x inst = writeGpr x inst.rd (ra0 x inst + inst.simm16.signExtend 32) := by
  rw [← ite_ra0 x inst fun a => writeGpr x inst.rd (a + inst.simm16.signExtend 32), addi,
    BitVec.zero_add]

theorem addis_eq :
    addis x inst = writeGpr x inst.rd (ra0 x inst + inst.simm16.signExtend 32 <<< 16) := by
  rw [← ite_ra0 x inst fun a => writeGpr x inst.rd (a + inst.simm16.signExtend 32 <<< 16), addis,
    BitVec.zero_add]

theorem helperGetEA_eq : helperGetEA x inst = ra0 x inst + inst.simm16.signExtend 32 := by
  rw [← ite_ra0 x inst fun a => a + inst.simm16.signExtend 32, helperGetEA, BitVec.zero_add]

theorem helperGetEAX_eq : helperGetEAX x inst = ra0 x inst + x.gpr inst.rb := by
  rw [← ite_ra0 x inst fun a => a + x.gpr inst.rb, helperGetEAX, BitVec.zero_add]

theorem addicRc_eq : addicRc x inst =
    let result := x.gpr inst.ra + inst.simm16.signExtend 32
    let s := (writeGpr x inst.rd result).setCarry
      (helperCarry (x.gpr inst.ra) (inst.simm16.signExtend 32))
    helperUpdateCR0 s result := by
  rw [addicRc, addic, setCarry_gpr, writeGpr_gpr]

theorem andiRc_eq : andiRc x inst =
    let result := x.gpr inst.rs &&& uimmLow inst
    helperUpdateCR0 (writeGpr x inst.ra result) result := by
  rw [andiRc, writeGpr_gpr]

theorem andisRc_eq : andisRc x inst =
    let result := x.gpr inst.rs &&& uimmHigh inst
    helperUpdateCR0 (writeGpr x inst.ra result) result := by
  rw [andisRc, writeGpr_gpr]

theorem lwarx_eq (mmu : MmuReads) : lwarx mmu x inst =
    load x inst (if helperGetEAX x inst &&& 3 != 0 then none
      else mmu.read32 (helperGetEAX x inst)) := by
  unfold lwarx
  dsimp only
  split
  · rfl
  · rfl

theorem lswx_eq (mmu : MmuReads) (hpos : 0 < stringLength x) (hle : stringLength x ≤ 4) :
    lswx mmu x inst = load x inst (if mmu.msrLe then none
      else stringWord mmu (helperGetEAX x inst) (stringLength x)) := by
  obtain ⟨n, hn⟩ := Nat.exists_eq_add_of_lt hpos
  rw [Nat.zero_add] at hn
  unfold lswx
  rw [hn, lswxBytes_eq mmu x inst _ (by omega)]
  split
  · rfl
  · rfl

theorem lswi_eq (mmu : MmuReads) (hle : stringImmediate inst ≤ 4) :
    lswi mmu x inst = load x inst (if mmu.msrLe then none
      else stringWord mmu (ra0 x inst) (stringImmediate inst)) := by
  have hpos : stringImmediate inst ≠ 0 := by
    unfold stringImmediate
    split
    · assumption
    · decide
  obtain ⟨n, hn⟩ := Nat.exists_eq_succ_of_ne_zero hpos
  have hea : (if inst.ra ≠ 0 then x.gpr inst.ra else 0) = ra0 x inst := ite_ra0 x inst id
  unfold lswi
  dsimp only
  rw [hea, hn, Nat.succ_eq_add_one, lswiBytes_eq mmu x inst _ (by omega)]
  split
  · rfl
  · exact Option.map_map ..

end

/-! ### The tables -/

def straight (table : List GekkoOPTemplate) : List GekkoOPTemplate :=
  table.filter fun template => template.type = .integer || template.type = .load

theorem primaryTable_asDeclared :
    (straight PPCTables.primaryTable).Forall (AsDeclaredAt primaryTable byOpcd) := by
  refine ⟨?mulli, ?subfic, ?cmpli, ?cmpi, ?addic, ?addicRc, ?addi, ?addis, ?rlwimix, ?rlwinmx,
    ?rlwnmx, ?ori, ?oris, ?xori, ?xoris, ?andiRc, ?andisRc, ?lwz, ?lwzu, ?lbz, ?lbzu, ?lhz, ?lhzu,
    ?lha, ?lhau⟩
  case mulli =>
    exact .integer rfl (fun inst i => { d := i.a * inst.simm16.signExtend 32 }) fun _ _ => rfl
  case subfic =>
    exact .integer rfl (fun inst i =>
      { d := inst.simm16.signExtend 32 - i.a
        carry := i.a == 0 || helperCarry (0 - i.a) (inst.simm16.signExtend 32) }) fun _ _ => rfl
  case cmpli =>
    exact .integer rfl (fun inst i => .compare i.a.toNat inst.uimm.toNat) fun _ _ => rfl
  case cmpi =>
    exact .integer rfl (fun inst i => .compare i.a.toInt inst.simm16.toInt) fun _ _ => rfl
  case addic =>
    exact .integer rfl (fun inst i =>
      { d := i.a + inst.simm16.signExtend 32
        carry := helperCarry i.a (inst.simm16.signExtend 32) }) fun _ _ => rfl
  case addicRc =>
    exact .integer rfl (fun inst i =>
      { d := i.a + inst.simm16.signExtend 32
        carry := helperCarry i.a (inst.simm16.signExtend 32) }) fun inst x => addicRc_eq x inst
  case addi =>
    exact .integer rfl (fun inst i => { d := i.a + inst.simm16.signExtend 32 })
      fun inst x => addi_eq x inst
  case addis =>
    exact .integer rfl (fun inst i => { d := i.a + inst.simm16.signExtend 32 <<< 16 })
      fun inst x => addis_eq x inst
  case rlwimix =>
    exact .writeRa rfl (fun inst i => (i.a &&& ~~~makeRotationMask inst.mb inst.me) |||
      (i.s.rotateLeft inst.sh &&& makeRotationMask inst.mb inst.me))
      (fun _ _ => rfl) fun inst x => writeRa_eq x inst
  case rlwinmx =>
    exact .writeRa rfl (fun inst i => i.s.rotateLeft inst.sh &&& makeRotationMask inst.mb inst.me)
      (fun _ _ => rfl) fun inst x => writeRa_eq x inst
  case rlwnmx =>
    exact .writeRa rfl (fun inst i =>
      i.s.rotateLeft (i.b &&& 0x1F).toNat &&& makeRotationMask inst.mb inst.me)
      (fun _ _ => rfl) fun inst x => writeRa_eq x inst
  case ori =>
    exact .integer rfl (fun inst i => { a := i.s ||| uimmLow inst }) fun _ _ => rfl
  case oris =>
    exact .integer rfl (fun inst i => { a := i.s ||| uimmHigh inst }) fun _ _ => rfl
  case xori =>
    exact .integer rfl (fun inst i => { a := i.s ^^^ uimmLow inst }) fun _ _ => rfl
  case xoris =>
    exact .integer rfl (fun inst i => { a := i.s ^^^ uimmHigh inst }) fun _ _ => rfl
  case andiRc =>
    exact .integer rfl (fun inst i => { a := i.s &&& uimmLow inst })
      fun inst x => andiRc_eq x inst
  case andisRc =>
    exact .integer rfl (fun inst i => { a := i.s &&& uimmHigh inst })
      fun inst x => andisRc_eq x inst
  case lwz =>
    exact .load rfl (fun inst mmu i => mmu.read32 (i.a + inst.simm16.signExtend 32))
      (fun inst mmu x _ _ => by rw [lwz, helperGetEA_eq]; rfl) fun _ _ _ => rfl
  case lwzu =>
    exact .loadUpdate rfl (fun inst i => i.a + inst.simm16.signExtend 32) (·.read32)
      (fun _ _ _ => rfl) fun _ _ _ _ => rfl
  case lbz =>
    exact .load rfl (fun inst mmu i => mmu.byte (i.a + inst.simm16.signExtend 32))
      (fun inst mmu x _ _ => by rw [lbz, helperGetEA_eq]; rfl) fun _ _ _ => rfl
  case lbzu =>
    exact .loadUpdate rfl (fun inst i => i.a + inst.simm16.signExtend 32) (·.byte)
      (fun _ _ _ => rfl) fun _ _ _ _ => rfl
  case lhz =>
    exact .load rfl (fun inst mmu i => mmu.half (i.a + inst.simm16.signExtend 32))
      (fun inst mmu x _ _ => by rw [lhz, helperGetEA_eq]; rfl) fun _ _ _ => rfl
  case lhzu =>
    exact .loadUpdate rfl (fun inst i => i.a + inst.simm16.signExtend 32) (·.half)
      (fun _ _ _ => rfl) fun _ _ _ _ => rfl
  case lha =>
    exact .load rfl (fun inst mmu i => mmu.halfSigned (i.a + inst.simm16.signExtend 32))
      (fun inst mmu x _ _ => by rw [lha, helperGetEA_eq]; rfl) fun _ _ _ => rfl
  case lhau =>
    exact .loadUpdate rfl (fun inst i => i.a + inst.simm16.signExtend 32) (·.halfSigned)
      (fun _ _ _ => rfl) fun _ _ _ _ => rfl

theorem table31_asDeclared :
    (straight PPCTables.table31).Forall (AsDeclaredAt table31 bySubop10) := by
  refine ⟨?addx, ?addox, ?addcx, ?addcox, ?addex, ?addeox, ?addmex, ?addmeox, ?addzex, ?addzeox,
    ?divwx, ?divwox, ?divwux, ?divwuox, ?mulhwx, ?mulhwux, ?mullwx, ?mullwox, ?negx, ?negox, ?subfx,
    ?subfox, ?subfcx, ?subfcox, ?subfex, ?subfeox, ?subfmex, ?subfmeox, ?subfzex, ?subfzeox, ?andx,
    ?andcx, ?orx, ?norx, ?xorx, ?orcx, ?nandx, ?eqvx, ?cmp, ?cmpl, ?cntlzwx, ?extshx, ?extsbx,
    ?srwx, ?srawx, ?srawix, ?slwx, ?lwzx, ?lwzux, ?lhzx, ?lhzux, ?lhax, ?lhaux, ?lbzx, ?lbzux,
    ?lwbrx, ?lhbrx, ?lwarx, ?lswx, ?lswi⟩
  case addx =>
    exact .integer rfl .add fun _ _ => rfl
  case addox =>
    exact .integer rfl .add fun _ _ => rfl
  case addcx =>
    exact .integer rfl .addc fun _ _ => rfl
  case addcox =>
    exact .integer rfl .addc fun _ _ => rfl
  case addex =>
    exact .integer rfl .adde fun _ _ => rfl
  case addeox =>
    exact .integer rfl .adde fun _ _ => rfl
  case addmex =>
    exact .integer rfl .addme fun _ _ => rfl
  case addmeox =>
    exact .integer rfl .addme fun _ _ => rfl
  case addzex =>
    exact .integer rfl .addze fun _ _ => rfl
  case addzeox =>
    exact .integer rfl .addze fun _ _ => rfl
  case divwx =>
    exact .integer rfl .divw fun inst x => writeRd_eq x inst _ _
  case divwox =>
    exact .integer rfl .divw fun inst x => writeRd_eq x inst _ _
  case divwux =>
    exact .integer rfl .divwu fun inst x => writeRd_eq x inst _ _
  case divwuox =>
    exact .integer rfl .divwu fun inst x => writeRd_eq x inst _ _
  case mulhwx =>
    exact .integer rfl (fun _ i =>
      { d := ((i.a.signExtend 64 * i.b.signExtend 64).sshiftRight 32).setWidth 32 }) fun _ _ => rfl
  case mulhwux =>
    exact .integer rfl (fun _ i =>
      { d := ((i.a.setWidth 64 * i.b.setWidth 64) >>> 32).setWidth 32 }) fun _ _ => rfl
  case mullwx =>
    exact .integer rfl .mullw fun inst x => writeRd_eq x inst _ _
  case mullwox =>
    exact .integer rfl .mullw fun inst x => writeRd_eq x inst _ _
  case negx =>
    exact .integer rfl .neg fun inst x => writeRd_eq x inst _ _
  case negox =>
    exact .integer rfl .neg fun inst x => writeRd_eq x inst _ _
  case subfx =>
    exact .integer rfl .subf fun _ _ => rfl
  case subfox =>
    exact .integer rfl .subf fun _ _ => rfl
  case subfcx =>
    exact .integer rfl .subfc fun _ _ => rfl
  case subfcox =>
    exact .integer rfl .subfc fun _ _ => rfl
  case subfex =>
    exact .integer rfl .subfe fun _ _ => rfl
  case subfeox =>
    exact .integer rfl .subfe fun _ _ => rfl
  case subfmex =>
    exact .integer rfl .subfme fun _ _ => rfl
  case subfmeox =>
    exact .integer rfl .subfme fun _ _ => rfl
  case subfzex =>
    exact .integer rfl .subfze fun _ _ => rfl
  case subfzeox =>
    exact .integer rfl .subfze fun _ _ => rfl
  case andx =>
    exact .writeRa rfl (fun _ i => i.s &&& i.b)
      (fun _ _ => rfl) fun inst x => writeRa_eq x inst
  case andcx =>
    exact .writeRa rfl (fun _ i => i.s &&& ~~~i.b)
      (fun _ _ => rfl) fun inst x => writeRa_eq x inst
  case orx =>
    exact .writeRa rfl (fun _ i => i.s ||| i.b)
      (fun _ _ => rfl) fun inst x => writeRa_eq x inst
  case norx =>
    exact .writeRa rfl (fun _ i => ~~~(i.s ||| i.b))
      (fun _ _ => rfl) fun inst x => writeRa_eq x inst
  case xorx =>
    exact .writeRa rfl (fun _ i => i.s ^^^ i.b)
      (fun _ _ => rfl) fun inst x => writeRa_eq x inst
  case orcx =>
    exact .writeRa rfl (fun _ i => i.s ||| ~~~i.b)
      (fun _ _ => rfl) fun inst x => writeRa_eq x inst
  case nandx =>
    exact .writeRa rfl (fun _ i => ~~~(i.s &&& i.b))
      (fun _ _ => rfl) fun inst x => writeRa_eq x inst
  case eqvx =>
    exact .writeRa rfl (fun _ i => ~~~(i.s ^^^ i.b))
      (fun _ _ => rfl) fun inst x => writeRa_eq x inst
  case cmp =>
    exact .integer rfl (fun _ i => .compare i.a.toInt i.b.toInt) fun _ _ => rfl
  case cmpl =>
    exact .integer rfl (fun _ i => .compare i.a.toNat i.b.toNat) fun _ _ => rfl
  case cntlzwx =>
    exact .writeRa rfl (fun _ i => i.s.clz)
      (fun _ _ => rfl) fun inst x => writeRa_eq x inst
  case extshx =>
    exact .writeRa rfl (fun _ i => (i.s.setWidth 16).signExtend 32)
      (fun _ _ => rfl) fun inst x => writeRa_eq x inst
  case extsbx =>
    exact .writeRa rfl (fun _ i => (i.s.setWidth 8).signExtend 32)
      (fun _ _ => rfl) fun inst x => writeRa_eq x inst
  case srwx =>
    exact .writeRa rfl (fun _ i => if i.b &&& 0x20 != 0 then 0 else i.s >>> (i.b &&& 0x1F))
      (fun _ _ => rfl) fun inst x => writeRa_eq x inst
  case srawx =>
    exact .integer rfl (fun _ i => .sraw i) fun inst x => srawx_eq x inst
  case srawix =>
    exact .integer rfl (fun inst i =>
      { a := i.s.sshiftRight inst.sh, carry := losesBits i.s inst.sh })
      fun inst x => srawix_eq x inst
  case slwx =>
    exact .writeRa rfl (fun _ i => if i.b &&& 0x20 != 0 then 0 else i.s <<< (i.b &&& 0x1F))
      (fun _ _ => rfl) fun inst x => writeRa_eq x inst
  case lwzx =>
    exact .load rfl (fun _ mmu i => mmu.read32 (i.a + i.b))
      (fun inst mmu x _ _ => by rw [lwzx, helperGetEAX_eq]; rfl) fun _ _ _ => rfl
  case lwzux =>
    exact .loadUpdate rfl (fun _ i => i.a + i.b) (·.read32)
      (fun _ _ _ => rfl) fun _ _ _ _ => rfl
  case lhzx =>
    exact .load rfl (fun _ mmu i => mmu.half (i.a + i.b))
      (fun inst mmu x _ _ => by rw [lhzx, helperGetEAX_eq]; rfl) fun _ _ _ => rfl
  case lhzux =>
    exact .loadUpdate rfl (fun _ i => i.a + i.b) (·.half)
      (fun _ _ _ => rfl) fun _ _ _ _ => rfl
  case lhax =>
    exact .load rfl (fun _ mmu i => mmu.halfSigned (i.a + i.b))
      (fun inst mmu x _ _ => by rw [lhax, helperGetEAX_eq]; rfl) fun _ _ _ => rfl
  case lhaux =>
    exact .loadUpdate rfl (fun _ i => i.a + i.b) (·.halfSigned)
      (fun _ _ _ => rfl) fun _ _ _ _ => rfl
  case lbzx =>
    exact .load rfl (fun _ mmu i => mmu.byte (i.a + i.b))
      (fun inst mmu x _ _ => by rw [lbzx, helperGetEAX_eq]; rfl) fun _ _ _ => rfl
  case lbzux =>
    exact .loadUpdate rfl (fun _ i => i.a + i.b) (·.byte)
      (fun _ _ _ => rfl) fun _ _ _ _ => rfl
  case lwbrx =>
    exact .load rfl (fun _ mmu i => (mmu.read32 (i.a + i.b)).map swap32)
      (fun inst mmu x _ _ => by rw [lwbrx, helperGetEAX_eq]; rfl) fun _ _ _ => rfl
  case lhbrx =>
    exact .load rfl (fun _ mmu i =>
      (mmu.read16 (i.a + i.b)).map fun temp => (swap16 temp).setWidth 32)
      (fun inst mmu x _ _ => by rw [lhbrx, helperGetEAX_eq]; rfl) fun _ _ _ => rfl
  case lwarx =>
    exact .load rfl (fun _ mmu i =>
      if (i.a + i.b) &&& 3 != 0 then none else mmu.read32 (i.a + i.b))
      (fun inst mmu x _ _ => by rw [lwarx_eq, helperGetEAX_eq]; rfl) fun _ _ _ => rfl
  case lswx =>
    exact .load rfl (fun _ mmu i =>
      if mmu.msrLe then none else stringWord mmu (i.a + i.b) i.stringLength)
      (fun inst mmu x hsel hone => by
        obtain ⟨hpos, hle⟩ := (hone hsel.1).1 hsel.2
        rw [lswx_eq x inst mmu hpos hle, helperGetEAX_eq]
        rfl) fun _ _ _ => rfl
  case lswi =>
    exact .load rfl (fun inst mmu i =>
      if mmu.msrLe then none else stringWord mmu i.a (stringImmediate inst))
      (fun inst mmu x hsel hone => lswi_eq x inst mmu ((hone hsel.1).2 hsel.2)) fun _ _ _ => rfl

end Interpreter

end DolphinXR.PowerPC
