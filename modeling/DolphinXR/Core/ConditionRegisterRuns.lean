import Mathlib.Data.Fin.VecNotation
import DolphinXR.Core.InterpreterInteger

/- Runs of the instructions that write CR (Core/PowerPC/Interpreter/Interpreter_SystemRegisters.cpp
   and the helpers of the integer instructions), next to the same runs on what the manual
   describes: an array of 32 bits and the bits of XER. `get_run` says that after every run the
   64 bit fields read as the word of the array, from any patterns the run starts with. -/
namespace DolphinXR.PowerPC
open PowerPCState UGeckoInstruction ConditionRegister

attribute [local instance] neZero_gprs neZero_crFields

namespace Interpreter

/-- The mask of `mtcrf`: bit `i` of CRM selects the four bits from `4 * i` on. -/
def crmMask (crm : BitVec 8) : BitVec 32 :=
  (List.finRange 8).foldl
    (fun mask i => mask ||| if crm.getLsbD i.val then 0xF#32 <<< (i.val * 4) else 0) 0

def mtcrf (s : PowerPCState) (inst : UGeckoInstruction) : PowerPCState :=
  if inst.crm = 0xFF then { s with cr := s.cr.set (s.gpr inst.rs) }
  else
    let mask := crmMask inst.crm
    { s with cr := s.cr.set ((s.cr.get &&& ~~~mask) ||| (s.gpr inst.rs &&& mask)) }

/-- A logical instruction on two bits of CR. -/
def crLogical (op : BitVec 32 → BitVec 32 → BitVec 32) (s : PowerPCState)
    (inst : UGeckoInstruction) : PowerPCState :=
  let a := s.cr.getBit inst.crba
  let b := s.cr.getBit inst.crbb
  { s with cr := s.cr.setBit inst.crbd (op a b) }

def crand := crLogical fun a b => a &&& b
def crandc := crLogical fun a b => a &&& (1 ^^^ b)
def creqv := crLogical fun a b => 1 ^^^ (a ^^^ b)
def crnand := crLogical fun a b => 1 ^^^ (a &&& b)
def crnor := crLogical fun a b => 1 ^^^ (a ||| b)
def cror := crLogical fun a b => a ||| b
def crorc := crLogical fun a b => a ||| (1 ^^^ b)
def crxor := crLogical fun a b => a ^^^ b

def mcrf (s : PowerPCState) (inst : UGeckoInstruction) : PowerPCState :=
  { s with cr := s.cr.setField inst.crfd (s.cr.getField inst.crfs) }

def mcrxr (s : PowerPCState) (inst : UGeckoInstruction) : PowerPCState :=
  { s with
    cr := s.cr.setField inst.crfd ((s.getXer >>> 28).setWidth 4)
    xerCa := 0#8
    xerSoOv := 0#8
    ca_lt := by decide
    soOv_lt := by decide }

inductive CrLogicalOp where
  | crand | crandc | creqv | crnand | crnor | cror | crorc | crxor

/-- What writes CR, and what changes the registers that the next write of CR reads. -/
inductive Update where
  | updateCR0 (value : BitVec 32)
  | compareSigned (crfd : Fin 8) (a b : BitVec 32)
  | compareUnsigned (crfd : Fin 8) (a b : BitVec 32)
  | setField (crField : Fin 8) (value : BitVec 4)
  | setBit (bit : Fin 32) (value : BitVec 32)
  | set (newCr : BitVec 32)
  | mtcrf (inst : UGeckoInstruction)
  | logical (op : CrLogicalOp) (inst : UGeckoInstruction)
  | mcrf (inst : UGeckoInstruction)
  | mcrxr (inst : UGeckoInstruction)
  | writeGpr (reg : Fin 32) (value : BitVec 32)
  | setXer (newXer : BitVec 32)
  | setXerOv (value : Bool)
  | setCarry (ca : Bool)

def CrLogicalOp.exec : CrLogicalOp → PowerPCState → UGeckoInstruction → PowerPCState
  | crand => Interpreter.crand
  | crandc => Interpreter.crandc
  | creqv => Interpreter.creqv
  | crnand => Interpreter.crnand
  | crnor => Interpreter.crnor
  | cror => Interpreter.cror
  | crorc => Interpreter.crorc
  | crxor => Interpreter.crxor

def Update.exec (s : PowerPCState) : Update → PowerPCState
  | .updateCR0 value => helperUpdateCR0 s value
  | .compareSigned crfd a b => helperIntCompare s crfd a.toInt b.toInt
  | .compareUnsigned crfd a b => helperIntCompare s crfd a.toNat b.toNat
  | .setField crField value => { s with cr := s.cr.setField crField value }
  | .setBit bit value => { s with cr := s.cr.setBit bit value }
  | .set newCr => { s with cr := s.cr.set newCr }
  | .mtcrf inst => Interpreter.mtcrf s inst
  | .logical op inst => op.exec s inst
  | .mcrf inst => Interpreter.mcrf s inst
  | .mcrxr inst => Interpreter.mcrxr s inst
  | .writeGpr reg value => Interpreter.writeGpr s reg value
  | .setXer newXer => s.setXer newXer
  | .setXerOv value => s.setXerOv value
  | .setCarry ca => s.setCarry ca

def run (s : PowerPCState) (updates : List Update) : PowerPCState := updates.foldl Update.exec s

end Interpreter

/-! ### The manual's condition register -/

@[ext] structure ArchState where
  gpr : Fin 32 → BitVec 32
  /-- The bits of CR; bit 0 is the most significant one. -/
  cr : Fin 32 → Bool
  so : Bool
  ov : Bool
  ca : Bool

namespace ArchState
variable (t : ArchState)

def word : BitVec 32 := (BitVec.ofBoolListBE (List.ofFn t.cr)).cast (by simp)

def record (crField : Fin 8) (value : Fin 4 → Bool) : ArchState :=
  { t with cr := fun bit =>
      if fieldOf bit = crField then value ⟨bit % 4, by omega⟩ else t.cr bit }

def compare (crField : Fin 8) (lt gt eq : Bool) : ArchState :=
  t.record crField ![lt, gt, eq, t.so]

def writeBit (bit : Fin 32) (value : Bool) : ArchState :=
  { t with cr := Function.update t.cr bit value }

/-- The fields that CRM selects, its most significant bit standing for field 0. -/
def mtcrf (crm : BitVec 8) (value : BitVec 32) : ArchState :=
  { t with cr := fun bit =>
      if crm.getMsbD (fieldOf bit) then value.getMsbD bit else t.cr bit }

end ArchState

namespace Interpreter

/-- The logical operations on bits. -/
def CrLogicalOp.onBits : CrLogicalOp → Bool → Bool → Bool
  | crand, a, b => a && b
  | crandc, a, b => a && !b
  | creqv, a, b => a == b
  | crnand, a, b => !(a && b)
  | crnor, a, b => !(a || b)
  | cror, a, b => a || b
  | crorc, a, b => a || !b
  | crxor, a, b => a != b

def Update.onArch (t : ArchState) : Update → ArchState
  | .updateCR0 value => t.compare 0 (value.slt 0#32) ((0#32).slt value) (value == 0)
  | .compareSigned crfd a b => t.compare crfd (a.slt b) (b.slt a) (a == b)
  | .compareUnsigned crfd a b => t.compare crfd (a.ult b) (b.ult a) (a == b)
  | .setField crField value => t.record crField fun i => value.getMsbD i
  | .setBit bit value => t.writeBit bit (value.getLsbD 0)
  | .set newCr => { t with cr := fun bit => newCr.getMsbD bit }
  | .mtcrf inst => t.mtcrf inst.crm (t.gpr inst.rs)
  | .logical op inst => t.writeBit inst.crbd (op.onBits (t.cr inst.crba) (t.cr inst.crbb))
  | .mcrf inst => t.record inst.crfd fun i => t.cr ⟨4 * inst.crfs + i, by omega⟩
  | .mcrxr inst =>
    { t.record inst.crfd ![t.so, t.ov, t.ca, false] with so := false, ov := false, ca := false }
  | .writeGpr reg value => { t with gpr := Function.update t.gpr reg value }
  | .setXer newXer =>
    { t with so := newXer.getLsbD 31, ov := newXer.getLsbD 30, ca := newXer.getLsbD 29 }
  | .setXerOv value => { t with so := t.so || value, ov := value }
  | .setCarry ca => { t with ca := ca }

def archRun (t : ArchState) (updates : List Update) : ArchState := updates.foldl Update.onArch t

def arch (s : PowerPCState) : ArchState :=
  { gpr := s.gpr, cr := s.cr.bitAt, so := s.so, ov := s.ov, ca := s.ca }

/-! ### One update -/

theorem getMsbD_word (t : ArchState) (bit : Fin 32) : t.word.getMsbD bit = t.cr bit := by
  rw [ArchState.word, BitVec.getMsbD_cast, BitVec.getMsbD_ofBoolListBE, List.getD_eq_getElem?_getD,
    List.getElem?_ofFn, dif_pos bit.isLt]
  rfl

theorem eq_word_of_getMsbD {t : ArchState} {x : BitVec 32}
    (h : ∀ bit : Fin 32, x.getMsbD bit = t.cr bit) : x = t.word := by
  apply BitVec.eq_of_getMsbD_eq
  intro i hi
  exact (h ⟨i, hi⟩).trans (getMsbD_word t ⟨i, hi⟩).symm

theorem getXerSo_eq (s : PowerPCState) : s.getXerSo = flag 32 s.so := by
  have hbyte : ∀ x : BitVec 8, x.toNat < 4 → (x >>> 1).setWidth 32 = flag 32 (x.getLsbD 1) := by
    decide
  exact hbyte s.xerSoOv s.soOv_lt

theorem flags_getMsbD (lt gt eq so : Bool) (i : Fin 4) :
    (flags lt gt eq so).getMsbD i = ![lt, gt, eq, so] i := by
  revert lt gt eq so i
  decide

theorem bitAt_of_getField (cr cr' : ConditionRegister) {f : Fin 8} {value : BitVec 4}
    {bits : Fin 4 → Bool} (hf : cr'.getField f = value)
    (hother : ∀ g, g ≠ f → cr'.getField g = cr.getField g)
    (hvalue : ∀ i : Fin 4, value.getMsbD i = bits i) (bit : Fin 32) :
    cr'.bitAt bit = if fieldOf bit = f then bits ⟨bit % 4, by omega⟩ else cr.bitAt bit := by
  by_cases h : fieldOf bit = f
  · rw [if_pos h, bitAt, h, hf]
    exact hvalue ⟨bit % 4, by omega⟩
  · rw [if_neg h, bitAt, hother _ h]
    rfl

theorem arch_setField (s : PowerPCState) (f : Fin 8) {value : BitVec 4} {bits : Fin 4 → Bool}
    (hvalue : ∀ i : Fin 4, value.getMsbD i = bits i) :
    arch { s with cr := s.cr.setField f value } = (arch s).record f bits := by
  have hcr := bitAt_of_getField s.cr (s.cr.setField f value)
    (by rw [getField_setField, if_pos rfl])
    (fun g hg => by rw [getField_setField, if_neg hg]) hvalue
  exact ArchState.ext rfl (funext hcr) rfl rfl rfl

theorem arch_setBit (s : PowerPCState) (bit : Fin 32) (value : BitVec 32) :
    arch { s with cr := s.cr.setBit bit value } = (arch s).writeBit bit (value.getLsbD 0) := by
  refine ArchState.ext rfl (funext fun other => ?_) rfl rfl rfl
  show (s.cr.setBit bit value).bitAt other = Function.update s.cr.bitAt bit _ other
  rw [bitAt_setBit, Function.update_apply]

theorem zero_lt_toInt {w : Nat} (x : BitVec w) :
    decide (0 < x.toInt) = (!x.msb && decide (x ≠ 0#w)) := by
  have hzero : x.toInt = 0 ↔ x = 0#w := by rw [← BitVec.toInt_inj, BitVec.toInt_zero]
  rw [BitVec.msb_eq_toInt, Bool.eq_iff_iff]
  simp only [decide_eq_true_eq, Bool.and_eq_true, Bool.not_eq_true', decide_eq_false_iff_not,
    ne_eq, ← hzero]
  omega

theorem crVal_getLsbD (value : BitVec 32) (so : Bool) {i : Nat} (hi : i < 64) :
    ((value.signExtend 64 &&& ~~~(1#64 <<< crEmuSoBit)) |||
        (flag 32 so).setWidth 64 <<< crEmuSoBit).getLsbD i =
      if i = 59 then so else if i < 32 then value.getLsbD i else value.msb := by
  rw [BitVec.getLsbD_or, BitVec.getLsbD_and, BitVec.getLsbD_not, BitVec.getLsbD_shiftLeft,
    BitVec.getLsbD_shiftLeft, BitVec.getLsbD_setWidth, BitVec.getLsbD_signExtend,
    BitVec.getLsbD_one, flag_getLsbD (by decide), crEmuSoBit]
  by_cases h59 : i = 59
  · subst h59
    simp
  · by_cases hlt : i < 59
    · simp [h59, hi, hlt]
    · have hne : i - 59 ≠ 0 := by omega
      simp [h59, hi, hlt, hne]

theorem toPpc_signExtend (value : BitVec 32) (so : Bool) :
    toPpc (((if value = 0 then value.signExtend 64 ||| 1#64 <<< 63 else value.signExtend 64)
        &&& ~~~(1#64 <<< crEmuSoBit)) ||| (flag 32 so).setWidth 64 <<< crEmuSoBit) =
      flags (value.slt 0#32) ((0#32).slt value) (value == 0) so := by
  by_cases hzero : value = 0
  · subst hzero
    revert so
    decide
  · rw [if_neg hzero, toPpc_eq]
    have hbit := fun i hi => crVal_getLsbD value so (i := i) hi
    generalize (value.signExtend 64 &&& ~~~(1#64 <<< crEmuSoBit)) |||
      (flag 32 so).setWidth 64 <<< crEmuSoBit = crVal at hbit ⊢
    have hlow : crVal.setWidth 32 = value := by
      apply BitVec.eq_of_getLsbD_eq
      intro i hi
      rw [BitVec.getLsbD_setWidth, hbit i (by omega), if_neg (by omega), if_pos hi]
      simp [hi]
    have hlt : crVal.getLsbD 62 = value.slt 0#32 := by
      rw [hbit 62 (by decide), if_neg (by decide), if_neg (by decide), BitVec.slt_zero_eq_msb]
    have hmsb : crVal.msb = value.msb := by
      rw [BitVec.msb, BitVec.getMsbD, hbit _ (by decide)]
      rfl
    have hne : crVal ≠ 0 := by
      rintro rfl
      exact hzero (hlow.symm.trans (by decide))
    have hgt : decide (0 < crVal.toInt) = (0#32).slt value := by
      rw [BitVec.slt_eq_decide, BitVec.toInt_zero, zero_lt_toInt, zero_lt_toInt, hmsb,
        decide_eq_true (show crVal ≠ 0#64 from hne), decide_eq_true (show value ≠ 0#32 from hzero)]
    rw [hlow, hlt, hgt, hbit 59 (by decide), if_pos rfl]

theorem arch_updateCR0 (s : PowerPCState) (value : BitVec 32) :
    arch (helperUpdateCR0 s value) =
      (arch s).compare 0 (value.slt 0#32) ((0#32).slt value) (value == 0) := by
  have hread : (helperUpdateCR0 s value).cr.getField 0 =
      flags (value.slt 0#32) ((0#32).slt value) (value == 0) s.so := by
    rw [← toPpc_signExtend, ← getXerSo_eq]
    simp [helperUpdateCR0, getField]
  have hcr := bitAt_of_getField s.cr _ hread
    (fun g hg => by simp [helperUpdateCR0, getField, hg]) (flags_getMsbD _ _ _ _)
  exact ArchState.ext rfl (funext hcr) rfl rfl rfl

theorem arch_intCompare {T : Type*} [LinearOrder T] (s : PowerPCState) (crfd : Fin 8) (a b : T) :
    arch (helperIntCompare s crfd a b) =
      (arch s).compare crfd (decide (a < b)) (decide (b < a)) (decide (a = b)) := by
  refine arch_setField s crfd fun i => ?_
  have hso : (s.getXerSo != 0) = s.so := by
    rw [getXerSo_eq]
    cases s.so <;> rfl
  rw [hso]
  show _ = ![decide (a < b), decide (b < a), decide (a = b), s.so] i
  generalize s.so = so
  obtain h | h | h := lt_trichotomy a b
  · simp only [h, h.not_gt, h.ne, if_true, decide_true, decide_false]
    revert so i
    decide
  · subst h
    simp only [lt_irrefl, if_false, decide_true, decide_false]
    revert so i
    decide
  · simp only [h, h.not_gt, h.ne', if_true, if_false, decide_true, decide_false]
    revert so i
    decide

theorem arch_set (s : PowerPCState) (newCr : BitVec 32) :
    arch { s with cr := s.cr.set newCr } =
      { arch s with cr := fun bit => newCr.getMsbD bit } :=
  ArchState.ext rfl (funext fun bit => bitAt_set s.cr newCr bit) rfl rfl rfl

theorem crmMask_getMsbD (crm : BitVec 8) (bit : Fin 32) :
    (crmMask crm).getMsbD bit = crm.getMsbD (fieldOf bit) := by
  obtain ⟨bit, hbit⟩ := bit
  have hnibble : ∀ i : Fin 8,
      (if crm.getLsbD i.val then 0xF#32 <<< (i.val * 4) else 0).getLsbD (31 - bit) =
        (decide (7 - bit / 4 = i.val) && crm.getLsbD i) := by
    intro i
    have hones : ∀ k < 32, (0xF#32).getLsbD k = decide (k < 4) := by decide
    cases crm.getLsbD i.val with
    | false => simp
    | true =>
      rw [if_pos rfl, BitVec.getLsbD_shiftLeft, hones _ (by omega), Bool.and_true,
        decide_eq_true (show 31 - bit < 32 by omega), Bool.true_and, Bool.eq_iff_iff]
      simp only [Bool.and_eq_true, Bool.not_eq_true', decide_eq_false_iff_not, decide_eq_true_eq]
      omega
  have hfield : 7 - bit / 4 < 8 := by omega
  have hval : (fieldOf ⟨bit, hbit⟩).val = bit / 4 := rfl
  rw [BitVec.getMsbD, BitVec.getMsbD, decide_eq_true hbit, decide_eq_true (fieldOf _).isLt, hval,
    Bool.true_and, Bool.true_and, crmMask, getLsbD_foldl_or, show 32 - 1 - bit = 31 - bit from rfl]
  simp only [hnibble]
  rw [show (0 : BitVec 32).getLsbD (31 - bit) = false from BitVec.getLsbD_zero, Bool.false_or,
    Bool.eq_iff_iff, List.any_eq_true]
  constructor
  · rintro ⟨i, -, hi⟩
    rw [Bool.and_eq_true, decide_eq_true_eq] at hi
    exact hi.1 ▸ hi.2
  · intro h
    exact ⟨⟨7 - bit / 4, hfield⟩, List.mem_finRange _, by simpa using h⟩

theorem arch_mtcrf (s : PowerPCState) (inst : UGeckoInstruction) :
    arch (mtcrf s inst) = (arch s).mtcrf inst.crm (s.gpr inst.rs) := by
  rw [mtcrf]
  split
  case isTrue hall =>
    have hbit : ∀ f : Fin 8, (0xFF#8).getMsbD f = true := by decide
    rw [arch_set]
    refine ArchState.ext rfl (funext fun bit => ?_) rfl rfl rfl
    show _ = if inst.crm.getMsbD (fieldOf bit) = true then _ else _
    rw [hall, show (0xFF : BitVec 8).getMsbD (fieldOf bit) = true from hbit _, if_pos rfl]
  case isFalse =>
    rw [arch_set]
    refine ArchState.ext rfl (funext fun bit => ?_) rfl rfl rfl
    show (_ ||| _ : BitVec 32).getMsbD bit =
      if inst.crm.getMsbD (fieldOf bit) = true then _ else s.cr.bitAt bit
    rw [BitVec.getMsbD_or, BitVec.getMsbD_and, BitVec.getMsbD_and, BitVec.getMsbD_not,
      getMsbD_get, crmMask_getMsbD]
    cases inst.crm.getMsbD (fieldOf bit) with
    | true => simp
    | false => simp

theorem arch_logical (s : PowerPCState) (op : CrLogicalOp) (inst : UGeckoInstruction) :
    arch (op.exec s inst) =
      (arch s).writeBit inst.crbd (op.onBits (s.cr.bitAt inst.crba) (s.cr.bitAt inst.crbb)) := by
  have hbit : ∀ f : BitVec 32 → BitVec 32 → BitVec 32,
      (∀ a b : Bool, (f (flag 32 a) (flag 32 b)).getLsbD 0 = op.onBits a b) →
      arch (crLogical f s inst) =
        (arch s).writeBit inst.crbd (op.onBits (s.cr.bitAt inst.crba) (s.cr.bitAt inst.crbb)) := by
    intro f hf
    rw [← hf, ← getBit_eq, ← getBit_eq]
    exact arch_setBit s inst.crbd _
  cases op with
  | crand => exact hbit _ (by decide)
  | crandc => exact hbit _ (by decide)
  | creqv => exact hbit _ (by decide)
  | crnand => exact hbit _ (by decide)
  | crnor => exact hbit _ (by decide)
  | cror => exact hbit _ (by decide)
  | crorc => exact hbit _ (by decide)
  | crxor => exact hbit _ (by decide)

theorem arch_mcrf (s : PowerPCState) (inst : UGeckoInstruction) :
    arch (mcrf s inst) =
      (arch s).record inst.crfd fun i => (arch s).cr ⟨4 * inst.crfs + i, by omega⟩ := by
  refine arch_setField s inst.crfd fun i => ?_
  have hfield : fieldOf ⟨4 * inst.crfs + i, by omega⟩ = inst.crfs := by
    apply Fin.ext
    show (4 * inst.crfs.val + i.val) / 4 = inst.crfs.val
    omega
  have hplace : (4 * inst.crfs.val + i.val) % 4 = i.val := by omega
  show _ = (s.cr.getField (fieldOf ⟨4 * inst.crfs + i, by omega⟩)).getMsbD _
  rw [hfield]
  exact congrArg _ hplace.symm

theorem arch_mcrxr (s : PowerPCState) (inst : UGeckoInstruction) :
    arch (mcrxr s inst) = { (arch s).record inst.crfd ![s.so, s.ov, s.ca, false] with
      so := false, ov := false, ca := false } := by
  have hxer : ∀ i : Fin 4, ((s.getXer >>> 28).setWidth 4).getMsbD i =
      ![s.so, s.ov, s.ca, false] i := by
    have hca : s.xerCa = flag 8 s.ca := by
      have hbyte : ∀ x : BitVec 8, x.toNat < 2 → x = flag 8 (x.getLsbD 0) := by decide
      exact hbyte s.xerCa s.ca_lt
    have h₀ : ∀ ca : Bool, (flag 8 ca)[0] = ca := by decide
    have h₁ : ∀ ca : Bool, (flag 8 ca)[1] = false := by decide
    have h₂ : ∀ ca : Bool, (flag 8 ca)[2] = false := by decide
    intro i
    rw [getXer, hca]
    match i with
    | 0 | 1 | 2 | 3 => simp [BitVec.getMsbD, so, ov, xerCaShift, xerOvShift, h₀, h₁, h₂]
  have hcr := congrArg ArchState.cr (arch_setField s inst.crfd hxer)
  have hso : (mcrxr s inst).so = false := BitVec.getLsbD_zero
  have hov : (mcrxr s inst).ov = false := BitVec.getLsbD_zero
  have hca : (mcrxr s inst).ca = false := BitVec.getLsbD_zero
  exact ArchState.ext rfl hcr hso hov hca

theorem arch_setXer (s : PowerPCState) (newXer : BitVec 32) :
    arch (s.setXer newXer) = { arch s with
      so := newXer.getLsbD 31, ov := newXer.getLsbD 30, ca := newXer.getLsbD 29 } := by
  have hca : ∀ ca : Bool, (flag 8 ca).getLsbD 0 = ca := by decide
  have hso : ∀ so ov : Bool, (flag 8 so <<< 1 + flag 8 ov).getLsbD 1 = so := by decide
  have hov : ∀ so ov : Bool, (flag 8 so <<< 1 + flag 8 ov).getLsbD 0 = ov := by decide
  exact ArchState.ext rfl rfl (hso _ _) (hov _ _) (hca _)

theorem arch_setXerOv (s : PowerPCState) (value : Bool) :
    arch (s.setXerOv value) = { arch s with so := s.so || value, ov := value } := by
  have hso : ∀ (x : BitVec 8) (value : Bool),
      (((x &&& 0xFE) ||| flag 8 value) ||| flag 8 value <<< 1).getLsbD 1 =
        (x.getLsbD 1 || value) := by decide
  have hov : ∀ (x : BitVec 8) (value : Bool),
      (((x &&& 0xFE) ||| flag 8 value) ||| flag 8 value <<< 1).getLsbD 0 = value := by decide
  exact ArchState.ext rfl rfl (hso _ _) (hov _ _) rfl

theorem arch_setCarry (s : PowerPCState) (ca : Bool) :
    arch (s.setCarry ca) = { arch s with ca := ca } := by
  have hca : ∀ ca : Bool, (flag 8 ca).getLsbD 0 = ca := by decide
  exact ArchState.ext rfl rfl rfl rfl (hca _)

/-! ### Runs -/

theorem arch_exec (s : PowerPCState) (u : Update) : arch (u.exec s) = u.onArch (arch s) := by
  cases u with
  | updateCR0 value => exact arch_updateCR0 s value
  | compareSigned crfd a b =>
    refine (arch_intCompare s crfd a.toInt b.toInt).trans ?_
    have heq : decide (a.toInt = b.toInt) = (a == b) := by
      rw [Bool.eq_iff_iff, decide_eq_true_eq, beq_iff_eq, BitVec.toInt_inj]
    rw [heq]
    rfl
  | compareUnsigned crfd a b =>
    refine (arch_intCompare s crfd a.toNat b.toNat).trans ?_
    have heq : decide (a.toNat = b.toNat) = (a == b) := by
      rw [Bool.eq_iff_iff, decide_eq_true_eq, beq_iff_eq, BitVec.toNat_inj]
    rw [heq]
    rfl
  | setField crField value => exact arch_setField s crField fun _ => rfl
  | setBit bit value => exact arch_setBit s bit value
  | set newCr => exact arch_set s newCr
  | mtcrf inst => exact arch_mtcrf s inst
  | logical op inst => exact arch_logical s op inst
  | mcrf inst => exact arch_mcrf s inst
  | mcrxr inst => exact arch_mcrxr s inst
  | writeGpr reg value => rfl
  | setXer newXer => exact arch_setXer s newXer
  | setXerOv value => exact arch_setXerOv s value
  | setCarry ca => exact arch_setCarry s ca

theorem arch_run (s : PowerPCState) (updates : List Update) :
    arch (run s updates) = archRun (arch s) updates := by
  induction updates generalizing s with
  | nil => rfl
  | cons u updates ih =>
    show arch (run (u.exec s) updates) = archRun (u.onArch (arch s)) updates
    rw [ih, arch_exec]

/-- After every run from any patterns, the register reads as the manual's array of bits, and
    setting a bit changes that bit only. -/
theorem get_run (s : PowerPCState) (updates : List Update) :
    (run s updates).cr.get = (archRun (arch s) updates).word ∧
    ∀ (bit other : Fin 32) (value : BitVec 32),
      ((run s updates).cr.setBit bit value).getBit other =
        if other = bit then value &&& 1 else (run s updates).cr.getBit other := by
  constructor
  · rw [← arch_run]
    exact eq_word_of_getMsbD (getMsbD_get _)
  · intro bit other value
    rw [getBit_eq, getBit_eq, bitAt_setBit]
    split
    · exact (and_one_eq_flag value).symm
    · rfl

end Interpreter

end DolphinXR.PowerPC
