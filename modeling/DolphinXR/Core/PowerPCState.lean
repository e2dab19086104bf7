import Mathlib.Data.Vector.Basic
import Mathlib.Order.Fin.Basic
import Mathlib.Algebra.GroupWithZero.Nat

/- The condition register (Core/PowerPC/ConditionRegister.h). The eight fields of CR are kept as
   one 64 bit value each, so that the result of an operation is the value of its field as it
   stands: SO iff bit 59 is set, EQ iff the lower 32 bits are zero, GT iff the signed value is
   positive, LT iff bit 62 is set. A field in the processor's format is a `BitVec 4`, which the
   source keeps in a u32 that it has masked.

   With it stand the rest of the processor's state (Core/PowerPC/PowerPC.h) that the integer and
   condition register instructions of the interpreter use, and the bit fields of an instruction
   (Core/PowerPC/Gekko.h). XER is kept as the bytes `xer_ca` and `xer_so_ov`; that they hold one
   and two bits is a field of the state. -/
namespace DolphinXR.PowerPC

def crSo : BitVec 4 := 1
def crEq : BitVec 4 := 2
def crGt : BitVec 4 := 4
def crLt : BitVec 4 := 8

def crEqBit : Nat := 1
def crGtBit : Nat := 2

def crEmuSoBit : Nat := 59
def crEmuLtBit : Nat := 62

def flag (w : Nat) (b : Bool) : BitVec w := (BitVec.ofBool b).setWidth w

def ppcToInternal (value : BitVec 4) : BitVec 64 :=
  let crVal : BitVec 64 := 0x100000000#64
  let crVal := crVal ||| flag 64 (value &&& crSo != 0) <<< crEmuSoBit
  let crVal := crVal ||| flag 64 (value &&& crEq == 0)
  let crVal := crVal ||| flag 64 (value &&& crGt == 0) <<< 63
  crVal ||| flag 64 (value &&& crLt != 0) <<< crEmuLtBit

def crTable : Vector (BitVec 64) 16 := Vector.ofFn fun value => ppcToInternal (.ofFin value)

theorem neZero_gprs : NeZero 32 := ⟨by decide⟩

theorem neZero_crFields : NeZero 8 := ⟨by decide⟩

@[ext] structure ConditionRegister where
  fields : Fin 8 → BitVec 64

namespace ConditionRegister

def setField (cr : ConditionRegister) (crField : Fin 8) (value : BitVec 4) : ConditionRegister :=
  { fields := Function.update cr.fields crField (crTable.get value.toFin) }

/-- What `GetField` makes of the 64 bit value of a field. -/
def toPpc (crVal : BitVec 64) : BitVec 4 :=
  let ppcCr : BitVec 4 := ((crVal >>> crEmuSoBit).setWidth 4) &&& (crLt ||| crSo)
  let ppcCr := ppcCr ||| flag 4 (crVal &&& 0xFFFFFFFF#64 == 0) <<< crEqBit
  ppcCr ||| flag 4 (decide (0 < crVal.toInt)) <<< crGtBit

def getField (cr : ConditionRegister) (crField : Fin 8) : BitVec 4 := toPpc (cr.fields crField)

/-- `bit >> 2`. -/
def fieldOf (bit : Fin 32) : Fin 8 := ⟨bit / 4, by omega⟩

def getBit (cr : ConditionRegister) (bit : Fin 32) : BitVec 32 :=
  ((cr.getField (fieldOf bit)).setWidth 32 >>> (3 - bit.val % 4)) &&& 1

def setBit (cr : ConditionRegister) (bit : Fin 32) (value : BitVec 32) : ConditionRegister :=
  if value &&& 1 != 0 then
    cr.setField (fieldOf bit) (cr.getField (fieldOf bit) ||| (8#4 >>> (bit.val % 4)))
  else
    cr.setField (fieldOf bit) (cr.getField (fieldOf bit) &&& ~~~(8#4 >>> (bit.val % 4)))

def get (cr : ConditionRegister) : BitVec 32 :=
  (List.finRange 8).foldl
    (fun newCr i => newCr ||| (cr.getField i).setWidth 32 <<< (28 - i.val * 4)) 0

def set (cr : ConditionRegister) (newCr : BitVec 32) : ConditionRegister :=
  (List.finRange 8).foldl
    (fun cr i => cr.setField i (((newCr >>> (28 - i.val * 4)) &&& 0xF).setWidth 4)) cr

/-! ### What the patterns read as -/

/-- A field in the processor's format: LT, GT, EQ and SO, from the most significant bit on. -/
def flags (lt gt eq so : Bool) : BitVec 4 :=
  BitVec.ofBool lt ++ BitVec.ofBool gt ++ BitVec.ofBool eq ++ BitVec.ofBool so

theorem flag_getLsbD {w : Nat} (hw : 0 < w) (b : Bool) (i : Nat) :
    (flag w b).getLsbD i = (decide (i = 0) && b) := by
  by_cases hi : i = 0
  · simp [flag, hi, hw]
  · simp [flag, hi, BitVec.getLsbD_ofBool]

theorem flags_getLsbD (lt gt eq so : Bool) (i : Nat) :
    (flags lt gt eq so).getLsbD i =
      (decide (i = 0) && so || decide (i = 1) && eq || decide (i = 2) && gt ||
        decide (i = 3) && lt) := by
  revert lt gt eq so
  match i with
  | 0 | 1 | 2 | 3 => decide
  | i + 4 =>
    intro lt gt eq so
    rw [BitVec.getLsbD_of_ge _ _ (by omega)]
    simp

theorem low_half_eq_zero (crVal : BitVec 64) :
    (crVal &&& 0xFFFFFFFF#64 == 0) = (crVal.setWidth 32 == 0) := by
  have hand : (crVal &&& 0xFFFFFFFF#64).toNat = crVal.toNat % 2 ^ 32 := by
    rw [BitVec.toNat_and, ← Nat.and_two_pow_sub_one_eq_mod]
    rfl
  have hlow : (crVal.setWidth 32).toNat = crVal.toNat % 2 ^ 32 := BitVec.toNat_setWidth ..
  rw [Bool.eq_iff_iff, beq_iff_eq, beq_iff_eq, ← BitVec.toNat_inj, ← BitVec.toNat_inj, hand, hlow]
  rfl

theorem toPpc_eq (crVal : BitVec 64) :
    toPpc crVal = flags (crVal.getLsbD 62) (decide (0 < crVal.toInt)) (crVal.setWidth 32 == 0)
      (crVal.getLsbD 59) := by
  apply BitVec.eq_of_getLsbD_eq
  intro i hi
  rw [flags_getLsbD, ← low_half_eq_zero, toPpc]
  generalize (crVal &&& 0xFFFFFFFF#64 == 0) = eq
  generalize decide (0 < crVal.toInt) = gt
  simp only [ crEmuSoBit, crEqBit, crGtBit, BitVec.getLsbD_or, BitVec.getLsbD_and,
    BitVec.getLsbD_setWidth, BitVec.getLsbD_ushiftRight, BitVec.getLsbD_shiftLeft,
    flag_getLsbD (by decide : 0 < 4)]
  match i, hi with
  | 0, _ | 1, _ | 2, _ | 3, _ => simp [crLt, crSo]

theorem toPpc_crTable (value : BitVec 4) : toPpc (crTable.get value.toFin) = value := by
  revert value
  decide

theorem getField_setField (cr : ConditionRegister) (f g : Fin 8) (value : BitVec 4) :
    (cr.setField f value).getField g = if g = f then value else cr.getField g := by
  by_cases h : g = f
  · subst h
    simp [getField, setField, toPpc_crTable]
  · simp [getField, setField, h]

/-! ### The register as 32 bits

Bit 0 is the most significant one, as in the processor's manual. -/

def bitAt (cr : ConditionRegister) (bit : Fin 32) : Bool :=
  (cr.getField (fieldOf bit)).getMsbD (bit % 4)

theorem getBit_eq (cr : ConditionRegister) (bit : Fin 32) :
    cr.getBit bit = flag 32 (cr.bitAt bit) := by
  have hread : ∀ (x : BitVec 4) (k : Fin 4),
      (x.setWidth 32 >>> (3 - k.val)) &&& 1 = flag 32 (x.getMsbD k) := by decide
  exact hread _ ⟨bit % 4, by omega⟩

theorem bitAt_setField (cr : ConditionRegister) (f : Fin 8) (value : BitVec 4) (bit : Fin 32) :
    (cr.setField f value).bitAt bit =
      if fieldOf bit = f then value.getMsbD (bit % 4) else cr.bitAt bit := by
  rw [bitAt, getField_setField]
  split
  · rfl
  · rfl

theorem getMsbD_or_bit (x : BitVec 4) (j k : Fin 4) :
    (x ||| 8#4 >>> k.val).getMsbD j = if j = k then true else x.getMsbD j := by
  revert x j k
  decide

theorem getMsbD_and_not_bit (x : BitVec 4) (j k : Fin 4) :
    (x &&& ~~~(8#4 >>> k.val)).getMsbD j = if j = k then false else x.getMsbD j := by
  revert x j k
  decide

theorem eq_of_fieldOf {bit other : Fin 32} (hfield : fieldOf other = fieldOf bit)
    (hplace : other.val % 4 = bit.val % 4) : other = bit := by
  have hfield : other.val / 4 = bit.val / 4 := congrArg Fin.val hfield
  omega

theorem and_one_eq_flag (value : BitVec 32) : value &&& 1 = flag 32 (value.getLsbD 0) := by
  apply BitVec.eq_of_getLsbD_eq
  intro i hi
  rw [flag_getLsbD (by decide), BitVec.getLsbD_and]
  by_cases h : i = 0 <;> simp [h]

theorem bitAt_setBit (cr : ConditionRegister) (bit other : Fin 32) (value : BitVec 32) :
    (cr.setBit bit value).bitAt other =
      if other = bit then value.getLsbD 0 else cr.bitAt other := by
  have hlow : (value &&& 1 != 0) = value.getLsbD 0 := by
    rw [and_one_eq_flag]
    cases value.getLsbD 0 <;> decide
  have hset : ∀ w : BitVec 4,
      (∀ j : Fin 4, w.getMsbD j = if j = ⟨bit % 4, by omega⟩ then value.getLsbD 0
        else (cr.getField (fieldOf bit)).getMsbD j) →
      (cr.setField (fieldOf bit) w).bitAt other =
        if other = bit then value.getLsbD 0 else cr.bitAt other := by
    intro w hw
    rw [bitAt_setField]
    by_cases hother : other = bit
    · subst hother
      simpa using hw ⟨other % 4, by omega⟩
    · rw [if_neg hother]
      by_cases hfield : fieldOf other = fieldOf bit
      · have hplace : other.val % 4 ≠ bit.val % 4 := fun h => hother (eq_of_fieldOf hfield h)
        have := hw ⟨other % 4, by omega⟩
        rw [if_neg (by simpa using hplace)] at this
        rw [if_pos hfield, this, bitAt, hfield]
      · rw [if_neg hfield]
  rw [setBit, hlow]
  cases hvalue : value.getLsbD 0 with
  | true =>
    rw [if_pos rfl]
    refine (hset _ fun j => ?_).trans (by rw [hvalue])
    rw [hvalue]
    exact getMsbD_or_bit _ j ⟨bit % 4, by omega⟩
  | false =>
    rw [if_neg (by decide)]
    refine (hset _ fun j => ?_).trans (by rw [hvalue])
    rw [hvalue]
    exact getMsbD_and_not_bit _ j ⟨bit % 4, by omega⟩

/-! ### The register as a word -/

theorem getLsbD_foldl_or {ι : Type*} {w : Nat} (f : ι → BitVec w) (l : List ι) (x : BitVec w)
    (k : Nat) :
    (l.foldl (fun x i => x ||| f i) x).getLsbD k =
      (x.getLsbD k || l.any fun i => (f i).getLsbD k) := by
  induction l generalizing x with
  | nil => simp
  | cons i l ih => simp [ih, Bool.or_assoc]

theorem getMsbD_get (cr : ConditionRegister) (bit : Fin 32) :
    cr.get.getMsbD bit = cr.bitAt bit := by
  obtain ⟨bit, hbit⟩ := bit
  have hplace : ∀ f : Fin 8,
      ((cr.getField f).setWidth 32 <<< (28 - f.val * 4)).getLsbD (31 - bit) =
        (decide (fieldOf ⟨bit, hbit⟩ = f) && cr.bitAt ⟨bit, hbit⟩) := by
    intro f
    rw [BitVec.getLsbD_shiftLeft, BitVec.getLsbD_setWidth]
    by_cases hf : fieldOf ⟨bit, hbit⟩ = f
    · have hval : bit / 4 = f.val := congrArg Fin.val hf
      rw [bitAt, hf, BitVec.getMsbD]
      have e : 31 - bit - (28 - f.val * 4) = 3 - bit % 4 := by omega
      have h₁ : 31 - bit < 32 := by omega
      have h₂ : ¬ 31 - bit < 28 - f.val * 4 := by omega
      have h₃ : 3 - bit % 4 < 32 := by omega
      have h₄ : bit % 4 < 4 := by omega
      simp [e, h₁, h₂, h₃, h₄]
    · have hval : bit / 4 ≠ f.val := fun h => hf (Fin.ext h)
      rw [decide_eq_false hf, Bool.false_and]
      by_cases hlow : 31 - bit < 28 - f.val * 4
      · simp [hlow]
      · have : 4 ≤ 31 - bit - (28 - f.val * 4) := by omega
        simp [BitVec.getLsbD_of_ge _ _ this]
  rw [BitVec.getMsbD, decide_eq_true hbit, Bool.true_and, get, getLsbD_foldl_or]
  rw [show 32 - 1 - bit = 31 - bit from rfl]
  simp only [hplace]
  cases cr.bitAt ⟨bit, hbit⟩ with
  | false => simp
  | true => simp

theorem getField_foldl_setField (v : Fin 8 → BitVec 4) (l : List (Fin 8)) (cr : ConditionRegister)
    (f : Fin 8) :
    (l.foldl (fun cr i => cr.setField i (v i)) cr).getField f =
      if f ∈ l then v f else cr.getField f := by
  induction l generalizing cr with
  | nil => simp
  | cons i l ih =>
    rw [List.foldl_cons, ih, getField_setField]
    by_cases hl : f ∈ l
    · simp [hl]
    · by_cases hi : f = i
      · simp [hi]
      · simp [hl, hi]

theorem bitAt_set (cr : ConditionRegister) (newCr : BitVec 32) (bit : Fin 32) :
    (cr.set newCr).bitAt bit = newCr.getMsbD bit := by
  obtain ⟨bit, hbit⟩ := bit
  rw [bitAt, set, getField_foldl_setField, if_pos (List.mem_finRange _)]
  have hmask : ∀ k (hk : k < 4), (0xF#4)[k] = true := by decide
  have h₁ : bit % 4 < 4 := by omega
  have h₂ : 3 - bit % 4 < 4 := by omega
  have e : 28 - bit / 4 * 4 + (3 - bit % 4) = 31 - bit := by omega
  simp [BitVec.getMsbD, fieldOf, hmask _ h₂, h₁, h₂, e, hbit]

end ConditionRegister

/-! ### The state -/

/-- The 32 bits of an instruction. -/
abbrev UGeckoInstruction := BitVec 32

namespace UGeckoInstruction
variable (inst : UGeckoInstruction)

def rc : Bool := inst.getLsbD 0
def oe : Bool := inst.getLsbD 10
def rb : Fin 32 := (inst.extractLsb' 11 5).toFin
def ra : Fin 32 := (inst.extractLsb' 16 5).toFin
def rd : Fin 32 := (inst.extractLsb' 21 5).toFin
def rs : Fin 32 := (inst.extractLsb' 21 5).toFin
def simm16 : BitVec 16 := inst.extractLsb' 0 16
def crbb : Fin 32 := (inst.extractLsb' 11 5).toFin
def crba : Fin 32 := (inst.extractLsb' 16 5).toFin
def crbd : Fin 32 := (inst.extractLsb' 21 5).toFin
def crfs : Fin 8 := (inst.extractLsb' 18 3).toFin
def crfd : Fin 8 := (inst.extractLsb' 23 3).toFin
def crm : BitVec 8 := inst.extractLsb' 12 8

end UGeckoInstruction

@[ext] structure PowerPCState where
  gpr : Fin 32 → BitVec 32
  cr : ConditionRegister
  xerCa : BitVec 8
  /-- `(SO << 1) | OV`. -/
  xerSoOv : BitVec 8
  xerStringctrl : BitVec 16
  ca_lt : xerCa.toNat < 2
  soOv_lt : xerSoOv.toNat < 4

namespace PowerPCState
variable (s : PowerPCState)

def setCarry (ca : Bool) : PowerPCState :=
  { s with xerCa := flag 8 ca, ca_lt := by cases ca <;> decide }

def getCarry : BitVec 32 := s.xerCa.setWidth 32

def getXerSo : BitVec 32 := (s.xerSoOv >>> 1).setWidth 32

def getXerOv : BitVec 32 := (s.xerSoOv &&& 1).setWidth 32

theorem toNat_or_lt_four {x y : BitVec 8} (hx : x.toNat < 4) (hy : y.toNat < 4) :
    (x ||| y).toNat < 4 := by
  rw [BitVec.toNat_or]
  exact Nat.or_lt_two_pow (n := 2) hx hy

theorem toNat_and_lt_four {x : BitVec 8} (hx : x.toNat < 4) (mask : BitVec 8) :
    (x &&& mask).toNat < 4 := by
  rw [BitVec.toNat_and]
  exact Nat.lt_of_le_of_lt Nat.and_le_left hx

/-- The summary overflow bit is only ever set here. -/
def setXerSo (value : Bool) : PowerPCState :=
  { s with
    xerSoOv := s.xerSoOv ||| flag 8 value <<< 1
    soOv_lt := toNat_or_lt_four s.soOv_lt (by cases value <;> decide) }

def setXerOv (value : Bool) : PowerPCState :=
  setXerSo
    { s with
      xerSoOv := (s.xerSoOv &&& 0xFE) ||| flag 8 value
      soOv_lt := toNat_or_lt_four (toNat_and_lt_four s.soOv_lt _) (by cases value <;> decide) }
    value

def xerCaShift : Nat := 29
def xerOvShift : Nat := 30

def getXer : BitVec 32 :=
  s.xerStringctrl.setWidth 32 ||| s.xerCa.setWidth 32 <<< xerCaShift |||
    s.xerSoOv.setWidth 32 <<< xerOvShift

/-- `SetXER`: BYTE_COUNT and BYTE_CMP, CA, and SO above OV. -/
def setXer (newXer : BitVec 32) : PowerPCState :=
  { s with
    xerStringctrl := (newXer.extractLsb' 0 7).setWidth 16 + (newXer.extractLsb' 8 8).setWidth 16 <<< 8
    xerCa := flag 8 (newXer.getLsbD 29)
    xerSoOv := flag 8 (newXer.getLsbD 31) <<< 1 + flag 8 (newXer.getLsbD 30)
    ca_lt := by cases newXer.getLsbD 29 <;> decide
    soOv_lt := by cases newXer.getLsbD 31 <;> cases newXer.getLsbD 30 <;> decide }

def ca : Bool := s.xerCa.getLsbD 0
def ov : Bool := s.xerSoOv.getLsbD 0
def so : Bool := s.xerSoOv.getLsbD 1

end PowerPCState

end DolphinXR.PowerPC
