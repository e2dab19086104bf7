import DolphinXR.Core.DSPNumbers

/- What the flags of the DSP's arithmetic say. Every instruction is given its result as a whole
   number, from the numbers its operands stand for; its flags are then compared with that result
   wrapped to 40 bits. -/
namespace DolphinXR.DSP
open Lib.NarrowSigned

inductive Meaning where
  | sum (a b : Int)
  | difference (a b : Int)
  | value (x : Int)
  /-- A value of which the instruction computed the middle part. -/
  | middle (x : Int)

namespace Meaning

/-- The result, in as many bits as it takes. -/
def exact : Meaning → Int
  | sum a b => a + b
  | difference a b => a - b
  | value x => x
  | middle x => x

/-- The result in 40 signed bits. -/
def wrapped (m : Meaning) : Int := wrap 39 m.exact

/-- The number whose sign, and whose being zero, the flags tell: the wrapped result, or its middle
    part, as a signed half word. -/
def shown : Meaning → Int
  | middle x => wrap 15 (wrap 39 x / 2 ^ 16)
  | m => m.wrapped

/-- The carry out of bit 40, and after a subtraction that there is no borrow. -/
def Carry : Meaning → Prop
  | sum a b => 2 ^ 40 ≤ a % 2 ^ 40 + b % 2 ^ 40
  | difference a b => b % 2 ^ 40 ≤ a % 2 ^ 40
  | _ => False

def Overflow : Meaning → Prop
  | sum a b => ¬Fits 39 (a + b)
  | difference a b => ¬Fits 39 (a - b)
  | _ => False

end Meaning

structure Shows (m : Meaning) (r : Checked) : Prop where
  zero : r.regs.isSRFlagSet srArithZero = true ↔ m.shown = 0
  sign : r.regs.isSRFlagSet srSign = true ↔ m.shown < 0
  overS32 : r.regs.isSRFlagSet srOverS32 = true ↔ ¬Fits 31 m.wrapped
  top2Bits : r.regs.isSRFlagSet srTop2Bits = true ↔
    m.wrapped / 2 ^ 30 % 4 = 0 ∨ m.wrapped / 2 ^ 30 % 4 = 3
  carry : r.regs.isSRFlagSet srCarry = true ↔ m.Carry
  overflow : r.regs.isSRFlagSet srOverflow = true ↔ m.Overflow
  asserted : r.asserted = true

/-- The accumulators as they should be: the destination, if there is one, holds the result. -/
def Holds (m : Meaning) (dest : Option (Fin 2)) (s : Registers) (r : Checked) : Prop :=
  ∀ reg, (r.regs.getLongAcc reg).toInt =
    if dest = some reg then m.wrapped else (s.getLongAcc reg).toInt

section Flags
variable {sr flag mask : BitVec 16} {set : Bool}

theorem setFlag_and_other (h : flag &&& mask = 0#16) :
    Registers.setFlag sr flag set &&& mask = sr &&& mask := by
  cases set
  · rfl
  · change (sr ||| flag) &&& mask = sr &&& mask
    rw [BitVec.and_or_distrib_right, h, BitVec.or_zero]

theorem setFlag_and_same : Registers.setFlag sr flag set &&& flag =
    if set then flag else sr &&& flag := by
  cases set
  · rfl
  · change (sr ||| flag) &&& flag = flag
    ext i hi
    rw [BitVec.getElem_and, BitVec.getElem_or]
    cases sr[i] <;> cases flag[i] <;> rfl

theorem cleared_and (h : ~~~srCmpMask &&& mask = 0#16) : sr &&& ~~~srCmpMask &&& mask = 0#16 := by
  rw [BitVec.and_assoc, h, BitVec.and_zero]

end Flags

/-- The sets of `updateSR16` and `updateSR64`, read back. -/
def setFlags (sr : BitVec 16) (carry overflow zero sign overS32 top2Bits : Bool) : BitVec 16 :=
  let sr := sr &&& ~~~srCmpMask
  let sr := Registers.setFlag sr srCarry carry
  let sr := Registers.setFlag (Registers.setFlag sr srOverflow overflow) srOverflowSticky overflow
  let sr := Registers.setFlag sr srArithZero zero
  let sr := Registers.setFlag sr srSign sign
  let sr := Registers.setFlag sr srOverS32 overS32
  Registers.setFlag sr srTop2Bits top2Bits

theorem setFlags_readback (sr : BitVec 16) (c o z n v t : Bool) :
    ((setFlags sr c o z n v t &&& srCarry != 0#16) = c ∧
      (setFlags sr c o z n v t &&& srOverflow != 0#16) = o) ∧
    ((setFlags sr c o z n v t &&& srArithZero != 0#16) = z ∧
      (setFlags sr c o z n v t &&& srSign != 0#16) = n) ∧
    (setFlags sr c o z n v t &&& srOverS32 != 0#16) = v ∧
      (setFlags sr c o z n v t &&& srTop2Bits != 0#16) = t := by
  unfold setFlags
  dsimp only
  simp (disch := decide) only [setFlag_and_other, setFlag_and_same, cleared_and]
  cases c <;> cases o <;> cases z <;> cases n <;> cases v <;> cases t <;> decide

/-! ### The families of instructions -/

section Families
variable {s : Registers} {m : Meaning} {reg : Fin 2}

theorem updateSR64_shows {v : BitVec 64} {c o : Bool} (hshown : m.shown = m.wrapped)
    (hv : v.toInt = m.wrapped) (hc : c = true ↔ m.Carry) (ho : o = true ↔ m.Overflow) :
    Shows m (s.updateSR64 v c o) := by
  obtain ⟨⟨hcarry, hoverflow⟩, ⟨hzero, hsign⟩, hover, htop⟩ := setFlags_readback s.sr c o
    (v == 0#64) (v.slt 0#64) (isOverS32 v)
    (v &&& 0xc0000000#64 == 0#64 || v &&& 0xc0000000#64 == 0xc0000000#64)
  rw [Bool.eq_iff_iff] at hcarry hoverflow hzero hsign hover htop
  exact {
    zero := hzero.trans (by rw [hshown, ← hv, eq_zero_iff])
    sign := hsign.trans (by rw [hshown, ← hv, slt_zero_iff])
    overS32 := hover.trans (by rw [← hv, isOverS32_iff])
    top2Bits := htop.trans (by rw [← hv, top2Bits_iff])
    carry := hcarry.trans hc
    overflow := hoverflow.trans ho
    asserted := (extended_iff v).2 (hv ▸ wrap_fits 39 _) }

theorem updateSR64Add_shows {u v r : BitVec 64} (hu : Fits 39 u.toInt)
    (hr : r.toInt = wrap 39 (u.toInt + v.toInt)) :
    Shows (.sum u.toInt v.toInt) (s.updateSR64Add u v r) ↔ Fits 39 v.toInt := by
  constructor
  · intro h
    have hall := h.asserted
    rw [Registers.updateSR64Add, Bool.and_eq_true, Bool.and_eq_true, Bool.and_eq_true] at hall
    exact (extended_iff v).1 hall.1.2
  · intro hv
    have hcarry : isCarryAdd u r = true ↔ Meaning.Carry (.sum u.toInt v.toInt) := by
      rw [isCarryAdd, BitVec.ult_eq_decide, decide_eq_true_eq]
      exact carry_iff (by decide) hu hr
    have hoverflow : isOverflow u v r = true ↔ Meaning.Overflow (.sum u.toInt v.toInt) := by
      rw [isOverflow, BitVec.slt_zero_eq_msb]
      exact overflow_iff hu hv.1 (Int.le_of_lt hv.2) hr
    have hshows := updateSR64_shows (s := s) rfl hr hcarry hoverflow
    have hlow : ((u + v) &&& 0xffffffffff#64 == r &&& 0xffffffffff#64) = true := by
      rw [lopped_beq_iff, hr, ← wrap_toInt_add]
      exact (wrap_emod 39 _).symm
    refine { hshows with asserted := ?_ }
    rw [Registers.updateSR64Add, hlow, (extended_iff u).2 hu, (extended_iff v).2 hv]
    exact hshows.asserted

theorem updateSR64Sub_shows {u v r : BitVec 64} (hu : Fits 39 u.toInt)
    (hr : r.toInt = wrap 39 (u.toInt - v.toInt)) :
    Shows (.difference u.toInt v.toInt) (s.updateSR64Sub u v r) ↔ Fits 39 v.toInt := by
  constructor
  · intro h
    have hall := h.asserted
    rw [Registers.updateSR64Sub, Bool.and_eq_true, Bool.and_eq_true, Bool.and_eq_true] at hall
    exact (extended_iff v).1 hall.1.2
  · intro hv
    have hcarry : isCarrySubtract u r = true ↔ Meaning.Carry (.difference u.toInt v.toInt) := by
      rw [isCarrySubtract, BitVec.ule_eq_decide, decide_eq_true_eq]
      exact noBorrow_iff (by decide) hu hr
    have hneg : (-v).toInt = -v.toInt := by
      obtain ⟨hlow, hhigh⟩ := hv
      rw [BitVec.toInt_neg]
      exact Int.bmod_eq_of_le_mul_two (by omega) (by omega)
    have hoverflow : isOverflow u (-v) r = true ↔
        Meaning.Overflow (.difference u.toInt v.toInt) := by
      obtain ⟨hlow, hhigh⟩ := hv
      rw [Int.sub_eq_add_neg, ← hneg] at hr
      rw [isOverflow, BitVec.slt_zero_eq_msb,
        overflow_iff hu (by rw [hneg]; omega) (by rw [hneg]; omega) hr, hneg]
      rfl
    have hshows := updateSR64_shows (s := s) rfl hr hcarry hoverflow
    have hlow : ((u - v) &&& 0xffffffffff#64 == r &&& 0xffffffffff#64) = true := by
      rw [lopped_beq_iff, hr, ← wrap_toInt_sub]
      exact (wrap_emod 39 _).symm
    refine { hshows with asserted := ?_ }
    rw [Registers.updateSR64Sub, hlow, (extended_iff u).2 hu, (extended_iff v).2 hv]
    exact hshows.asserted

def Describes (m : Meaning) (dest : Option (Fin 2)) (s : Registers) (r : Checked) : Prop :=
  Holds m dest s r ∧ Shows m r

theorem holds_none {r : Checked} (h : r.regs.ac = s.ac) : Holds m none s r := by
  intro reg
  rw [if_neg (by simp), Registers.getLongAcc, h]
  rfl

theorem setLongAcc_ac (v : BitVec 64) :
    (s.setLongAcc reg v).ac = Function.update s.ac reg (.ofValue v) := rfl

theorem setAccMid_ac (h : BitVec 16) :
    (s.setAccMid reg h).ac = Function.update s.ac reg ((s.ac reg).setMid h) := rfl

theorem holds_setLongAcc {v : BitVec 64} {r : Checked} (h : r.regs.ac = (s.setLongAcc reg v).ac)
    (hv : wrap 39 v.toInt = m.wrapped) : Holds m (some reg) s r := by
  intro reg'
  rw [Registers.getLongAcc, h, setLongAcc_ac]
  by_cases hreg : reg' = reg
  · rw [hreg, Function.update_self, if_pos rfl, ← hv]
    exact toInt_convertLongAcc v
  · rw [Function.update_of_ne hreg, if_neg (by simpa using Ne.symm hreg)]
    rfl

theorem toInt_readBack (v : BitVec 64) :
    ((s.setLongAcc reg v).getLongAcc reg).toInt = wrap 39 v.toInt := by
  rw [Registers.getLongAcc, setLongAcc_ac, Function.update_self]
  exact toInt_convertLongAcc v

section
variable {u v : BitVec 64} {a b x : Int}

theorem updateSR64_describes (hx : v.toInt = x) :
    Describes (.value x) none s (s.updateSR64 v false false) ↔ Fits 39 x := by
  constructor
  · intro h
    rw [← hx]
    exact (extended_iff v).1 h.2.asserted
  · intro h
    refine ⟨holds_none rfl, updateSR64_shows rfl ?_ (by simp [Meaning.Carry])
      (by simp [Meaning.Overflow])⟩
    rw [hx]
    exact (wrap_of_fits h).symm

theorem moveAcc_describes (hx : v.toInt = x) :
    Describes (.value x) (some reg) s (s.moveAcc reg v) ↔ Fits 39 x := by
  constructor
  · intro h
    rw [← hx]
    exact (extended_iff v).1 h.2.asserted
  · intro h
    have hwrap : wrap 39 x = x := wrap_of_fits h
    refine ⟨holds_setLongAcc rfl (by rw [hx]; rfl), updateSR64_shows rfl ?_
      (by simp [Meaning.Carry]) (by simp [Meaning.Overflow])⟩
    rw [hx]
    exact hwrap.symm

theorem writeAcc_describes (hx : wrap 39 v.toInt = wrap 39 x) :
    Describes (.value x) (some reg) s (s.writeAcc reg v) :=
  ⟨holds_setLongAcc rfl hx, updateSR64_shows rfl ((toInt_readBack v).trans hx)
    (by simp [Meaning.Carry]) (by simp [Meaning.Overflow])⟩

theorem addAcc_describes (ha : u.toInt = a) (hb : v.toInt = b) (hfits : Fits 39 a) :
    Describes (.sum a b) (some reg) s (s.addAcc reg u v) ↔ Fits 39 b := by
  subst ha hb
  have hr : ((s.setLongAcc reg (u + v)).getLongAcc reg).toInt = wrap 39 (u.toInt + v.toInt) := by
    rw [toInt_readBack, wrap_toInt_add]
  have hholds : Holds (.sum u.toInt v.toInt) (some reg) s (s.addAcc reg u v) :=
    holds_setLongAcc rfl (wrap_toInt_add u v)
  exact (and_iff_right hholds).trans (updateSR64Add_shows hfits hr)

theorem subAcc_describes (ha : u.toInt = a) (hb : v.toInt = b) (hfits : Fits 39 a) :
    Describes (.difference a b) (some reg) s (s.subAcc reg u v) ↔ Fits 39 b := by
  subst ha hb
  have hr : ((s.setLongAcc reg (u - v)).getLongAcc reg).toInt = wrap 39 (u.toInt - v.toInt) := by
    rw [toInt_readBack, wrap_toInt_sub]
  have hholds : Holds (.difference u.toInt v.toInt) (some reg) s (s.subAcc reg u v) :=
    holds_setLongAcc rfl (wrap_toInt_sub u v)
  exact (and_iff_right hholds).trans (updateSR64Sub_shows hfits hr)

theorem cmpAcc_describes (ha : u.toInt = a) (hb : v.toInt = b) (hfits : Fits 39 a) :
    Describes (.difference a b) none s (s.cmpAcc u v) ↔ Fits 39 b := by
  subst ha hb
  have hr : (convertLongAcc (u - v)).toInt = wrap 39 (u.toInt - v.toInt) := by
    rw [toInt_convertLongAcc, wrap_toInt_sub]
  exact (and_iff_right (holds_none rfl)).trans (updateSR64Sub_shows hfits hr)

theorem updateSR16_shows {h : BitVec 16} {beyond : Bool} (hzero : m.shown = 0 ↔ h.toInt = 0)
    (hsign : m.shown < 0 ↔ h.toInt < 0)
    (htop : m.wrapped / 2 ^ 30 % 4 = h.toNat / 2 ^ 14)
    (hover : beyond = true ↔ ¬Fits 31 m.wrapped) (hcarry : ¬m.Carry) (hoverflow : ¬m.Overflow) :
    Shows m ⟨s.updateSR16 h false false beyond, true⟩ := by
  obtain ⟨⟨hc, ho⟩, ⟨hz, hn⟩, hv, ht⟩ := setFlags_readback s.sr false false (h == 0#16)
    (h.slt 0#16) beyond (h >>> 14 == 0#16 || h >>> 14 == 3#16)
  rw [Bool.eq_iff_iff] at hc ho hz hn hv ht
  have hbits : (h >>> 14 == 0#16 || h >>> 14 == 3#16) = true ↔
      h.toNat / 2 ^ 14 = 0 ∨ h.toNat / 2 ^ 14 = 3 := by
    rw [Bool.or_eq_true, beq_iff_eq, beq_iff_eq, ← BitVec.toNat_inj, ← BitVec.toNat_inj,
      BitVec.toNat_ushiftRight, Nat.shiftRight_eq_div_pow]
    rfl
  exact {
    zero := hz.trans (by rw [beq_iff_eq, hzero, ← BitVec.toInt_inj, BitVec.toInt_zero])
    sign := hn.trans (by rw [hsign, BitVec.slt_eq_decide, decide_eq_true_eq, BitVec.toInt_zero])
    overS32 := hv.trans hover
    top2Bits := ht.trans (by rw [hbits, htop]; norm_cast)
    carry := hc.trans (by simp [hcarry])
    overflow := ho.trans (by simp [hoverflow])
    asserted := rfl }

theorem midReplaced_fits (ha : Fits 39 x) (h : BitVec 16) : Fits 39 (midReplaced x h) := by
  have hlt := h.isLt
  unfold Fits midReplaced at *
  omega

theorem logicAcc_describes (hx : (s.getLongAcc reg).toInt = x) (h : BitVec 16) :
    Describes (.middle (midReplaced x h)) (some reg) s (s.logicAcc reg h) := by
  subst hx
  have hfits := midReplaced_fits (s.ac reg).fits h
  have hwrap : Meaning.wrapped (.middle (midReplaced (s.getLongAcc reg).toInt h)) =
      midReplaced (s.getLongAcc reg).toInt h := wrap_of_fits hfits
  have hshown : Meaning.shown (.middle (midReplaced (s.getLongAcc reg).toInt h)) = h.toInt := by
    have hmod : midReplaced (s.getLongAcc reg).toInt h / 2 ^ 16 % 2 ^ (15 + 1) =
        (h.toNat : Int) % 2 ^ (15 + 1) := by
      unfold midReplaced
      omega
    have hself : wrap 39 (midReplaced (s.getLongAcc reg).toInt h) =
        midReplaced (s.getLongAcc reg).toInt h := hwrap
    rw [Meaning.shown, hself, wrap_congr hmod, BitVec.toInt_eq_toNat_bmod]
    rfl
  have hset : ((s.setAccMid reg h).getLongAcc reg).toInt =
      midReplaced (s.getLongAcc reg).toInt h := by
    rw [Registers.getLongAcc, setAccMid_ac, Function.update_self]
    exact toInt_setMid _ h
  have hlt := h.isLt
  refine ⟨?_, updateSR16_shows (by rw [hshown]) (by rw [hshown]) ?_ ?_ (by simp [Meaning.Carry])
    (by simp [Meaning.Overflow])⟩
  · intro reg'
    by_cases hreg : reg' = reg
    · rw [hreg, if_pos rfl, hwrap]
      exact hset
    · rw [if_neg (by simpa using Ne.symm hreg)]
      change ((s.setAccMid reg h).ac reg').val.toInt = _
      rw [setAccMid_ac, Function.update_of_ne hreg]
      rfl
  · rw [hwrap]
    unfold midReplaced
    omega
  · rw [isOverS32_iff, hset, hwrap]

end

end Families

end DolphinXR.DSP
