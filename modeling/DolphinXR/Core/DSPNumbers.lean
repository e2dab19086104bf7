import DolphinXR.Core.DSPArithmetic

/- The whole numbers that the words of the DSP's arithmetic stand for: the accumulators, the
   product, the operands at the middle part, roundings and shifts; and what the tests on words say
   of them. -/
namespace DolphinXR.DSP
open Lib.NarrowSigned

theorem slt_zero_iff (v : BitVec 64) : v.slt 0#64 = true ↔ v.toInt < 0 := by
  rw [BitVec.slt_eq_decide, decide_eq_true_eq, BitVec.toInt_zero]

theorem eq_zero_iff (v : BitVec 64) : (v == 0#64) = true ↔ v.toInt = 0 := by
  rw [beq_iff_eq, ← BitVec.toInt_inj, BitVec.toInt_zero]

theorem isOverS32_iff (v : BitVec 64) : isOverS32 v = true ↔ ¬Fits 31 v.toInt := by
  have hwrap : ((v.setWidth 32).signExtend 64).toInt = wrap 31 v.toInt := by
    rw [BitVec.toInt_signExtend_of_le (by decide), BitVec.toInt_setWidth,
      wrap_congr (emod_toInt (k := 31) (d := 32) v)]
    rfl
  rw [isOverS32, bne_iff_ne, ne_eq, ← BitVec.toInt_inj, hwrap, eq_comm, wrap_eq_self_iff]

theorem toInt_emod_32 (v : BitVec 64) : v.toInt % 2 ^ 32 = v.toNat % 2 ^ 32 :=
  emod_toInt (k := 31) (d := 32) v

theorem toInt_emod_40 (v : BitVec 64) : v.toInt % 2 ^ 40 = v.toNat % 2 ^ 40 :=
  emod_toInt (k := 39) (d := 24) v

theorem top2Bits_iff (v : BitVec 64) :
    (v &&& 0xc0000000#64 == 0#64 || v &&& 0xc0000000#64 == 0xc0000000#64) = true ↔
      v.toInt / 2 ^ 30 % 4 = 0 ∨ v.toInt / 2 ^ 30 % 4 = 3 := by
  have htop : (v &&& 0xc0000000#64).toNat = v.toNat / 2 ^ 30 * 2 ^ 30 % 2 ^ 32 := by
    have hmask : 0xc0000000#64 = BitVec.allOnes 64 <<< 30 &&& 0xffffffff#64 := by decide
    rw [hmask, ← BitVec.and_assoc, BitVec.toNat_and, toNat_and_high]
    exact Nat.and_two_pow_sub_one_eq_mod _ 32
  have hmod := toInt_emod_32 v
  rw [Bool.or_eq_true, beq_iff_eq, beq_iff_eq, ← BitVec.toNat_inj, ← BitVec.toNat_inj, htop]
  simp only [BitVec.toNat_ofNat]
  omega

theorem toNat_lopped (v : BitVec 64) : (Registers.lopped v).toNat = v.toNat % 2 ^ 40 := by
  rw [Registers.lopped, BitVec.toNat_and]
  exact Nat.and_two_pow_sub_one_eq_mod _ 40

theorem toInt_lopped (v : BitVec 64) : (Registers.lopped v).toInt = v.toInt % 2 ^ 40 := by
  have hnat := toNat_lopped v
  have hmod := toInt_emod_40 v
  rw [BitVec.toInt_eq_toNat_of_lt (by omega)]
  omega

theorem lopped_beq_iff (u v : BitVec 64) :
    (u &&& 0xffffffffff#64 == v &&& 0xffffffffff#64) = true ↔
      u.toInt % 2 ^ 40 = v.toInt % 2 ^ 40 := by
  rw [beq_iff_eq, ← BitVec.toInt_inj]
  change (Registers.lopped u).toInt = (Registers.lopped v).toInt ↔ _
  rw [toInt_lopped, toInt_lopped]

theorem LongAcc.fits (a : LongAcc) : Fits 39 a.val.toInt := (extended_iff a.val).1 a.extended

theorem toInt_convertLongAcc (v : BitVec 64) : (convertLongAcc v).toInt = wrap 39 v.toInt :=
  toInt_shiftLeft_sshiftRight (k := 39) (d := 24) v

theorem wrap_toInt_add (u v : BitVec 64) : wrap 39 (u + v).toInt = wrap 39 (u.toInt + v.toInt) := by
  rw [BitVec.toInt_add]
  exact wrap_bmod (by decide) _

theorem wrap_toInt_sub (u v : BitVec 64) : wrap 39 (u - v).toInt = wrap 39 (u.toInt - v.toInt) := by
  rw [BitVec.toInt_sub]
  exact wrap_bmod (by decide) _

/-! ### The numbers that the operands stand for -/

/-- The number in the four parts of the product register: one of 40 bits, or more when the middle
    parts carry into a full high part. -/
def Product.value (p : Product) : Int :=
  (p.h.setWidth 8).toInt * 2 ^ 32 + (p.m.toNat + p.m2.toNat) * 2 ^ 16 + p.l.toNat

/-- To the nearest multiple of `2 ^ 16`; from half way to an even one. -/
def roundHalfEven (x : Int) : Int :=
  if 2 ^ 15 < x % 2 ^ 16 ∨ x % 2 ^ 16 = 2 ^ 15 ∧ x / 2 ^ 16 % 2 = 1 then (x / 2 ^ 16 + 1) * 2 ^ 16
  else x / 2 ^ 16 * 2 ^ 16

def shifted (x n : Int) : Int := if 0 ≤ n then x * 2 ^ n.toNat else x / 2 ^ (-n).toNat

/-- The number with another half word at bits 16 to 31. -/
def midReplaced (x : Int) (m : BitVec 16) : Int :=
  x / 2 ^ 32 * 2 ^ 32 + m.toNat * 2 ^ 16 + x % 2 ^ 16

theorem toInt_signExtend_shiftLeft {n : Nat} (x : BitVec n) (k : Nat) (hn : n ≤ 64)
    (h : n + k ≤ 64) : (x.signExtend 64 <<< k).toInt = x.toInt * 2 ^ k := by
  rw [toInt_shiftLeft_bmod, BitVec.toInt_signExtend_of_le hn]
  have hlow := BitVec.le_two_mul_toInt (x := x)
  have hhigh := BitVec.two_mul_toInt_lt (x := x)
  have hk : (0 : Int) < 2 ^ k := by positivity
  have hpow : (2 : Int) ^ n * 2 ^ k ≤ 2 ^ 64 := by
    rw [← Int.pow_add]
    exact_mod_cast Nat.pow_le_pow_right (by decide : 0 < 2) h
  have hlow' := Int.mul_le_mul_of_nonneg_right hlow (Int.le_of_lt hk)
  have hhigh' := Int.mul_lt_mul_of_pos_right hhigh hk
  rw [Int.neg_mul, Int.mul_assoc] at hlow'
  rw [Int.mul_assoc] at hhigh'
  exact Int.bmod_eq_of_le_mul_two (by norm_num at hpow ⊢; omega) (by norm_num at hpow ⊢; omega)

theorem toInt_atMid (x : BitVec 16) : (Registers.atMid x).toInt = x.toInt * 2 ^ 16 :=
  toInt_signExtend_shiftLeft x 16 (by decide) (by decide)

theorem toInt_shortImm (opc : BitVec 16) :
    (Registers.shortImm opc).toInt = (opc.setWidth 8).toInt * 2 ^ 16 :=
  toInt_signExtend_shiftLeft _ 16 (by decide) (by decide)

theorem toNat_shiftLeft_or {w n : Nat} {hi lo : BitVec w} (hhi : hi.toNat * 2 ^ n < 2 ^ w)
    (hlo : lo.toNat < 2 ^ n) : (hi <<< n ||| lo).toNat = hi.toNat * 2 ^ n + lo.toNat := by
  rw [BitVec.toNat_or, BitVec.toNat_shiftLeft, Nat.shiftLeft_eq, Nat.mod_eq_of_lt hhi,
    ← Nat.shiftLeft_eq, ← Nat.shiftLeft_add_eq_or_of_lt hlo]

theorem toInt_getLongACX (s : Registers) (reg : Fin 2) :
    (s.getLongACX reg).toInt = (s.ax reg).h.toInt * 2 ^ 16 + (s.ax reg).l.toNat := by
  have hl := (s.ax reg).l.isLt
  have hh := (s.ax reg).h.isLt
  have hcond := BitVec.toInt_eq_toNat_cond (s.ax reg).h
  rw [Registers.getLongACX, BitVec.toInt_signExtend_of_le (by decide),
    BitVec.toInt_eq_toNat_cond, toNat_shiftLeft_or]
  all_goals
    rw [BitVec.toNat_setWidth_of_le (by decide)]
  · rw [BitVec.toNat_setWidth_of_le (by decide)]
    split at hcond <;> split <;> omega
  · omega
  · omega

theorem toInt_getLongProduct (s : Registers) : s.getLongProduct.toInt = s.prod.value := by
  have hl := s.prod.l.isLt
  have hm := s.prod.m.isLt
  have hm2 := s.prod.m2.isLt
  have hh : (s.prod.h.setWidth 8).toInt < 128 := BitVec.toInt_lt
  have hh' : -128 ≤ (s.prod.h.setWidth 8).toInt := BitVec.le_toInt _
  have hsum : (s.prod.m.setWidth 64 + s.prod.m2.setWidth 64).toNat =
      s.prod.m.toNat + s.prod.m2.toNat := by
    rw [BitVec.toNat_add, BitVec.toNat_setWidth_of_le (by decide),
      BitVec.toNat_setWidth_of_le (by decide)]
    omega
  have hlow : ((s.prod.m.setWidth 64 + s.prod.m2.setWidth 64) <<< 16 |||
      s.prod.l.setWidth 64).toNat = (s.prod.m.toNat + s.prod.m2.toNat) * 2 ^ 16 +
        s.prod.l.toNat := by
    rw [toNat_shiftLeft_or, hsum, BitVec.toNat_setWidth_of_le (by decide)]
    · omega
    · rw [BitVec.toNat_setWidth_of_le (by decide)]
      exact hl
  have hlow' := BitVec.toInt_eq_toNat_of_lt
    (x := (s.prod.m.setWidth 64 + s.prod.m2.setWidth 64) <<< 16 ||| s.prod.l.setWidth 64)
    (by rw [hlow]; omega)
  rw [hlow] at hlow'
  rw [Registers.getLongProduct, BitVec.toInt_add,
    toInt_signExtend_shiftLeft _ 32 (by decide) (by decide), hlow', Product.value]
  push_cast
  rw [Int.bmod_eq_of_le_mul_two (by omega) (by omega)]
  omega

theorem Product.value_bounds (p : Product) : -2 ^ 39 ≤ p.value ∧ p.value < 2 ^ 39 + 2 ^ 32 := by
  have hl := p.l.isLt
  have hm := p.m.isLt
  have hm2 := p.m2.isLt
  have hh : (p.h.setWidth 8).toInt < 128 := BitVec.toInt_lt
  have hh' : -128 ≤ (p.h.setWidth 8).toInt := BitVec.le_toInt _
  unfold Product.value
  omega

theorem toInt_and_not_ffff (v : BitVec 64) :
    (v &&& ~~~0xffff#64).toInt = v.toInt / 2 ^ 16 * 2 ^ 16 := by
  have hmask : ~~~0xffff#64 = BitVec.allOnes 64 <<< 16 := by decide
  have hhigh : (v &&& ~~~0xffff#64).toNat = v.toNat / 2 ^ 16 * 2 ^ 16 := by
    rw [hmask]
    exact toNat_and_high v 16
  have hcond := BitVec.toInt_eq_toNat_cond v
  rw [BitVec.toInt_eq_toNat_cond, hhigh]
  split at hcond <;> split <;> omega

theorem bit16_iff (v : BitVec 64) : v &&& 0x10000#64 ≠ 0#64 ↔ v.toInt / 2 ^ 16 % 2 = 1 := by
  have hbit : (v &&& 0x10000#64).toNat = v.toNat / 2 ^ 16 * 2 ^ 16 % 2 ^ 17 := by
    have hmask : 0x10000#64 = BitVec.allOnes 64 <<< 16 &&& 0x1ffff#64 := by decide
    rw [hmask, ← BitVec.and_assoc, BitVec.toNat_and, toNat_and_high]
    exact Nat.and_two_pow_sub_one_eq_mod _ 17
  have hcond := BitVec.toInt_eq_toNat_cond v
  rw [ne_eq, ← BitVec.toNat_inj, hbit]
  simp only [BitVec.toNat_ofNat]
  split at hcond <;> omega

theorem toInt_roundLongAcc {v : BitVec 64} (hlow : -2 ^ 62 ≤ v.toInt) (hhigh : v.toInt < 2 ^ 62) :
    (roundLongAcc v).toInt = roundHalfEven v.toInt := by
  have hadd (c : BitVec 64) (hc : c.toInt = 0x8000 ∨ c.toInt = 0x7fff) :
      (v + c).toInt = v.toInt + c.toInt := by
    rw [BitVec.toInt_add]
    exact Int.bmod_eq_of_le_mul_two (by omega) (by omega)
  have hodd := bit16_iff v
  rw [roundLongAcc]
  split <;> rename_i hbit <;> rw [toInt_and_not_ffff, hadd _ (by decide)]
  · rw [hodd] at hbit
    have h8000 : (0x8000#64).toInt = 0x8000 := by decide
    rw [h8000, roundHalfEven]
    split <;> omega
  · rw [hodd] at hbit
    have h7fff : (0x7fff#64).toInt = 0x7fff := by decide
    rw [h7fff, roundHalfEven]
    split <;> omega

theorem toInt_setMid (a : LongAcc) (m : BitVec 16) :
    (a.setMid m).val.toInt = midReplaced a.val.toInt m := by
  have hm := m.isLt
  have ha := a.val.isLt
  have hmask : ~~~0xffff0000#64 = BitVec.allOnes 64 <<< 32 ||| 0xffff#64 := by decide
  have hlow : (a.val &&& 0xffff#64).toNat = a.val.toNat % 2 ^ 16 := by
    rw [BitVec.toNat_and]
    exact Nat.and_two_pow_sub_one_eq_mod _ 16
  have hmid : (m.setWidth 64).toNat = m.toNat := BitVec.toNat_setWidth_of_le (by decide)
  have hinner : (m.setWidth 64 <<< 16 ||| a.val &&& 0xffff#64).toNat =
      m.toNat * 2 ^ 16 + a.val.toNat % 2 ^ 16 := by
    rw [toNat_shiftLeft_or, hlow, hmid]
    · omega
    · omega
  have hval : (a.setMid m).val = (a.val >>> 32) <<< 32 ||| (m.setWidth 64 <<< 16 |||
      a.val &&& 0xffff#64) := by
    rw [BitVec.shiftLeft_ushiftRight, LongAcc.setMid]
    dsimp only
    rw [hmask, BitVec.and_or_distrib_left, BitVec.or_assoc, BitVec.or_comm (_ &&& 0xffff#64)]
  have hnat : (a.setMid m).val.toNat =
      a.val.toNat / 2 ^ 32 * 2 ^ 32 + (m.toNat * 2 ^ 16 + a.val.toNat % 2 ^ 16) := by
    rw [hval, toNat_shiftLeft_or, hinner, BitVec.toNat_ushiftRight, Nat.shiftRight_eq_div_pow]
    · rw [BitVec.toNat_ushiftRight, Nat.shiftRight_eq_div_pow]
      omega
    · omega
  have hcond := BitVec.toInt_eq_toNat_cond a.val
  rw [BitVec.toInt_eq_toNat_cond, hnat, midReplaced]
  push_cast
  split at hcond <;> split <;> omega

/-! Shifts. -/

theorem wrap_shiftLeft (v : BitVec 64) (n : Nat) :
    wrap 39 (v <<< n).toInt = wrap 39 (v.toInt * 2 ^ n) := by
  rw [toInt_shiftLeft_bmod]
  exact wrap_bmod (by decide) _

theorem toInt_sshiftRight_eq (v : BitVec 64) (n : Nat) :
    (v.sshiftRight n).toInt = v.toInt / 2 ^ n := by
  rw [BitVec.toInt_sshiftRight, Int.shiftRight_eq_div_pow]
  push_cast
  rfl

theorem toInt_lopped_ushiftRight (v : BitVec 64) (n : Nat) :
    (Registers.lopped v >>> n).toInt = v.toInt % 2 ^ 40 / 2 ^ n := by
  have hnat := toNat_lopped v
  have hmod := toInt_emod_40 v
  have hle := Nat.div_le_self (Registers.lopped v).toNat (2 ^ n)
  have hshift : (Registers.lopped v >>> n).toNat = (Registers.lopped v).toNat / 2 ^ n := by
    rw [BitVec.toNat_ushiftRight, Nat.shiftRight_eq_div_pow]
  rw [BitVec.toInt_eq_toNat_of_lt (by omega), hshift, hnat, hmod]
  push_cast
  rfl

theorem wrap_logicalShift (v : BitVec 64) (n : Int) :
    wrap 39 (Registers.logicalShift (Registers.lopped v) n).toInt =
      wrap 39 (shifted (v.toInt % 2 ^ 40) n) := by
  rw [Registers.logicalShift, shifted]
  split_ifs with hpos hneg
  · rw [wrap_shiftLeft, toInt_lopped]
  · omega
  · omega
  · rw [toInt_lopped_ushiftRight]
  · have hzero : n = 0 := by omega
    rw [hzero, toInt_lopped]
    norm_num
  · omega

theorem wrap_arithmeticShift (v : BitVec 64) (n : Int) :
    wrap 39 (Registers.arithmeticShift v n).toInt = wrap 39 (shifted v.toInt n) := by
  rw [Registers.arithmeticShift, shifted]
  split_ifs with hpos hneg
  · exact wrap_shiftLeft v _
  · omega
  · omega
  · rw [toInt_sshiftRight_eq]
  · have hzero : n = 0 := by omega
    rw [hzero]
    norm_num
  · omega

end DolphinXR.DSP
