import DolphinXR.Core.DivUtils
import DolphinXR.Lib.DivisionByMultiplication

/- What the unsigned constants are: the reciprocal of the divisor, scaled by `2 ^ 32` times the
   power of two just below it, rounded up if the one dividend that is tried comes out right, and
   rounded down otherwise. That one dividend decides for all of them. -/
namespace DolphinXR.JitCommon
open Lib CheckedWord

/-- What `UnsignedDivisionConstants` is called with. -/
structure UnsignedArgument (divisor : BitVec 32) : Prop where
  ne_zero : divisor.toNat ≠ 0
  not_pow : ∀ k, divisor.toNat ≠ 2 ^ k

/-- The error of the multiplier rounded up, at the largest dividend that has the largest
    remainder. -/
def RoundsUp (d : Nat) : Prop :=
  (2 ^ 32 / d * d - 1) * (d - 2 ^ (32 + d.log2) % d) < 2 ^ (32 + d.log2)

instance (d : Nat) : Decidable (RoundsUp d) := inferInstanceAs (Decidable (_ < _))

def trailingZeroes (d : Nat) : Nat :=
  min d.log2 (BitVec.ofNat 32 (2 ^ (32 + d.log2) / d + 1)).ctz.toNat

theorem log2_eq_sub_clz {x : BitVec 32} (hx : x.toNat ≠ 0) : x.toNat.log2 = 31 - x.clz.toNat := by
  have hne : x ≠ 0#32 := by
    rintro rfl
    exact hx rfl
  have hlt : x.clz < 32#32 := BitVec.clz_lt_iff_ne_zero.2 hne
  have hlt' : x.clz.toNat < 32 := hlt
  rw [Nat.log2_eq_iff hx]
  constructor
  · exact BitVec.two_pow_sub_clz_le_toNat_of_ne_zero (by norm_num) hne
  · have hup := BitVec.toNat_lt_two_pow_sub_clz (x := x)
    have hexp : 31 - x.clz.toNat + 1 = 32 - x.clz.toNat := by omega
    rw [hexp]
    exact hup

theorem two_pow_ctz_dvd (x : BitVec 32) : 2 ^ x.ctz.toNat ∣ x.toNat := by
  apply Nat.dvd_of_mod_eq_zero
  apply Nat.eq_of_testBit_eq
  intro i
  rw [Nat.testBit_mod_two_pow, Nat.zero_testBit]
  by_cases hi : i < x.ctz.toNat
  · have hbit : x.getLsbD i = false := BitVec.getLsbD_false_of_lt_ctz hi
    rw [decide_eq_true hi, Bool.true_and]
    exact hbit
  · rw [decide_eq_false hi, Bool.false_and]

theorem maxQuotient_eq (divisor : BitVec 32) :
    (2 ^ (32 + divisor.toNat.log2) / divisor.toNat) >>> divisor.toNat.log2 =
      2 ^ 32 / divisor.toNat := by
  rw [Nat.shiftRight_eq_div_pow, Nat.div_div_eq_div_mul, Nat.mul_comm, ← Nat.div_div_eq_div_mul,
    Nat.pow_add, Nat.mul_div_cancel _ (Nat.two_pow_pos _)]

namespace UnsignedArgument
variable {divisor : BitVec 32} (h : UnsignedArgument divisor)
include h

theorem two_pow_log2_lt : 2 ^ divisor.toNat.log2 < divisor.toNat :=
  Nat.lt_of_le_of_ne (Nat.log2_self_le h.ne_zero) (Ne.symm (h.not_pow _))

theorem log2_le : divisor.toNat.log2 ≤ 31 := by
  have hlt : divisor.toNat.log2 < 32 := (Nat.log2_lt h.ne_zero).2 divisor.isLt
  omega

theorem multiplier_lt : 2 ^ (32 + divisor.toNat.log2) / divisor.toNat + 1 < 2 ^ 32 := by
  have hlow := h.two_pow_log2_lt
  have hlog := h.log2_le
  have hpos := Nat.pos_of_ne_zero h.ne_zero
  have hpow : 2 ^ divisor.toNat.log2 ≤ 2 ^ 31 := Nat.pow_le_pow_right (by norm_num) hlog
  have hlt : 2 ^ (32 + divisor.toNat.log2) / divisor.toNat < 2 ^ 32 - 1 := by
    rw [Nat.div_lt_iff_lt_mul hpos]
    calc 2 ^ (32 + divisor.toNat.log2) = 2 ^ 32 * 2 ^ divisor.toNat.log2 := Nat.pow_add 2 32 _
      _ < (2 ^ 32 - 1) * (2 ^ divisor.toNat.log2 + 1) := by omega
      _ ≤ (2 ^ 32 - 1) * divisor.toNat := Nat.mul_le_mul_left _ hlow
  omega

theorem maxQuotient_pos : 0 < 2 ^ 32 / divisor.toNat :=
  Nat.div_pos divisor.isLt.le (Nat.pos_of_ne_zero h.ne_zero)

theorem maxQuotient_mul_lt : 2 ^ 32 / divisor.toNat * divisor.toNat < 2 ^ 32 := by
  have hdiv := Nat.div_add_mod' (2 ^ 32) divisor.toNat
  have hmod := DivisionByMultiplication.two_pow_mod_pos h.not_pow 32
  omega

theorem multiplier_mul : (2 ^ (32 + divisor.toNat.log2) / divisor.toNat + 1) * divisor.toNat =
    2 ^ (32 + divisor.toNat.log2) +
      (divisor.toNat - 2 ^ (32 + divisor.toNat.log2) % divisor.toNat) := by
  have hdiv := Nat.div_add_mod' (2 ^ (32 + divisor.toNat.log2)) divisor.toNat
  have hmod := Nat.mod_lt (2 ^ (32 + divisor.toNat.log2)) (Nat.pos_of_ne_zero h.ne_zero)
  rw [Nat.succ_mul]
  omega

theorem test_iff :
    ((2 ^ (32 + divisor.toNat.log2) / divisor.toNat + 1) *
      (2 ^ 32 / divisor.toNat * divisor.toNat - 1)) >>> (divisor.toNat.log2 + 32) =
        2 ^ 32 / divisor.toNat - 1 ↔ RoundsUp divisor.toNat := by
  have hpos := Nat.pos_of_ne_zero h.ne_zero
  have hq := h.maxQuotient_pos
  have hN : 2 ^ 32 / divisor.toNat * divisor.toNat - 1 =
      divisor.toNat - 1 + (2 ^ 32 / divisor.toNat - 1) * divisor.toNat := by
    obtain ⟨q, hq'⟩ : ∃ q, 2 ^ 32 / divisor.toNat = q + 1 := ⟨_, (Nat.succ_pred_eq_of_pos hq).symm⟩
    rw [hq', Nat.succ_mul, Nat.add_sub_cancel]
    omega
  have hdiv : (2 ^ 32 / divisor.toNat * divisor.toNat - 1) / divisor.toNat =
      2 ^ 32 / divisor.toNat - 1 := by
    rw [hN, Nat.add_mul_div_right _ _ hpos, Nat.div_eq_of_lt (by omega), Nat.zero_add]
  have hmod : (2 ^ 32 / divisor.toNat * divisor.toNat - 1) % divisor.toNat =
      divisor.toNat - 1 := by
    rw [hN, Nat.add_mul_mod_self_right, Nat.mod_eq_of_lt (by omega)]
  have hone : divisor.toNat - (divisor.toNat - 1) = 1 := by omega
  have hiff := DivisionByMultiplication.mul_div_eq_div_iff hpos (Nat.two_pow_pos _)
    h.multiplier_mul (N := 2 ^ 32 / divisor.toNat * divisor.toNat - 1)
  rw [hdiv, hmod, hone, Nat.one_mul] at hiff
  rw [Nat.shiftRight_eq_div_pow, Nat.add_comm _ 32]
  exact hiff

/-- If the hardest dividend comes out right, all do: a smaller remainder leaves more room than the
    error of any word takes. -/
theorem round_up (hup : RoundsUp divisor.toNat) {n : Nat} (hn : n < 2 ^ 32) :
    (2 ^ (32 + divisor.toNat.log2) / divisor.toNat + 1) * n / 2 ^ (32 + divisor.toNat.log2) =
      n / divisor.toNat := by
  have hpos := Nat.pos_of_ne_zero h.ne_zero
  rw [DivisionByMultiplication.mul_div_eq_div_iff hpos (Nat.two_pow_pos _) h.multiplier_mul]
  have hmod : n % divisor.toNat < divisor.toNat := Nat.mod_lt n hpos
  have hdiv := Nat.div_add_mod' n divisor.toNat
  by_cases hlast : n % divisor.toNat = divisor.toNat - 1
  · have hone : divisor.toNat - n % divisor.toNat = 1 := by omega
    have hsucc : (n / divisor.toNat + 1) * divisor.toNat ≤ 2 ^ 32 := by
      rw [Nat.succ_mul]
      omega
    have hle : n ≤ 2 ^ 32 / divisor.toNat * divisor.toNat - 1 := by
      have hmul := Nat.mul_le_mul_right divisor.toNat ((Nat.le_div_iff_mul_le hpos).2 hsucc)
      rw [Nat.succ_mul] at hmul
      omega
    rw [hone, Nat.one_mul]
    exact Nat.lt_of_le_of_lt (Nat.mul_le_mul_right _ hle) hup
  · have htwo : 2 ≤ divisor.toNat - n % divisor.toNat := by omega
    have herror : divisor.toNat - 2 ^ (32 + divisor.toNat.log2) % divisor.toNat <
        2 ^ (divisor.toNat.log2 + 1) := Nat.lt_of_le_of_lt (Nat.sub_le _ _) Nat.lt_log2_self
    calc n * (divisor.toNat - 2 ^ (32 + divisor.toNat.log2) % divisor.toNat)
        < 2 ^ 32 * 2 ^ (divisor.toNat.log2 + 1) := Nat.mul_lt_mul'' hn herror
      _ = 2 * 2 ^ (32 + divisor.toNat.log2) := by rw [← Nat.pow_add, ← Nat.pow_succ']; congr 1
      _ ≤ (divisor.toNat - n % divisor.toNat) * 2 ^ (32 + divisor.toNat.log2) :=
        Nat.mul_le_mul_right _ htwo

theorem round_down (hup : ¬RoundsUp divisor.toNat) {n : Nat} (hn : n < 2 ^ 32) :
    2 ^ (32 + divisor.toNat.log2) / divisor.toNat * (n + 1) / 2 ^ (32 + divisor.toNat.log2) =
      n / divisor.toNat := by
  have hpos := Nat.pos_of_ne_zero h.ne_zero
  have hmod := Nat.mod_lt (2 ^ (32 + divisor.toNat.log2)) hpos
  have hmul := h.maxQuotient_mul_lt
  have hrest : 2 ^ (32 + divisor.toNat.log2) % divisor.toNat < 2 ^ divisor.toNat.log2 := by
    have herror : 2 ^ divisor.toNat.log2 <
        divisor.toNat - 2 ^ (32 + divisor.toNat.log2) % divisor.toNat := by
      by_contra hle
      apply hup
      calc (2 ^ 32 / divisor.toNat * divisor.toNat - 1) *
            (divisor.toNat - 2 ^ (32 + divisor.toNat.log2) % divisor.toNat)
          ≤ (2 ^ 32 / divisor.toNat * divisor.toNat - 1) * 2 ^ divisor.toNat.log2 :=
            Nat.mul_le_mul_left _ (Nat.le_of_not_lt hle)
        _ < 2 ^ 32 * 2 ^ divisor.toNat.log2 :=
            Nat.mul_lt_mul_of_pos_right (by omega) (Nat.two_pow_pos _)
        _ = 2 ^ (32 + divisor.toNat.log2) := (Nat.pow_add 2 32 _).symm
    have hhigh : divisor.toNat < 2 ^ (divisor.toNat.log2 + 1) := Nat.lt_log2_self
    rw [Nat.pow_succ] at hhigh
    omega
  apply DivisionByMultiplication.mul_succ_div_eq_div hpos
    (DivisionByMultiplication.two_pow_mod_pos h.not_pow (32 + divisor.toNat.log2))
    (Nat.div_add_mod' _ _)
  calc 2 ^ (32 + divisor.toNat.log2) % divisor.toNat * (n + 1)
      ≤ 2 ^ divisor.toNat.log2 * 2 ^ 32 := Nat.mul_le_mul hrest.le hn
    _ = 2 ^ (32 + divisor.toNat.log2) := by rw [← Nat.pow_add, Nat.add_comm]

theorem reduced_mul_div (n : Nat) :
    n * ((2 ^ (32 + divisor.toNat.log2) / divisor.toNat + 1) >>> trailingZeroes divisor.toNat) /
        2 ^ (32 + (divisor.toNat.log2 - trailingZeroes divisor.toNat)) =
      (2 ^ (32 + divisor.toNat.log2) / divisor.toNat + 1) * n /
        2 ^ (32 + divisor.toNat.log2) := by
  have hle : trailingZeroes divisor.toNat ≤ divisor.toNat.log2 := Nat.min_le_left _ _
  have hdvd : 2 ^ trailingZeroes divisor.toNat ∣
      2 ^ (32 + divisor.toNat.log2) / divisor.toNat + 1 := by
    have hctz := two_pow_ctz_dvd
      (BitVec.ofNat 32 (2 ^ (32 + divisor.toNat.log2) / divisor.toNat + 1))
    rw [BitVec.toNat_ofNat, Nat.mod_eq_of_lt h.multiplier_lt] at hctz
    exact Nat.dvd_trans (Nat.pow_dvd_pow 2 (Nat.min_le_right _ _)) hctz
  obtain ⟨c, hc⟩ := hdvd
  have hsplit : 32 + divisor.toNat.log2 =
      trailingZeroes divisor.toNat + (32 + (divisor.toNat.log2 - trailingZeroes divisor.toNat)) := by
    omega
  have hpow : 2 ^ (32 + divisor.toNat.log2) = 2 ^ trailingZeroes divisor.toNat *
      2 ^ (32 + (divisor.toNat.log2 - trailingZeroes divisor.toNat)) := by
    rw [← Nat.pow_add, ← hsplit]
  rw [hc, Nat.shiftRight_eq_div_pow, Nat.mul_div_cancel_left c (Nat.two_pow_pos _), Nat.mul_assoc,
    hpow, Nat.mul_div_mul_left _ _ (Nat.two_pow_pos _), Nat.mul_comm n c]

theorem unsignedDivisionConstants_eq :
    unsignedDivisionConstants divisor = .ok (
      if RoundsUp divisor.toNat then {
        multiplier := BitVec.ofNat 32 ((2 ^ (32 + divisor.toNat.log2) / divisor.toNat + 1) >>>
          trailingZeroes divisor.toNat)
        shift := divisor.toNat.log2 - trailingZeroes divisor.toNat
        fast := true }
      else {
        multiplier := BitVec.ofNat 32 (2 ^ (32 + divisor.toNat.log2) / divisor.toNat)
        shift := divisor.toNat.log2
        fast := false }) := by
  have hpos := Nat.pos_of_ne_zero h.ne_zero
  have hlog := h.log2_le
  have hq := h.maxQuotient_pos
  have hqlt := h.maxQuotient_mul_lt
  have hm := h.multiplier_lt
  have hdpos : 0 < 2 ^ 32 / divisor.toNat * divisor.toNat := Nat.mul_pos hq hpos
  have hclz : CheckedWord.sub 31 divisor.clz.toNat = .ok divisor.toNat.log2 := by
    rw [log2_eq_sub_clz h.ne_zero]
    apply sub_eq_ok
    have hlt : divisor.clz < 32#32 := BitVec.clz_lt_iff_ne_zero.2 (by
      rintro rfl
      exact h.ne_zero rfl)
    exact Nat.le_of_lt_succ hlt
  have hshift : CheckedWord.shiftLeft 64 0x100000000 divisor.toNat.log2 =
      .ok (2 ^ (32 + divisor.toNat.log2)) := by
    have hpow : 0x100000000 * 2 ^ divisor.toNat.log2 = 2 ^ (32 + divisor.toNat.log2) :=
      (Nat.pow_add 2 32 _).symm
    rw [shiftLeft_eq_ok (by rw [hpow]; exact Nat.pow_lt_pow_right (by norm_num) (by omega)), hpow]
  have hprod : (2 ^ (32 + divisor.toNat.log2) / divisor.toNat + 1) *
      (2 ^ 32 / divisor.toNat * divisor.toNat - 1) < 2 ^ 64 := by
    calc _ < 2 ^ 32 * 2 ^ 32 := Nat.mul_lt_mul'' hm (by omega)
      _ = 2 ^ 64 := by norm_num
  have hround : ((2 ^ (32 + divisor.toNat.log2) / divisor.toNat + 1) *
      (2 ^ 32 / divisor.toNat * divisor.toNat - 1)) >>> (divisor.toNat.log2 + 32) < 2 ^ 32 := by
    rw [Nat.shiftRight_eq_div_pow, Nat.div_lt_iff_lt_mul (Nat.two_pow_pos _)]
    calc _ < 2 ^ 64 := hprod
      _ ≤ 2 ^ 32 * 2 ^ (divisor.toNat.log2 + 32) := by
        rw [← Nat.pow_add]
        exact Nat.pow_le_pow_right (by norm_num) (by omega)
  have hbyte : ∀ k ≤ 31, k % 2 ^ 8 = k := fun k hk => Nat.mod_eq_of_lt (by omega)
  rw [unsignedDivisionConstants, hclz, ok_bind, hshift, ok_bind, div_eq_ok hpos, ok_bind,
    narrow_eq_ok (by omega), ok_bind, maxQuotient_eq divisor]
  dsimp only
  rw [mul_eq_ok hqlt, ok_bind,
    sub_eq_ok hdpos, ok_bind, add_eq_ok hm, ok_bind, mul_eq_ok hprod, ok_bind,
    narrow_eq_ok hround, ok_bind, sub_eq_ok hq, ok_bind, if_congr h.test_iff rfl rfl]
  by_cases hup : RoundsUp divisor.toNat
  · rw [if_pos hup, if_pos hup, ok_bind]
    change (CheckedWord.sub divisor.toNat.log2 (trailingZeroes divisor.toNat) >>= _) = _
    have hle : trailingZeroes divisor.toNat ≤ divisor.toNat.log2 := Nat.min_le_left _ _
    rw [sub_eq_ok hle, ok_bind, hbyte _ (by omega)]
    rfl
  · rw [if_neg hup, if_neg hup, hbyte _ hlog]
    rfl

end UnsignedArgument
end DolphinXR.JitCommon
