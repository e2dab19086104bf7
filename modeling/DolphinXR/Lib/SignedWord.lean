import Mathlib.Tactic.Linarith
import Mathlib.Tactic.Positivity
import Mathlib.Tactic.Ring

/- Words that hold a signed number, `BitVec.ofInt w z`, under shifts and changes of width: shifting
   right divides and rounds down, and truncation forgets nothing but the width. Sums, products and
   opposites are those of the numbers already. -/
namespace DolphinXR.Lib.SignedWord
variable {v w : Nat} {z : Int}

theorem toNat_ofInt_cast (w : Nat) (z : Int) : ((BitVec.ofInt w z).toNat : Int) = z % 2 ^ w := by
  rw [BitVec.toNat_ofInt, Int.toNat_of_nonneg (Int.emod_nonneg _ (by positivity))]
  push_cast
  rfl

theorem setWidth_ofInt (h : v ≤ w) (z : Int) :
    (BitVec.ofInt w z).setWidth v = BitVec.ofInt v z := by
  apply BitVec.eq_of_toNat_eq
  have hdvd : (2 : Int) ^ v ∣ 2 ^ w := pow_dvd_pow 2 h
  have hcast : (((BitVec.ofInt w z).setWidth v).toNat : Int) = (BitVec.ofInt v z).toNat := by
    rw [BitVec.toNat_setWidth, Int.natCast_emod, toNat_ofInt_cast, toNat_ofInt_cast]
    push_cast
    exact Int.emod_emod_of_dvd z hdvd
  exact_mod_cast hcast

theorem sshiftRight_ofInt (hw : 0 < w) (hlow : -2 ^ (w - 1) ≤ z) (hhigh : z < 2 ^ (w - 1))
    (k : Nat) : (BitVec.ofInt w z).sshiftRight k = BitVec.ofInt w (z / 2 ^ k) := by
  apply BitVec.eq_of_toInt_eq
  have hz : (BitVec.ofInt w z).toInt = z := BitVec.toInt_ofInt_eq_self hw hlow hhigh
  have hk : (0 : Int) < 2 ^ k := by positivity
  have hone : (1 : Int) ≤ 2 ^ k := hk
  have hpow : (0 : Int) < 2 ^ (w - 1) := by positivity
  have hlow' : -2 ^ (w - 1) ≤ z / 2 ^ k := by
    rw [Int.le_ediv_iff_mul_le hk]
    nlinarith
  have hhigh' : z / 2 ^ k < 2 ^ (w - 1) := by
    rw [Int.ediv_lt_iff_lt_mul hk]
    nlinarith
  rw [BitVec.toInt_sshiftRight, hz, Int.shiftRight_eq_div_pow,
    BitVec.toInt_ofInt_eq_self hw hlow' hhigh']
  push_cast
  rfl

theorem setWidth_ushiftRight_ofInt (v w : Nat) (z : Int) :
    (BitVec.ofInt (v + w) z >>> v).setWidth w = BitVec.ofInt w (z / 2 ^ v) := by
  apply BitVec.eq_of_toNat_eq
  have hv : (0 : Int) < 2 ^ v := by positivity
  have hdiv : z % 2 ^ (v + w) / 2 ^ v = z / 2 ^ v - 2 ^ w * (z / 2 ^ (v + w)) := by
    have hsplit : z % 2 ^ (v + w) = z + 2 ^ v * (-(2 ^ w * (z / 2 ^ (v + w)))) := by
      rw [Int.emod_def, pow_add]
      ring
    rw [hsplit, Int.add_mul_ediv_left _ _ (Int.ne_of_gt hv)]
    ring
  have hcast : (((BitVec.ofInt (v + w) z >>> v).setWidth w).toNat : Int) =
      (BitVec.ofInt w (z / 2 ^ v)).toNat := by
    rw [BitVec.toNat_setWidth, Int.natCast_emod, BitVec.toNat_ushiftRight,
      Nat.shiftRight_eq_div_pow, Int.natCast_ediv, toNat_ofInt_cast, toNat_ofInt_cast]
    push_cast
    rw [hdiv, Int.sub_mul_emod_self_left]
  exact_mod_cast hcast

theorem ushiftRight_sign (hw : 0 < w) (hlow : -2 ^ (w - 1) ≤ z) (hhigh : z < 2 ^ (w - 1)) :
    BitVec.ofInt w z >>> (w - 1) = BitVec.ofInt w (if z < 0 then 1 else 0) := by
  obtain ⟨k, rfl⟩ : ∃ k, w = k + 1 := ⟨w - 1, by omega⟩
  rw [Nat.add_sub_cancel] at hlow hhigh ⊢
  apply BitVec.eq_of_toNat_eq
  have hpow : (2 : Int) ^ (k + 1) = 2 * 2 ^ k := by rw [pow_succ, mul_comm]
  have hk : (0 : Int) < 2 ^ k := by positivity
  have hcast : ((BitVec.ofInt (k + 1) z >>> k).toNat : Int) =
      (BitVec.ofInt (k + 1) (if z < 0 then 1 else 0)).toNat := by
    rw [BitVec.toNat_ushiftRight, Nat.shiftRight_eq_div_pow, Int.natCast_ediv, toNat_ofInt_cast,
      toNat_ofInt_cast, hpow]
    push_cast
    by_cases hneg : z < 0
    · have hone : (1 : Int) % (2 * 2 ^ k) = 1 := Int.emod_eq_of_lt (by norm_num) (by omega)
      have hmod : z % (2 * 2 ^ k) = z + 2 ^ k + 2 ^ k * 1 := by
        rw [← Int.add_emod_right, Int.emod_eq_of_lt (by omega) (by omega)]
        ring
      rw [if_pos hneg, hone, hmod, Int.add_mul_ediv_left _ _ (Int.ne_of_gt hk),
        Int.ediv_eq_zero_of_lt (by omega) (by omega)]
      norm_num
    · rw [if_neg hneg, Int.zero_emod, Int.emod_eq_of_lt (by omega) (by omega),
        Int.ediv_eq_zero_of_lt (by omega) hhigh]
  exact_mod_cast hcast

end DolphinXR.Lib.SignedWord
