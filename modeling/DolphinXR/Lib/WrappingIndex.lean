import Mathlib.Data.BitVec

/- Indices that run freely and wrap: a `w`-bit counter stands for a number that only grows, and two
   of them are compared by their difference, which is right as long as the numbers are near enough
   to one another. A ring of `2 ^ n` slots takes the slot of an index by a mask, which the wrap
   does not disturb if `n ≤ w`. -/
namespace DolphinXR.Lib

section
variable {w : Nat}

def counter (w i : Nat) : BitVec w := BitVec.ofNat w i

theorem counter_succ (i : Nat) : counter w i + 1 = counter w (i + 1) := by
  rw [counter, counter, BitVec.ofNat_add]
  rfl

theorem counter_add (i j : Nat) : counter w i + BitVec.ofNat w j = counter w (i + j) := by
  rw [counter, counter, BitVec.ofNat_add]

theorem counter_sub {i j : Nat} (h : j ≤ i) :
    counter w i - BitVec.ofNat w j = counter w (i - j) := by
  obtain ⟨k, rfl⟩ := Nat.exists_eq_add_of_le h
  rw [Nat.add_sub_cancel_left, Nat.add_comm, ← counter_add]
  exact BitVec.add_sub_cancel _ _

theorem distance_counter {i j : Nat} (hle : j ≤ i) (hlap : i - j < 2 ^ w) :
    (counter w i - counter w j).toNat = i - j := by
  have h : counter w i - counter w j = counter w (i - j) := counter_sub hle
  rw [h, counter, BitVec.toNat_ofNat, Nat.mod_eq_of_lt hlap]

theorem counter_eq_iff {i j : Nat} (hle : j ≤ i) (hlap : i - j < 2 ^ w) :
    counter w i = counter w j ↔ i = j := by
  refine ⟨fun h => ?_, fun h => by rw [h]⟩
  have hzero := distance_counter hle hlap
  rw [h, BitVec.sub_self, BitVec.toNat_zero] at hzero
  omega

theorem sign_counter {i j : Nat} (hahead : i < j + 2 ^ w) (hbehind : j ≤ i + 2 ^ w) :
    0 ≤ (counter (w + 1) i - counter (w + 1) j).toInt ↔ j ≤ i := by
  have hdouble : 2 ^ (w + 1) = 2 * 2 ^ w := by rw [Nat.pow_succ, Nat.mul_comm]
  rw [BitVec.toInt_eq_toNat_cond]
  rcases Nat.lt_or_ge i j with hlt | hle
  · have hback : (counter (w + 1) i - counter (w + 1) j).toNat = 2 ^ (w + 1) - (j - i) := by
      rw [← neg_sub, BitVec.toNat_neg, distance_counter hlt.le (by omega)]
      exact Nat.mod_eq_of_lt (by omega)
    rw [hback, if_neg (by omega)]
    exact iff_of_false (by omega) (by omega)
  · rw [distance_counter hle (by omega), if_pos (by omega)]
    exact iff_of_true (Int.natCast_nonneg _) hle

theorem slot_counter {n : Nat} (hn : n ≤ w) (i : Nat) :
    (counter w i &&& BitVec.ofNat w (2 ^ n - 1)).toNat = i % 2 ^ n := by
  have hpow : 2 ^ n ≤ 2 ^ w := Nat.pow_le_pow_right (by decide) hn
  have hpos : 0 < 2 ^ n := Nat.two_pow_pos n
  rw [BitVec.toNat_and, counter, BitVec.toNat_ofNat, BitVec.toNat_ofNat,
    Nat.mod_eq_of_lt (show 2 ^ n - 1 < 2 ^ w by omega), Nat.and_two_pow_sub_one_eq_mod,
    Nat.mod_mod_of_dvd i (Nat.pow_dvd_pow 2 hn)]

end
end DolphinXR.Lib
