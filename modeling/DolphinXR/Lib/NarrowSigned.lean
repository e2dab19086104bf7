import Mathlib.Tactic.Positivity

/- Signed numbers of `k + 1` bits, held sign-extended in words of `w` bits: how a word is brought
   back to such a number, and how the carry and the overflow of a sum of them, which fall inside
   the word, are told from the words by comparing them and by their signs. -/
namespace DolphinXR.Lib.NarrowSigned
variable {k w : Nat}

/-- A signed number of `k + 1` bits. -/
def Fits (k : Nat) (x : Int) : Prop := -2 ^ k ≤ x ∧ x < 2 ^ k

instance (x : Int) : Decidable (Fits k x) := inferInstanceAs (Decidable (_ ∧ _))

/-- The low `k + 1` bits, read as a signed number. -/
def wrap (k : Nat) (x : Int) : Int := x.bmod (2 ^ (k + 1))

theorem two_pow_succ_int (k : Nat) : (2 : Int) ^ (k + 1) = 2 * 2 ^ k := by
  rw [Int.pow_succ, Int.mul_comm]

theorem wrap_cases (k : Nat) (x : Int) :
    wrap k x = x % 2 ^ (k + 1) ∧ x % 2 ^ (k + 1) < 2 ^ k ∨
      wrap k x = x % 2 ^ (k + 1) - 2 ^ (k + 1) ∧ 2 ^ k ≤ x % 2 ^ (k + 1) := by
  have hpow := two_pow_succ_int k
  have hcast : ((2 ^ (k + 1) : Nat) : Int) = 2 ^ (k + 1) := by push_cast; rfl
  rw [wrap, Int.bmod_def, hcast]
  split <;> omega

theorem wrap_fits (k : Nat) (x : Int) : Fits k (wrap k x) := by
  have hpow := two_pow_succ_int k
  have hpos : (0 : Int) < 2 ^ k := by positivity
  have hnonneg : 0 ≤ x % 2 ^ (k + 1) := Int.emod_nonneg x (by omega)
  have hlt : x % 2 ^ (k + 1) < 2 ^ (k + 1) := Int.emod_lt_of_pos x (by omega)
  unfold Fits
  obtain ⟨h, hside⟩ | ⟨h, hside⟩ := wrap_cases k x <;> omega

theorem wrap_emod (k : Nat) (x : Int) : wrap k x % 2 ^ (k + 1) = x % 2 ^ (k + 1) := by
  obtain ⟨h, -⟩ | ⟨h, -⟩ := wrap_cases k x
  · rw [h, Int.emod_emod_of_dvd _ (Int.dvd_refl _)]
  · rw [h, Int.sub_emod_right, Int.emod_emod_of_dvd _ (Int.dvd_refl _)]

theorem fits_emod {x : Int} (h : Fits k x) :
    x % 2 ^ (k + 1) = if x < 0 then x + 2 ^ (k + 1) else x := by
  have hpow := two_pow_succ_int k
  obtain ⟨hlow, hhigh⟩ := h
  split
  · rw [← Int.add_emod_right, Int.emod_eq_of_lt (by omega) (by omega)]
  · exact Int.emod_eq_of_lt (by omega) (by omega)

theorem wrap_of_fits {x : Int} (h : Fits k x) : wrap k x = x := by
  have hpow := two_pow_succ_int k
  have hmod := fits_emod h
  obtain ⟨hlow, hhigh⟩ := h
  obtain ⟨hw, hside⟩ | ⟨hw, hside⟩ := wrap_cases k x <;> split at hmod <;> omega

theorem wrap_eq_self_iff {x : Int} : wrap k x = x ↔ Fits k x := by
  constructor
  · intro h
    rw [← h]
    exact wrap_fits k x
  · exact wrap_of_fits

theorem wrap_congr {x y : Int} (h : x % 2 ^ (k + 1) = y % 2 ^ (k + 1)) : wrap k x = wrap k y := by
  have hx := wrap_cases k x
  have hy := wrap_cases k y
  omega

theorem wrap_of_over {x : Int} (hlow : 2 ^ k ≤ x) (hhigh : x < 2 ^ (k + 1) + 2 ^ k) :
    wrap k x = x - 2 ^ (k + 1) := by
  have hpow := two_pow_succ_int k
  rw [← wrap_of_fits (k := k) (x := x - 2 ^ (k + 1)) ⟨by omega, by omega⟩]
  exact wrap_congr (Int.sub_emod_right _ _).symm

theorem wrap_of_under {x : Int} (hlow : -2 ^ (k + 1) - 2 ^ k ≤ x) (hhigh : x < -2 ^ k) :
    wrap k x = x + 2 ^ (k + 1) := by
  have hpow := two_pow_succ_int k
  rw [← wrap_of_fits (k := k) (x := x + 2 ^ (k + 1)) ⟨by omega, by omega⟩]
  exact wrap_congr (Int.add_emod_right _ _).symm

theorem wrap_bmod (h : k + 1 ≤ w) (x : Int) : wrap k (x.bmod (2 ^ w)) = wrap k x :=
  Int.bmod_bmod_of_dvd (Nat.pow_dvd_pow 2 h)

theorem emod_toInt {d : Nat} (v : BitVec (k + 1 + d)) :
    v.toInt % 2 ^ (k + 1) = v.toNat % 2 ^ (k + 1) := by
  have hdvd : (2 : Int) ^ (k + 1) ∣ ((2 ^ (k + 1 + d) : Nat) : Int) := by
    refine ⟨2 ^ d, ?_⟩
    push_cast
    exact Int.pow_add 2 (k + 1) d
  rw [BitVec.toInt_eq_toNat_bmod, Int.emod_eq_emod_iff_emod_sub_eq_zero]
  exact Int.emod_eq_zero_of_dvd (Int.dvd_trans hdvd Int.dvd_bmod_sub_self)

theorem toInt_shiftLeft_sshiftRight {d : Nat} (v : BitVec (k + 1 + d)) :
    ((v <<< d).sshiftRight d).toInt = wrap k v.toInt := by
  have hd : (0 : Int) < 2 ^ d := by positivity
  have hshl : (v <<< d).toInt = 2 ^ d * wrap k v.toInt := by
    have hfits := wrap_fits k v.toInt
    have hhalf : ((2 ^ (k + 1 + d) : Nat) : Int) = 2 * (2 ^ d * 2 ^ k) := by
      push_cast
      rw [Int.pow_add, two_pow_succ_int, Int.mul_assoc, Int.mul_comm (2 ^ k)]
    have hnat : ((v.toNat <<< d : Nat) : Int) = 2 ^ d * v.toNat := by
      rw [Nat.shiftLeft_eq]
      push_cast
      exact Int.mul_comm _ _
    rw [BitVec.toInt_shiftLeft, hnat, Int.bmod_eq_iff (Nat.two_pow_pos _), hhalf]
    have hlow := Int.mul_le_mul_of_nonneg_left hfits.1 (Int.le_of_lt hd)
    have hhigh := Int.mul_lt_mul_of_pos_left hfits.2 hd
    rw [Int.mul_neg] at hlow
    refine ⟨by omega, by omega, ?_⟩
    have hmod : wrap k v.toInt % 2 ^ (k + 1) = v.toNat % 2 ^ (k + 1) :=
      (wrap_emod k v.toInt).trans (emod_toInt v)
    rw [Int.emod_eq_emod_iff_emod_sub_eq_zero] at hmod
    have hdvd := Int.mul_dvd_mul (Int.dvd_refl (2 ^ d)) (Int.dvd_of_emod_eq_zero hmod)
    rw [two_pow_succ_int, Int.mul_sub, Int.mul_left_comm] at hdvd
    exact hdvd
  rw [BitVec.toInt_sshiftRight, hshl, Int.shiftRight_eq_div_pow]
  push_cast
  exact Int.mul_ediv_cancel_left _ (by omega)

theorem toInt_shiftLeft_bmod (v : BitVec w) (d : Nat) :
    (v <<< d).toInt = (v.toInt * 2 ^ d).bmod (2 ^ w) := by
  rw [BitVec.toInt_shiftLeft, Nat.shiftLeft_eq, BitVec.toInt_eq_toNat_bmod, Int.bmod_mul_bmod]
  push_cast
  rfl

theorem toNat_and_high (v : BitVec w) (n : Nat) :
    (v &&& BitVec.allOnes w <<< n).toNat = v.toNat / 2 ^ n * 2 ^ n := by
  have hlt := v.isLt
  have hle := Nat.div_mul_le_self v.toNat (2 ^ n)
  rw [← BitVec.shiftLeft_ushiftRight, BitVec.toNat_shiftLeft, BitVec.toNat_ushiftRight,
    Nat.shiftRight_eq_div_pow, Nat.shiftLeft_eq]
  exact Nat.mod_eq_of_lt (by omega)

/-! ### Carries and overflow -/

theorem toNat_eq_toInt (v : BitVec w) :
    (v.toNat : Int) = if v.toInt < 0 then v.toInt + 2 ^ w else v.toInt := by
  have hlt := v.isLt
  have hcond := BitVec.toInt_eq_toNat_cond v
  have hcast : ((2 ^ w : Nat) : Int) = 2 ^ w := by push_cast; rfl
  split_ifs at hcond ⊢ <;> omega

theorem toNat_lt_iff (h : k < w) {u v : BitVec w} (hu : Fits k u.toInt) (hv : Fits k v.toInt) :
    u.toNat < v.toNat ↔ u.toInt % 2 ^ (k + 1) < v.toInt % 2 ^ (k + 1) := by
  have hpow := two_pow_succ_int k
  have hwide : (2 : Int) ^ (k + 1) ≤ 2 ^ w := by
    have hle : 2 ^ (k + 1) ≤ 2 ^ w := Nat.pow_le_pow_right (by decide) h
    exact_mod_cast hle
  have hunat := toNat_eq_toInt u
  have hvnat := toNat_eq_toInt v
  rw [fits_emod hu, fits_emod hv]
  obtain ⟨hulow, huhigh⟩ := hu
  obtain ⟨hvlow, hvhigh⟩ := hv
  split_ifs at hunat hvnat ⊢ <;> omega

section Sum
variable {u r : BitVec w} {x : Int}

theorem carry_iff (h : k < w) (hu : Fits k u.toInt) (hr : r.toInt = wrap k (u.toInt + x)) :
    r.toNat < u.toNat ↔ 2 ^ (k + 1) ≤ u.toInt % 2 ^ (k + 1) + x % 2 ^ (k + 1) := by
  have hpos : (0 : Int) < 2 ^ (k + 1) := by positivity
  rw [toNat_lt_iff h (hr ▸ wrap_fits k _) hu, hr, wrap_emod, Int.add_emod]
  have hulow := Int.emod_nonneg u.toInt (Int.ne_of_gt hpos)
  have huhigh := Int.emod_lt_of_pos u.toInt hpos
  have hxlow := Int.emod_nonneg x (Int.ne_of_gt hpos)
  have hxhigh := Int.emod_lt_of_pos x hpos
  generalize u.toInt % 2 ^ (k + 1) = a at *
  generalize x % 2 ^ (k + 1) = b at *
  by_cases hcarry : 2 ^ (k + 1) ≤ a + b
  · rw [← Int.sub_emod_right, Int.emod_eq_of_lt (by omega) (by omega)]
    omega
  · rw [Int.emod_eq_of_lt (by omega) (by omega)]
    omega

theorem noBorrow_iff (h : k < w) (hu : Fits k u.toInt) (hr : r.toInt = wrap k (u.toInt - x)) :
    r.toNat ≤ u.toNat ↔ x % 2 ^ (k + 1) ≤ u.toInt % 2 ^ (k + 1) := by
  have hpos : (0 : Int) < 2 ^ (k + 1) := by positivity
  rw [← Nat.not_lt, toNat_lt_iff h hu (hr ▸ wrap_fits k _), hr, wrap_emod, Int.sub_emod]
  have hulow := Int.emod_nonneg u.toInt (Int.ne_of_gt hpos)
  have huhigh := Int.emod_lt_of_pos u.toInt hpos
  have hxlow := Int.emod_nonneg x (Int.ne_of_gt hpos)
  have hxhigh := Int.emod_lt_of_pos x hpos
  generalize u.toInt % 2 ^ (k + 1) = a at *
  generalize x % 2 ^ (k + 1) = b at *
  by_cases hborrow : b ≤ a
  · rw [Int.emod_eq_of_lt (by omega) (by omega)]
    omega
  · rw [← Int.add_emod_right, Int.emod_eq_of_lt (by omega) (by omega)]
    omega

/-- The sum is off the range just where it has neither operand's sign. The second operand may be
    the one past the range, as the opposite of the least number is. -/
theorem overflow_iff {v : BitVec w} (hu : Fits k u.toInt) (hvlow : -2 ^ k ≤ v.toInt)
    (hvhigh : v.toInt ≤ 2 ^ k) (hr : r.toInt = wrap k (u.toInt + v.toInt)) :
    ((u ^^^ r) &&& (v ^^^ r)).msb = true ↔ ¬Fits k (u.toInt + v.toInt) := by
  have hpow := two_pow_succ_int k
  obtain ⟨hulow, huhigh⟩ := hu
  rw [BitVec.msb_and, BitVec.msb_xor, BitVec.msb_xor, BitVec.msb_eq_toInt, BitVec.msb_eq_toInt,
    BitVec.msb_eq_toInt, Bool.and_eq_true, bne_iff_ne, bne_iff_ne, ne_eq, ne_eq, decide_eq_decide,
    decide_eq_decide]
  by_cases hfits : Fits k (u.toInt + v.toInt)
  · rw [wrap_of_fits hfits] at hr
    rw [iff_false_right (not_not_intro hfits)]
    omega
  · rw [iff_true_right hfits]
    unfold Fits at hfits
    by_cases hover : 2 ^ k ≤ u.toInt + v.toInt
    · rw [wrap_of_over hover (by omega)] at hr
      omega
    · rw [wrap_of_under (by omega) (by omega)] at hr
      omega

end Sum

end DolphinXR.Lib.NarrowSigned
