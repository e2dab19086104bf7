import Mathlib.Data.Nat.Bitwise

/- Addition of words with a carry-in, at any width: the exact sum as a number, what a comparison
   of the operands says about its top bit, and when the sum of the signed operands is no longer
   representable. -/
namespace DolphinXR.Lib
variable {w : Nat}

def exactSum (x y : BitVec w) (c : Bool) : Nat := x.toNat + y.toNat + c.toNat

def exactSignedSum (x y : BitVec w) (c : Bool) : Int := x.toInt + y.toInt + c.toNat

/-- Not between `-2 ^ (w - 1)` and `2 ^ (w - 1) - 1`. -/
def SignedOverflow (w : Nat) (n : Int) : Prop := n < -2 ^ (w - 1) ∨ 2 ^ (w - 1) ≤ n

theorem exactSum_lt (x y : BitVec w) (c : Bool) : exactSum x y c < 2 ^ (w + 1) := by
  have hx := x.isLt
  have hy := y.isLt
  have hc : c.toNat ≤ 1 := Bool.toNat_le c
  rw [exactSum, Nat.pow_succ]
  omega

theorem exactSum_testBit (x y : BitVec w) (c : Bool) :
    (exactSum x y c).testBit w = decide (2 ^ w ≤ exactSum x y c) := by
  have hlt := exactSum_lt x y c
  by_cases h : 2 ^ w ≤ exactSum x y c
  · rw [decide_eq_true h]
    exact Nat.testBit_of_two_pow_le_and_two_pow_add_one_gt h hlt
  · rw [decide_eq_false h]
    exact Nat.testBit_lt_two_pow (Nat.lt_of_not_le h)

theorem toNat_not_add (x : BitVec w) : (~~~x).toNat + x.toNat = 2 ^ w - 1 := by
  have := x.isLt
  rw [BitVec.toNat_not]
  omega

theorem ult_not_eq (x y : BitVec w) : (~~~x).ult y = decide (2 ^ w ≤ x.toNat + y.toNat) := by
  have hnot := toNat_not_add x
  have hx := x.isLt
  rw [BitVec.ult_eq_decide, decide_eq_decide]
  omega

theorem msb_xor_and_xor {x y r : BitVec w} {c : Bool} (hw : 0 < w)
    (hr : r.toNat = exactSum x y c % 2 ^ w) :
    ((x ^^^ r) &&& (y ^^^ r)).msb = true ↔ SignedOverflow w (exactSignedSum x y c) := by
  obtain ⟨k, rfl⟩ : ∃ k, w = k + 1 := ⟨w - 1, by omega⟩
  have hx := x.isLt
  have hy := y.isLt
  have hc : c.toNat ≤ 1 := Bool.toNat_le c
  have hp : 2 ^ (k + 1) = 2 * 2 ^ k := by rw [Nat.pow_succ, Nat.mul_comm]
  have hr' : r.toNat = exactSum x y c ∨
      r.toNat + 2 ^ (k + 1) = exactSum x y c := by
    have hlt := exactSum_lt x y c
    rw [Nat.pow_succ] at hlt
    by_cases h : 2 ^ (k + 1) ≤ exactSum x y c
    · rw [Nat.mod_eq_sub_mod h, Nat.mod_eq_of_lt (by omega)] at hr
      omega
    · rw [Nat.mod_eq_of_lt (by omega)] at hr
      omega
  have hrlt := r.isLt
  rw [exactSum] at hr'
  rw [BitVec.msb_and, BitVec.msb_xor, BitVec.msb_xor, SignedOverflow, exactSignedSum,
    BitVec.toInt_eq_msb_cond, BitVec.toInt_eq_msb_cond, Nat.add_sub_cancel]
  have hk : (2 : Int) ^ k = ((2 ^ k : Nat) : Int) := by push_cast; rfl
  rw [hk]
  simp only [BitVec.msb_eq_decide, Nat.add_sub_cancel, hp] at *
  generalize 2 ^ k = p at *
  by_cases hxs : p ≤ x.toNat <;> by_cases hys : p ≤ y.toNat <;> by_cases hrs : p ≤ r.toNat <;>
    simp [hxs, hys, hrs] <;> omega

end DolphinXR.Lib
