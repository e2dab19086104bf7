import Mathlib.Data.Nat.Basic

/- `Common::AlignDown` and `Common::AlignUp` (Common/Align.h) on natural numbers.
   The C++ templates work on unsigned words; the two agree wherever
   `value + (size - 1)` does not pass the word's end, and the places where a
   word can wrap say so at the call. -/
namespace DolphinXR.Common

/-- `Common::AlignDown`: the largest multiple of `size` at or below `value`. -/
def alignDown (value size : Nat) : Nat := value - value % size

/-- `Common::AlignUp`: the smallest multiple of `size` at or above `value`. -/
def alignUp (value size : Nat) : Nat := alignDown (value + (size - 1)) size

theorem alignDown_eq (value size : Nat) : alignDown value size = size * (value / size) := by
  have := Nat.div_add_mod value size
  unfold alignDown; omega

theorem alignDown_le (value size : Nat) : alignDown value size ≤ value := Nat.sub_le _ _

theorem lt_alignDown_add {value size : Nat} (h : 0 < size) :
    value < alignDown value size + size := by
  have := Nat.mod_lt value h
  have := Nat.mod_le value size
  unfold alignDown; omega

theorem dvd_alignDown (value size : Nat) : size ∣ alignDown value size := by
  rw [alignDown_eq]; exact Nat.dvd_mul_right _ _

theorem dvd_alignUp (value size : Nat) : size ∣ alignUp value size := dvd_alignDown _ _

theorem le_alignUp {value size : Nat} (h : 0 < size) : value ≤ alignUp value size := by
  have : value + (size - 1) < alignDown (value + (size - 1)) size + size := lt_alignDown_add h
  unfold alignUp; omega

theorem alignUp_lt {value size : Nat} (h : 0 < size) : alignUp value size < value + size := by
  have := alignDown_le (value + (size - 1)) size
  unfold alignUp; omega

theorem alignUp_le_of_dvd {value size bound : Nat} (h : 0 < size) (hd : size ∣ bound)
    (hle : value ≤ bound) : alignUp value size ≤ bound := by
  obtain ⟨k, rfl⟩ := hd
  unfold alignUp
  rw [alignDown_eq]
  apply Nat.mul_le_mul_left
  have : (value + (size - 1)) / size < k + 1 := by
    rw [Nat.div_lt_iff_lt_mul h, Nat.add_mul, Nat.mul_comm k]; omega
  omega

theorem alignUp_of_dvd {value size : Nat} (h : 0 < size) (hd : size ∣ value) :
    alignUp value size = value :=
  Nat.le_antisymm (alignUp_le_of_dvd h hd (Nat.le_refl _)) (le_alignUp h)

theorem alignUp_pos {value size : Nat} (h : 0 < size) (hv : 0 < value) :
    0 < alignUp value size :=
  Nat.lt_of_lt_of_le hv (le_alignUp h)

end DolphinXR.Common
