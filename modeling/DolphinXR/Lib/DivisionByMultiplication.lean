import Mathlib.Data.Nat.Prime.Basic
import Mathlib.Tactic.Linarith
import Mathlib.Tactic.Ring

/- Division by a constant `d` as a multiplication by `M` and a division by `P`. Rounding up, `M` is
   the `P`-th part of `d` with an error `δ` left over, `M * d = P + δ`: the quotient is exact as long
   as the error, `N` times over, does not reach the next multiple of `d`. Rounding down it falls
   short instead, `M * d + r = P`, and the dividend is raised by one. -/
namespace DolphinXR.Lib.DivisionByMultiplication
variable {M d P δ N r : Nat}

theorem mul_mul_eq (h : M * d = P + δ) (N : Nat) :
    M * N * d = P * (N / d) * d + (P * (N % d) + N * δ) := by
  have hN : N = N / d * d + N % d := (Nat.div_add_mod' N d).symm
  calc M * N * d = (M * d) * N := by ring
    _ = (P + δ) * N := by rw [h]
    _ = P * N + N * δ := by ring
    _ = P * (N / d * d + N % d) + N * δ := by rw [← hN]
    _ = P * (N / d) * d + (P * (N % d) + N * δ) := by ring

theorem mul_div_le (hd : 0 < d) (h : M * d = P + δ) : P * (N / d) ≤ M * N := by
  have heq := mul_mul_eq h N
  exact Nat.le_of_mul_le_mul_right (by omega : P * (N / d) * d ≤ M * N * d) hd

theorem next_mul_eq (hd : 0 < d) :
    P * (N / d + 1) * d = P * (N / d) * d + (P * (N % d) + (d - N % d) * P) := by
  have hlt : N % d < d := Nat.mod_lt N hd
  obtain ⟨c, hc⟩ : ∃ c, d = N % d + c := ⟨d - N % d, by omega⟩
  have hsub : d - N % d = c := by omega
  rw [hsub]
  calc P * (N / d + 1) * d = P * (N / d) * d + P * d := by ring
    _ = P * (N / d) * d + P * (N % d + c) := by rw [← hc]
    _ = P * (N / d) * d + (P * (N % d) + c * P) := by ring

theorem mul_lt_iff (hd : 0 < d) (h : M * d = P + δ) :
    M * N < P * (N / d + 1) ↔ N * δ < (d - N % d) * P := by
  have heq := mul_mul_eq h N
  have hnext := next_mul_eq hd (P := P) (N := N)
  rw [← Nat.mul_lt_mul_right (a := d) hd, heq, hnext]
  omega

theorem mul_div_eq_div_iff (hd : 0 < d) (hP : 0 < P) (h : M * d = P + δ) :
    M * N / P = N / d ↔ N * δ < (d - N % d) * P := by
  have hle : N / d ≤ M * N / P := by
    rw [Nat.le_div_iff_mul_le hP, Nat.mul_comm]
    exact mul_div_le hd h
  rw [← mul_lt_iff hd h, Nat.mul_comm P, ← Nat.div_lt_iff_lt_mul hP]
  omega

theorem pred_mul_div_eq_div (hd : 0 < d) (hP : 0 < P) (hδ : 0 < δ) (hN : 0 < N)
    (h : M * d = P + δ) (hle : N * δ ≤ (d - N % d) * P) : (M * N - 1) / P = N / d := by
  have heq := mul_mul_eq h N
  have hpos : 0 < N * δ := Nat.mul_pos hN hδ
  have hlow : P * (N / d) < M * N :=
    Nat.lt_of_mul_lt_mul_right (a := d) (by omega)
  have hhigh : M * N ≤ P * (N / d + 1) := by
    by_contra hgt
    have hgt' : P * (N / d + 1) * d < M * N * d := Nat.mul_lt_mul_of_pos_right (by omega) hd
    have hnext := next_mul_eq hd (P := P) (N := N)
    omega
  rw [Nat.div_eq_iff hP]
  have hsplit : P * (N / d + 1) = N / d * P + P := by ring
  have hcomm : P * (N / d) = N / d * P := Nat.mul_comm _ _
  constructor <;> omega

theorem mul_succ_div_eq_div (hd : 0 < d) (hr : 0 < r) (h : M * d + r = P)
    (hN : r * (N + 1) ≤ P) : M * (N + 1) / P = N / d := by
  have hP : 0 < P := by omega
  have hlt : N % d < d := Nat.mod_lt N hd
  have heq : M * (N + 1) * d + r * (N + 1) = P * (N / d) * d + P * (N % d + 1) := by
    calc M * (N + 1) * d + r * (N + 1) = (M * d + r) * (N + 1) := by ring
      _ = P * (N + 1) := by rw [h]
      _ = P * (N / d * d + N % d + 1) := by rw [Nat.div_add_mod']
      _ = P * (N / d) * d + P * (N % d + 1) := by ring
  have hone : P ≤ P * (N % d + 1) := Nat.le_mul_of_pos_right P (by omega)
  have hall : P * (N % d + 1) ≤ P * d := Nat.mul_le_mul_left P hlt
  have hpos : 0 < r * (N + 1) := Nat.mul_pos hr (by omega)
  have hlow : P * (N / d) ≤ M * (N + 1) :=
    Nat.le_of_mul_le_mul_right (by omega : P * (N / d) * d ≤ M * (N + 1) * d) hd
  have hhigh : M * (N + 1) < P * (N / d + 1) := by
    apply Nat.lt_of_mul_lt_mul_right (a := d)
    calc M * (N + 1) * d < P * (N / d) * d + P * d := by omega
      _ = P * (N / d + 1) * d := by ring
  rw [Nat.div_eq_iff hP]
  have hsplit : P * (N / d + 1) = N / d * P + P := by ring
  have hcomm : P * (N / d) = N / d * P := Nat.mul_comm _ _
  constructor <;> omega

theorem two_pow_mod_pos (hd : ∀ k, d ≠ 2 ^ k) (p : Nat) : 0 < 2 ^ p % d := by
  apply Nat.pos_of_ne_zero
  intro hzero
  obtain ⟨k, -, hk⟩ := (Nat.dvd_prime_pow Nat.prime_two).1 (Nat.dvd_of_mod_eq_zero hzero)
  exact hd k hk

/-- If the error is small for `K * d - 1`, it is small for every dividend up to `(K + 1) * d` but
    the one that is, like `K * d - 1`, one below a multiple of `d` and lies above it. -/
theorem error_lt {K : Nat} (hd : 3 ≤ d) (hK : 0 < K) (hanc : (K * d - 1) * δ < P)
    (hN : N ≤ (K + 1) * d) (hlast : N % d = d - 1 → N < K * d) : N * δ < (d - N % d) * P := by
  have hlt : N % d < d := Nat.mod_lt N (by omega)
  have hdiv := Nat.div_add_mod' N d
  by_cases hmod : N % d = d - 1
  · have hone : d - N % d = 1 := by omega
    rw [hone, Nat.one_mul]
    calc N * δ ≤ (K * d - 1) * δ := Nat.mul_le_mul_right δ (by have := hlast hmod; omega)
      _ < P := hanc
  · -- the error may now take twice the room, and twice `K * d - 1` is enough
    have hKd : d ≤ K * d := Nat.le_mul_of_pos_left d hK
    have hbound : N ≤ (d - N % d) * (K * d - 1) := by
      obtain ⟨c, hc⟩ : ∃ c, d = N % d + (c + 2) := ⟨d - N % d - 2, by omega⟩
      have hsub : d - N % d = c + 2 := by omega
      have hsum : (c + 2) * (K * d - 1) = c * (K * d - 1) + 2 * (K * d - 1) := by ring
      rw [hsub, hsum]
      by_cases hQ : N / d ≤ K
      · have : N / d * d ≤ K * d := Nat.mul_le_mul_right d hQ
        omega
      · have : (K + 1) * d ≤ N / d * d := Nat.mul_le_mul_right d (by omega)
        have hzero : N % d = 0 := by omega
        have hcd : c = d - 2 := by omega
        have : c * 2 ≤ c * (K * d - 1) := Nat.mul_le_mul_left c (by omega)
        rw [Nat.succ_mul] at hN
        omega
    calc N * δ ≤ (d - N % d) * (K * d - 1) * δ := Nat.mul_le_mul_right δ hbound
      _ = (d - N % d) * ((K * d - 1) * δ) := by ring
      _ < (d - N % d) * P := Nat.mul_lt_mul_of_pos_left hanc (by omega)

theorem ediv_add_sign (x : Int) {P : Nat} (hP : 0 < P) :
    x / P + (if x < 0 then 1 else 0) =
      if x < 0 then -(((x.natAbs - 1) / P : Nat) : Int) else ((x.natAbs / P : Nat) : Int) := by
  have hP' : (0 : Int) < P := by omega
  cases x with
  | ofNat k =>
    have hneg : ¬Int.ofNat k < 0 := Int.not_lt.2 (Int.natCast_nonneg k)
    rw [if_neg hneg, if_neg hneg, Int.add_zero]
    rfl
  | negSucc k =>
    have hneg : Int.negSucc k < 0 := Int.negSucc_lt_zero k
    rw [if_pos hneg, if_pos hneg, Int.negSucc_ediv k hP', Int.natAbs_negSucc,
      Nat.succ_eq_add_one, Nat.add_sub_cancel, Int.natCast_ediv]
    change -((k : Int) / P + 1) + 1 = -((k : Int) / P)
    omega

theorem tdiv_eq_natAbs (n : Int) {d : Int} (hd : d ≠ 0) :
    n.tdiv d = if n * d.sign < 0 then -((n.natAbs / d.natAbs : Nat) : Int)
      else ((n.natAbs / d.natAbs : Nat) : Int) := by
  rcases Int.lt_or_gt_of_ne hd with hlt | hgt
  · obtain ⟨D, rfl⟩ : ∃ D : Nat, d = -(D : Int) := ⟨d.natAbs, by omega⟩
    rw [Int.sign_eq_neg_one_of_neg hlt, Int.tdiv_neg, Int.natAbs_neg, Int.natAbs_natCast]
    by_cases hn : 0 < n
    · obtain ⟨N, rfl⟩ : ∃ N : Nat, n = N := ⟨n.natAbs, by omega⟩
      rw [if_pos (by omega), Int.natAbs_natCast]
      rfl
    · obtain ⟨N, rfl⟩ : ∃ N : Nat, n = -(N : Int) := ⟨n.natAbs, by omega⟩
      rw [if_neg (by omega), Int.neg_tdiv, Int.neg_neg, Int.natAbs_neg, Int.natAbs_natCast]
      rfl
  · obtain ⟨D, rfl⟩ : ∃ D : Nat, d = D := ⟨d.natAbs, by omega⟩
    rw [Int.sign_eq_one_of_pos hgt, Int.natAbs_natCast]
    by_cases hn : n < 0
    · obtain ⟨N, rfl⟩ : ∃ N : Nat, n = -(N : Int) := ⟨n.natAbs, by omega⟩
      rw [if_pos (by omega), Int.neg_tdiv, Int.natAbs_neg, Int.natAbs_natCast]
      rfl
    · obtain ⟨N, rfl⟩ : ∃ N : Nat, n = N := ⟨n.natAbs, by omega⟩
      rw [if_neg (by omega), Int.natAbs_natCast]
      rfl

end DolphinXR.Lib.DivisionByMultiplication
