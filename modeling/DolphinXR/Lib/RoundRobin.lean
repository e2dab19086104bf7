import Mathlib.Data.List.Basic
import Mathlib.Data.List.Induction
import Mathlib.Tactic.Ring

/- Dealing a list round to `n` hands: hand `k` gets the elements at the positions
   `k`, `k + n`, `k + 2 * n` and so on. Adding an element at the end adds it to
   one hand; element `m` of hand `k` is element `k + m * n` of the list, so that
   a list can be checked hand by hand; and the sizes of the hands differ by one
   at most. -/
namespace DolphinXR.Lib
variable {α β : Type}

/-- What hand `k` of `n` gets of `l`. -/
def hand (n k : Nat) (l : List α) : List α :=
  (l.zipIdx.filter fun x => decide (x.2 % n = k)).map Prod.fst

/-- How many of `count` elements hand `k` of `n` gets. -/
def handSize (n k count : Nat) : Nat := (count + (n - 1 - k)) / n

@[simp] theorem hand_nil (n k : Nat) : hand n k ([] : List α) = [] := rfl

theorem hand_append_singleton (n k : Nat) (l : List α) (a : α) :
    hand n k (l ++ [a]) = hand n k l ++ if l.length % n = k then [a] else [] := by
  unfold hand
  rw [List.zipIdx_append, List.filter_append, List.map_append]
  congr 1
  by_cases h : l.length % n = k <;> simp [h]

theorem hand_append_self {n k : Nat} {l : List α} (h : l.length % n = k) (a : α) :
    hand n k (l ++ [a]) = hand n k l ++ [a] := by
  rw [hand_append_singleton, if_pos h]

theorem hand_append_other {n k : Nat} {l : List α} (h : l.length % n ≠ k) (a : α) :
    hand n k (l ++ [a]) = hand n k l := by
  rw [hand_append_singleton, if_neg h, List.append_nil]

theorem handSize_succ {n k count : Nat} (hk : k < n) :
    handSize n k (count + 1) = handSize n k count + if count % n = k then 1 else 0 := by
  have hn : 0 < n := by omega
  obtain ⟨q, r, hr, rfl⟩ : ∃ q r, r < n ∧ count = n * q + r :=
    ⟨count / n, count % n, Nat.mod_lt _ hn, (Nat.div_add_mod count n).symm⟩
  have hmod : (n * q + r) % n = r := by rw [Nat.mul_add_mod, Nat.mod_eq_of_lt hr]
  have hstep : (r + 1 + (n - 1 - k)) / n = (r + (n - 1 - k)) / n + if r = k then 1 else 0 := by
    rcases Nat.lt_trichotomy r k with hlt | rfl | hgt
    · rw [if_neg (by omega), Nat.div_eq_of_lt (by omega), Nat.div_eq_of_lt (by omega)]
    · rw [if_pos rfl, show r + 1 + (n - 1 - r) = n by omega, Nat.div_self hn,
        Nat.div_eq_of_lt (by omega)]
    · rw [if_neg (by omega), Nat.add_zero, Nat.div_eq_of_lt_le (k := 1) (by omega) (by omega),
        Nat.div_eq_of_lt_le (k := 1) (by omega) (by omega)]
  unfold handSize
  rw [hmod, show n * q + r + 1 + (n - 1 - k) = n * q + (r + 1 + (n - 1 - k)) by omega,
    show n * q + r + (n - 1 - k) = n * q + (r + (n - 1 - k)) by omega,
    Nat.mul_add_div hn, Nat.mul_add_div hn, hstep, Nat.add_assoc]

theorem length_hand {n k : Nat} (hk : k < n) (l : List α) :
    (hand n k l).length = handSize n k l.length := by
  induction l using List.reverseRecOn with
  | nil =>
    rw [hand_nil, List.length_nil, handSize, Nat.div_eq_of_lt (by omega)]
  | append_singleton l a ih =>
    rw [hand_append_singleton, List.length_append, List.length_append, List.length_singleton,
      handSize_succ hk, ih]
    split <;> rfl

theorem handSize_of_lt {n k count : Nat} (hn : 0 < n) (hk : k < count % n) :
    handSize n k count = count / n + 1 := by
  have hlt := Nat.mod_lt count hn
  have hdiv := Nat.div_add_mod count n
  unfold handSize
  conv_lhs => rw [← hdiv]
  rw [Nat.add_assoc, Nat.mul_add_div hn, show (count % n + (n - 1 - k)) / n = 1 from
    Nat.div_eq_of_lt_le (by omega) (by omega)]

theorem handSize_of_ge {n k count : Nat} (hk : k < n) (hge : count % n ≤ k) :
    handSize n k count = count / n := by
  have hn : 0 < n := by omega
  have hlt := Nat.mod_lt count hn
  have hdiv := Nat.div_add_mod count n
  unfold handSize
  conv_lhs => rw [← hdiv]
  rw [Nat.add_assoc, Nat.mul_add_div hn,
    Nat.div_eq_of_lt (show count % n + (n - 1 - k) < n by omega), Nat.add_zero]

theorem handSize_mod (n i : Nat) (hn : 0 < n) : handSize n (i % n) i = i / n :=
  handSize_of_ge (Nat.mod_lt i hn) (Nat.le_refl _)

theorem handSize_balanced {n i j : Nat} (count : Nat) (hij : i < j) (hj : j < n) :
    handSize n j count ≤ handSize n i count ∧ handSize n i count ≤ handSize n j count + 1 := by
  unfold handSize
  have hle : count + (n - 1 - i) ≤ count + (n - 1 - j) + n := by omega
  have hstep := Nat.div_le_div_right (c := n) hle
  rw [Nat.add_div_right _ (by omega)] at hstep
  exact ⟨Nat.div_le_div_right (by omega), hstep⟩

theorem getElem?_hand {n k : Nat} (hk : k < n) (l : List α) (m : Nat) :
    (hand n k l)[m]? = l[k + m * n]? := by
  have hn : 0 < n := by omega
  induction l using List.reverseRecOn with
  | nil => simp
  | append_singleton l a ih =>
    rw [hand_append_singleton]
    by_cases hl : l.length % n = k
    · rw [if_pos hl]
      have hlen : (hand n k l).length = l.length / n := by
        rw [length_hand hk, ← hl, handSize_mod _ _ hn]
      have hdiv := Nat.div_add_mod l.length n
      rw [hl] at hdiv
      rcases Nat.lt_trichotomy m (l.length / n) with hlt | rfl | hgt
      · have : (m + 1) * n ≤ l.length / n * n := Nat.mul_le_mul_right _ hlt
        rw [Nat.add_mul, Nat.one_mul, Nat.mul_comm (l.length / n)] at this
        rw [List.getElem?_append_left (by omega), ih, List.getElem?_append_left (by omega)]
      · have hpos : k + l.length / n * n = l.length := by rw [Nat.mul_comm]; omega
        rw [hpos, ← hlen, List.getElem?_concat_length, List.getElem?_concat_length]
      · have : (l.length / n + 1) * n ≤ m * n := Nat.mul_le_mul_right _ hgt
        rw [Nat.add_mul, Nat.one_mul, Nat.mul_comm (l.length / n)] at this
        rw [List.getElem?_eq_none (by simp; omega), List.getElem?_eq_none (by simp; omega)]
    · rw [if_neg hl, List.append_nil, ih]
      have hne : k + m * n ≠ l.length := by
        intro h
        rw [← h, Nat.add_mul_mod_self_right, Nat.mod_eq_of_lt hk] at hl
        exact hl rfl
      rcases Nat.lt_or_ge (k + m * n) l.length with hlt | hge
      · rw [List.getElem?_append_left hlt]
      · rw [List.getElem?_eq_none hge, List.getElem?_eq_none (by simp; omega)]

theorem getElem?_eq_hand {n : Nat} (hn : 0 < n) (l : List α) (i : Nat) :
    l[i]? = (hand n (i % n) l)[i / n]? := by
  rw [getElem?_hand (Nat.mod_lt i hn), Nat.mul_comm, Nat.mod_add_div]

/-- Where a partial function has a result on every element up to `m`, its results up to there
    are at the places of their elements. -/
theorem filterMap_getElem? {f : α → Option β} : ∀ {l : List α} {m : Nat},
    (∀ i ≤ m, ∀ x, l[i]? = some x → (f x).isSome) → (l.filterMap f)[m]? = l[m]?.bind f
  | [], m, _ => by simp
  | x :: l, m, h => by
    obtain ⟨r, hr⟩ := Option.isSome_iff_exists.1 (h 0 (Nat.zero_le m) x rfl)
    rw [List.filterMap_cons_some hr]
    cases m with
    | zero => exact hr.symm
    | succ m =>
      rw [List.getElem?_cons_succ, List.getElem?_cons_succ]
      exact filterMap_getElem? fun i hi y hy => h (i + 1) (by omega) y (by simpa using hy)

end DolphinXR.Lib
