import Mathlib.Data.List.Nodup
import Mathlib.Data.List.TakeWhile

/- A list whose elements are told apart by a key, taken apart at one of them: looking for its key
   finds it, with what is before it and what is behind it. -/
namespace DolphinXR.Lib.KeyedList
variable {α κ : Type} {key : α → κ} {l r : List α} {a : α}

theorem ne_of_nodup (h : ((l ++ a :: r).map key).Nodup) :
    (∀ x ∈ l, key x ≠ key a) ∧ ∀ x ∈ r, key x ≠ key a := by
  rw [List.map_append, List.map_cons, List.nodup_middle, List.nodup_cons, List.mem_append] at h
  constructor
  · intro x hx heq
    exact h.1 (.inl (heq ▸ List.mem_map_of_mem hx))
  · intro x hx heq
    exact h.1 (.inr (heq ▸ List.mem_map_of_mem hx))

variable [DecidableEq κ]

theorem find_key (h : ((l ++ a :: r).map key).Nodup) :
    (l ++ a :: r).find? (fun x => key x = key a) = some a := by
  have hl : l.find? (fun x => key x = key a) = none :=
    List.find?_eq_none.2 fun x hx => by simpa using (ne_of_nodup h).1 x hx
  rw [List.find?_append, hl, Option.none_or, List.find?_cons_of_pos (by simp)]

theorem takeWhile_key (h : ((l ++ a :: r).map key).Nodup) :
    (l ++ a :: r).takeWhile (fun x => key x ≠ key a) = l := by
  rw [List.takeWhile_append_of_pos fun x hx => by simpa using (ne_of_nodup h).1 x hx,
    List.takeWhile_cons_of_neg (by simp), List.append_nil]

theorem dropWhile_key (h : ((l ++ a :: r).map key).Nodup) :
    (l ++ a :: r).dropWhile (fun x => key x ≠ key a) = a :: r := by
  rw [List.dropWhile_append_of_pos fun x hx => by simpa using (ne_of_nodup h).1 x hx,
    List.dropWhile_cons_of_neg (by simp)]

theorem filter_key (h : ((l ++ a :: r).map key).Nodup) :
    (l ++ a :: r).filter (fun x => key x ≠ key a) = l ++ r := by
  rw [List.filter_append, List.filter_cons_of_neg (by simp),
    List.filter_eq_self.2 fun x hx => by simpa using (ne_of_nodup h).1 x hx,
    List.filter_eq_self.2 fun x hx => by simpa using (ne_of_nodup h).2 x hx]

theorem map_key (h : ((l ++ a :: r).map key).Nodup) (f : α → α) :
    (l ++ a :: r).map (fun x => if key x = key a then f x else x) = l ++ f a :: r := by
  have hl : ∀ x ∈ l, (if key x = key a then f x else x) = id x := fun x hx =>
    if_neg ((ne_of_nodup h).1 x hx)
  have hr : ∀ x ∈ r, (if key x = key a then f x else x) = id x := fun x hx =>
    if_neg ((ne_of_nodup h).2 x hx)
  rw [List.map_append, List.map_cons, if_pos rfl, List.map_congr_left hl, List.map_congr_left hr,
    List.map_id, List.map_id]

omit [DecidableEq κ]

theorem takeWhile_append_of_stop {p : α → Bool} (hl : ∀ x ∈ l, p x) (hr : ∀ x ∈ r, ¬p x) :
    (l ++ r).takeWhile p = l := by
  cases r with
  | nil => rw [List.append_nil, List.takeWhile_eq_self_iff.2 hl]
  | cons x r =>
    rw [List.takeWhile_append_of_pos hl, List.takeWhile_cons_of_neg (hr x List.mem_cons_self),
      List.append_nil]

theorem dropWhile_append_of_stop {p : α → Bool} (hl : ∀ x ∈ l, p x) (hr : ∀ x ∈ r, ¬p x) :
    (l ++ r).dropWhile p = r := by
  cases r with
  | nil => rw [List.append_nil, List.dropWhile_eq_nil_iff.2 hl]
  | cons x r =>
    rw [List.dropWhile_append_of_pos hl, List.dropWhile_cons_of_neg (hr x List.mem_cons_self)]

theorem find_append_of_stop {p : α → Bool} (hl : ∀ x ∈ l, ¬p x) (hr : ∀ x ∈ r, p x) :
    (l ++ r).find? p = r.head? := by
  rw [List.find?_append, List.find?_eq_none.2 hl, Option.none_or]
  cases r with
  | nil => rfl
  | cons x r => exact List.find?_cons_of_pos (hr x List.mem_cons_self)

theorem exists_split {p : α → Prop} [DecidablePred p]
    (h : l.Pairwise fun x y => p y → p x) :
    ∃ a b, l = a ++ b ∧ (∀ x ∈ a, p x) ∧ ∀ x ∈ b, ¬p x := by
  induction l with
  | nil => exact ⟨[], [], rfl, by simp, by simp⟩
  | cons x l ih =>
    obtain ⟨hx, hl⟩ := List.pairwise_cons.1 h
    by_cases hp : p x
    · obtain ⟨a, b, rfl, ha, hb⟩ := ih hl
      refine ⟨x :: a, b, rfl, ?_, hb⟩
      intro y hy
      rcases List.mem_cons.1 hy with rfl | hy
      · exact hp
      · exact ha y hy
    · refine ⟨[], x :: l, rfl, by simp, ?_⟩
      intro y hy hpy
      rcases List.mem_cons.1 hy with rfl | hy
      · exact hp hpy
      · exact hp (hx y hy hpy)

end DolphinXR.Lib.KeyedList
