import Mathlib.Data.List.Basic

/- The first place of a pattern in a list, and what further elements change of it. -/
namespace DolphinXR.Lib.Search
variable {α : Type} [DecidableEq α] {pattern l : List α} {e : Nat}

def find (pattern : List α) : List α → Option Nat
  | [] => if pattern = [] then some 0 else none
  | a :: l => if pattern <+: a :: l then some 0 else (find pattern l).map (· + 1)

theorem add_length_le_of_find (h : find pattern l = some e) : e + pattern.length ≤ l.length := by
  induction l generalizing e with
  | nil =>
    rw [find] at h
    split at h
    · rename_i hnil
      cases h
      exact Nat.le_of_eq ((Nat.zero_add _).trans (congrArg List.length hnil))
    · cases h
  | cons a l ih =>
    rw [find] at h
    split at h
    · rename_i hstarts
      cases h
      rw [Nat.zero_add]
      exact hstarts.length_le
    · obtain ⟨e', he', rfl⟩ := Option.map_eq_some_iff.1 h
      have hle := ih he'
      rw [List.length_cons]
      omega

theorem find_append (h : find pattern l = some e) (more : List α) :
    find pattern (l ++ more) = some e := by
  induction l generalizing e with
  | nil =>
    rw [find] at h
    split at h
    · rename_i hnil
      cases h
      subst hnil
      cases more with
      | nil => rfl
      | cons a more => exact if_pos (List.nil_prefix ..)
    · cases h
  | cons a l ih =>
    rw [find] at h
    rw [List.cons_append, find]
    split at h
    · rename_i hstarts
      have hmore : pattern <+: a :: (l ++ more) :=
        hstarts.trans (List.prefix_append (a :: l) more)
      rw [if_pos hmore]
      exact h
    · rename_i hstarts
      obtain ⟨e', he', rfl⟩ := Option.map_eq_some_iff.1 h
      have hle := add_length_le_of_find he'
      have hnot : ¬pattern <+: a :: (l ++ more) := by
        intro hmore
        refine hstarts (List.prefix_of_prefix_length_le hmore (List.prefix_append (a :: l) more) ?_)
        rw [List.length_cons]
        omega
      rw [if_neg hnot, ih he']
      rfl

theorem length_lt_of_find_append {more : List α} (hnone : find pattern l = none)
    (h : find pattern (l ++ more) = some e) : l.length < e + pattern.length := by
  induction l generalizing e with
  | nil =>
    rw [find] at hnone
    split at hnone
    · cases hnone
    · rename_i hne
      exact Nat.lt_of_lt_of_le (List.length_pos_iff.2 hne) (Nat.le_add_left _ _)
  | cons a l ih =>
    rw [find] at hnone
    split at hnone
    · cases hnone
    rename_i hstarts
    rw [List.cons_append, find] at h
    split at h
    · rename_i hmore
      cases h
      by_contra hlt
      refine hstarts (List.prefix_of_prefix_length_le hmore (List.prefix_append (a :: l) more) ?_)
      omega
    · obtain ⟨e', he', rfl⟩ := Option.map_eq_some_iff.1 h
      have hlt := ih (Option.map_eq_none_iff.1 hnone) he'
      rw [List.length_cons]
      omega

theorem find_of_append {more : List α} (h : find pattern (l ++ more) = some e)
    (hle : e + pattern.length ≤ l.length) : find pattern l = some e := by
  cases hfind : find pattern l with
  | none => exact absurd (length_lt_of_find_append hfind h) (Nat.not_lt.2 hle)
  | some e' => exact (find_append hfind more).symm.trans h

theorem find_append_of_not_mem {a : α} {before : List α} (h : a ∉ before) (rest : List α) :
    find (a :: pattern) (before ++ rest) =
      (find (a :: pattern) rest).map (· + before.length) := by
  induction before with
  | nil => simp
  | cons b before ih =>
    rw [List.mem_cons, not_or] at h
    obtain ⟨hb, hbefore⟩ := h
    have hstarts : ¬a :: pattern <+: b :: (before ++ rest) :=
      fun hstarts => hb (List.cons_prefix_cons.1 hstarts).1
    rw [List.cons_append, find, if_neg hstarts, ih hbefore, Option.map_map, List.length_cons]
    rfl

end DolphinXR.Lib.Search
