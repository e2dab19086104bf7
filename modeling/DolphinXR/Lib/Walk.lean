import Mathlib.Data.List.Nodup

/- Walks along a successor function, as through a linked list or a block map: from an
   element to the next, until one that stops. A walk is unique and visits nothing twice,
   since it ends; and it lives on when the successors change elsewhere, when some are
   taken away and when free ends are led on. -/
namespace DolphinXR.Lib
variable {α : Type} {next next' : α → α} {stop : α → Prop}

/-- From `a`, one visits `l` and comes to `b`, which stops. -/
inductive Walk (next : α → α) (stop : α → Prop) : α → List α → α → Prop where
  | nil {b : α} : stop b → Walk next stop b [] b
  | cons {a : α} {l : List α} {b : α} : ¬stop a → Walk next stop (next a) l b →
    Walk next stop a (a :: l) b

namespace Walk
variable {a b b' : α} {l l' : List α}

theorem stop_end (h : Walk next stop a l b) : stop b := by
  induction h with
  | nil h => exact h
  | cons _ _ ih => exact ih

theorem eq_of_nil (h : Walk next stop a [] b) : a = b := by
  cases h
  rfl

theorem not_stop (h : Walk next stop a l b) : ∀ x ∈ l, ¬stop x := by
  induction h with
  | nil => exact fun x hx => absurd hx List.not_mem_nil
  | cons ha _ ih =>
    intro x hx
    rcases List.mem_cons.1 hx with rfl | hx
    · exact ha
    · exact ih x hx

theorem unique (h : Walk next stop a l b) (h' : Walk next stop a l' b') : l = l' ∧ b = b' := by
  induction h generalizing l' with
  | nil hstop =>
    cases h' with
    | nil => exact ⟨rfl, rfl⟩
    | cons hnot => exact absurd hstop hnot
  | cons hnot _ ih =>
    cases h' with
    | nil hstop => exact absurd hstop hnot
    | cons _ hrest =>
      obtain ⟨hl, hb⟩ := ih hrest
      exact ⟨congrArg _ hl, hb⟩

theorem next_mem (h : Walk next stop a l b) : ∀ x ∈ l, next x ∈ l ∨ next x = b := by
  induction h with
  | nil => exact fun x hx => absurd hx List.not_mem_nil
  | @cons a l b _ hrest ih =>
    intro x hx
    rcases List.mem_cons.1 hx with rfl | hx
    · cases hrest with
      | nil => exact .inr rfl
      | cons => exact .inl (List.mem_cons_of_mem _ (List.mem_cons_self ..))
    · exact (ih x hx).imp_left (List.mem_cons_of_mem _)

theorem next_mem_of_dropLast (h : Walk next stop a l b) : ∀ x ∈ l.dropLast, next x ∈ l := by
  induction h with
  | nil => exact fun x hx => absurd hx List.not_mem_nil
  | @cons a l b _ hrest ih =>
    intro x hx
    cases hrest with
    | nil => exact absurd hx List.not_mem_nil
    | cons =>
      rw [List.dropLast_cons_of_ne_nil (List.cons_ne_nil _ _)] at hx
      rcases List.mem_cons.1 hx with rfl | hx
      · exact List.mem_cons_of_mem _ (List.mem_cons_self ..)
      · exact List.mem_cons_of_mem _ (ih x hx)

theorem exists_from (h : Walk next stop a l b) : ∀ x ∈ l, ∃ l', l' <:+ l ∧ Walk next stop x l' b := by
  induction h with
  | nil => exact fun x hx => absurd hx List.not_mem_nil
  | cons hnot hrest ih =>
    intro x hx
    rcases List.mem_cons.1 hx with rfl | hx
    · exact ⟨_, List.suffix_refl _, .cons hnot hrest⟩
    · obtain ⟨l', hsuffix, hwalk⟩ := ih x hx
      exact ⟨l', hsuffix.trans (List.suffix_cons ..), hwalk⟩

theorem nodup (h : Walk next stop a l b) : l.Nodup := by
  induction h with
  | nil => exact List.nodup_nil
  | @cons a l b hnot hrest ih =>
    refine List.nodup_cons.2 ⟨fun hmem => ?_, ih⟩
    obtain ⟨l', hsuffix, hagain⟩ := hrest.exists_from _ hmem
    have heq := (hagain.unique (.cons hnot hrest)).1
    have hle := hsuffix.length_le
    rw [heq, List.length_cons] at hle
    omega

theorem congr (h : Walk next stop a l b) (hsame : ∀ x ∈ l, next' x = next x) :
    Walk next' stop a l b := by
  induction h with
  | nil hstop => exact .nil hstop
  | cons hnot _ ih =>
    refine .cons hnot ?_
    rw [hsame _ (List.mem_cons_self ..)]
    exact ih fun x hx => hsame x (List.mem_cons_of_mem _ hx)

theorem exists_of_cut (h : Walk next stop a l b)
    (hcut : ∀ x, next' x = next x ∨ stop (next' x)) :
    ∃ l' b', Walk next' stop a l' b' ∧ l' <+: l := by
  induction h with
  | nil hstop => exact ⟨[], _, .nil hstop, List.prefix_refl _⟩
  | @cons a l b hnot _ ih =>
    obtain ⟨l', b', hwalk, hstarts⟩ := ih
    rcases hcut a with hsame | hstop
    · exact ⟨a :: l', b', .cons hnot (by rwa [hsame]), List.cons_prefix_cons.2 ⟨rfl, hstarts⟩⟩
    · exact ⟨[a], next' a, .cons hnot (.nil hstop), List.cons_prefix_cons.2 ⟨rfl, List.nil_prefix⟩⟩

/-- If only successors that stop have changed, and there the walk now goes on through elements of
    a kind, it visits what it has visited and elements of this kind. -/
theorem exists_of_extend {P : α → Prop} (h : Walk next stop a l b)
    (hextend : ∀ x, next' x = next x ∨
      ∃ l' b', Walk next' stop x l' b' ∧ ∀ y ∈ l', P y) :
    ∃ l' b', Walk next' stop a l' b' ∧ ∀ y ∈ l', y ∈ l ∨ P y := by
  induction h with
  | nil hstop => exact ⟨[], _, .nil hstop, fun y hy => absurd hy List.not_mem_nil⟩
  | @cons a l b hnot _ ih =>
    rcases hextend a with hsame | ⟨l', b', hwalk, hkind⟩
    · obtain ⟨l', b', hwalk, hmem⟩ := ih
      refine ⟨a :: l', b', .cons hnot (by rwa [hsame]), fun y hy => ?_⟩
      rcases List.mem_cons.1 hy with rfl | hy
      · exact .inl (List.mem_cons_self ..)
      · exact (hmem y hy).imp_left (List.mem_cons_of_mem _)
    · exact ⟨l', b', hwalk, fun y hy => .inr (hkind y hy)⟩

end Walk
end DolphinXR.Lib
