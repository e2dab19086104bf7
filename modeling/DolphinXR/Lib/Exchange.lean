import Mathlib.Data.List.Nodup

/- Exchanging values with the cells of a store: what stood in a cell is kept where the new value
   was. An exchange done twice is undone, exchanges of different cells do not notice each other,
   and a stack of exchanges is undone from its top, or from any place whose cells nothing above it
   has. -/
namespace DolphinXR.Lib

section
variable {κ β : Type} [DecidableEq κ]

/-- The values are written one after the other; a value without a cell is lost for `d`. -/
def exchange (d : β) : List (Option κ × β) → (κ → β) → List (Option κ × β) × (κ → β)
  | [], m => ([], m)
  | (none, _) :: rest, m =>
    let r := exchange d rest m
    ((none, d) :: r.1, r.2)
  | (some c, v) :: rest, m =>
    let r := exchange d rest (Function.update m c v)
    ((some c, m c) :: r.1, r.2)

def cells (l : List (Option κ × β)) : List κ := l.filterMap Prod.fst

theorem cells_exchange (d : β) (l : List (Option κ × β)) (m : κ → β) :
    cells (exchange d l m).1 = cells l := by
  induction l generalizing m with
  | nil => rfl
  | cons x rest ih =>
    obtain ⟨_ | c, v⟩ := x
    · simpa [exchange, cells] using ih m
    · simpa [exchange, cells] using ih (Function.update m c v)

theorem exchange_of_not_mem (d : β) {l : List (Option κ × β)} {c : κ} (h : c ∉ cells l)
    (m : κ → β) : (exchange d l m).2 c = m c := by
  induction l generalizing m with
  | nil => rfl
  | cons x rest ih =>
    obtain ⟨_ | b, v⟩ := x
    · exact ih (by simpa [cells] using h) m
    · have hne : c ≠ b ∧ c ∉ cells rest := by simpa [cells] using h
      show (exchange d rest (Function.update m b v)).2 c = m c
      rw [ih hne.2, Function.update_of_ne hne.1]

theorem exchange_update (d : β) {l : List (Option κ × β)} {c : κ} (h : c ∉ cells l) (m : κ → β)
    (v : β) : exchange d l (Function.update m c v) =
      ((exchange d l m).1, Function.update (exchange d l m).2 c v) := by
  induction l generalizing m with
  | nil => rfl
  | cons x rest ih =>
    obtain ⟨_ | b, w⟩ := x
    · simp only [exchange, ih (by simpa [cells] using h)]
    · have hne : c ≠ b ∧ c ∉ cells rest := by simpa [cells] using h
      simp only [exchange]
      rw [Function.update_comm hne.1, ih hne.2, Function.update_of_ne hne.1.symm]

theorem exchange_exchange (d : β) {l : List (Option κ × β)} (h : (cells l).Nodup) (m : κ → β) :
    (exchange d (exchange d l m).1 (exchange d l m).2).2 = m := by
  induction l generalizing m with
  | nil => rfl
  | cons x rest ih =>
    obtain ⟨_ | c, v⟩ := x
    · exact ih (by simpa [cells] using h) m
    · have hnodup : c ∉ cells rest ∧ (cells rest).Nodup := by simpa [cells] using h
      have hout : c ∉ cells (exchange d rest (Function.update m c v)).1 := by
        rw [cells_exchange]
        exact hnodup.1
      simp only [exchange]
      rw [exchange_update d hout, ih hnodup.2, Function.update_idem, Function.update_eq_self]

theorem exchange_comm (d : β) {l l' : List (Option κ × β)} (h : List.Disjoint (cells l) (cells l'))
    (m : κ → β) : (exchange d l' (exchange d l m).2).1 = (exchange d l' m).1 ∧
      (exchange d l' (exchange d l m).2).2 = (exchange d l (exchange d l' m).2).2 := by
  induction l generalizing m with
  | nil => exact ⟨rfl, rfl⟩
  | cons x rest ih =>
    obtain ⟨_ | c, v⟩ := x
    · exact ih (by simpa [cells] using h) m
    · have hout : c ∉ cells l' ∧ List.Disjoint (cells rest) (cells l') := by
        simpa [cells] using h
      obtain ⟨hkept, hsame⟩ := ih hout.2 (Function.update m c v)
      simp only [exchange]
      rw [hkept, hsame, exchange_update d hout.1]
      exact ⟨rfl, rfl⟩

def undone (d : β) : List (List (Option κ × β)) → (κ → β) → (κ → β)
  | [], m => m
  | l :: rest, m => undone d rest (exchange d l m).2

theorem undone_push (d : β) {l : List (Option κ × β)} (h : (cells l).Nodup)
    (stack : List (List (Option κ × β))) (m : κ → β) :
    undone d ((exchange d l m).1 :: stack) (exchange d l m).2 = undone d stack m := by
  simp only [undone]
  rw [exchange_exchange d h]

theorem undone_remove (d : β) {l : List (Option κ × β)} {above : List (List (Option κ × β))}
    (h : ∀ l' ∈ above, List.Disjoint (cells l) (cells l')) (below : List (List (Option κ × β)))
    (m : κ → β) :
    undone d (above ++ l :: below) m = undone d (above ++ below) (exchange d l m).2 := by
  induction above generalizing m with
  | nil => rfl
  | cons l' rest ih =>
    have hhead := h l' List.mem_cons_self
    have htail := ih fun x hx => h x (List.mem_cons_of_mem l' hx)
    simp only [List.cons_append, undone]
    rw [htail, (exchange_comm d hhead m).2]

end
end DolphinXR.Lib
