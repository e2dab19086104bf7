import Mathlib.Data.List.Sort

/- Binary heaps kept in a list by the algorithms of a standard library. The layout that
   these leave is not specified, and so they are taken as they are documented: `pushHeap`
   takes the last element into a heap, `popHeap` brings the root to the back, `makeHeap`
   makes a heap of any list, and each only permutes. The first two ask for a heap. -/
namespace DolphinXR.Lib

section Heap
variable {α : Type} (le : α → α → Prop)

def IsHeap (l : List α) : Prop :=
  ∀ i j (hi : i < l.length) (hj : j < l.length), 0 < i → j = (i - 1) / 2 → le l[j] l[i]

structure HeapAlgorithms where
  pushHeap : List α → List α
  popHeap : List α → List α
  makeHeap : List α → List α
  isHeap_pushHeap : ∀ l x, IsHeap le l → IsHeap le (pushHeap (l ++ [x]))
  pushHeap_perm : ∀ l x, IsHeap le l → (pushHeap (l ++ [x])).Perm (l ++ [x])
  popHeap_eq : ∀ x l, IsHeap le (x :: l) →
    ∃ rest, popHeap (x :: l) = rest ++ [x] ∧ IsHeap le rest ∧ rest.Perm l
  isHeap_makeHeap : ∀ l, IsHeap le (makeHeap l)
  makeHeap_perm : ∀ l, (makeHeap l).Perm l

variable {le}

theorem isHeap_nil : IsHeap le ([] : List α) := fun _ _ hi => absurd hi (Nat.not_lt_zero _)

theorem IsHeap.root_le (hrefl : ∀ a, le a a) (htrans : ∀ a b c, le a b → le b c → le a c) {x : α}
    {l : List α} (h : IsHeap le (x :: l)) : ∀ y ∈ x :: l, le x y := by
  have hindex : ∀ i (hi : i < (x :: l).length), le x (x :: l)[i] := by
    intro i
    induction i using Nat.strongRecOn with
    | ind i ih =>
      intro hi
      by_cases hzero : i = 0
      · subst hzero
        exact hrefl x
      · have hparent : (i - 1) / 2 < i := by omega
        exact htrans _ _ _ (ih _ hparent (by omega)) (h i _ hi (by omega) (by omega) rfl)
  intro y hy
  obtain ⟨i, hi, rfl⟩ := List.getElem_of_mem hy
  exact hindex i hi

theorem isHeap_of_pairwise {l : List α} (h : l.Pairwise le) : IsHeap le l := by
  intro i j hi hj hpos hparent
  exact List.pairwise_iff_getElem.1 h _ _ hj hi (by omega)

/-- Sorting does what each of the algorithms has to. -/
def sortingHeap (le : α → α → Bool) (htotal : ∀ a b, (le a b || le b a) = true)
    (htrans : ∀ a b c, le a b = true → le b c = true → le a c = true) :
    HeapAlgorithms (fun a b => le a b = true) :=
  have : Std.Total fun a b => le a b = true := ⟨fun a b => by simpa using htotal a b⟩
  have : IsTrans α fun a b => le a b = true := ⟨htrans⟩
  { pushHeap := fun l => l.insertionSort fun a b => le a b = true
    popHeap := fun l => (l.tail.insertionSort fun a b => le a b = true) ++ l.take 1
    makeHeap := fun l => l.insertionSort fun a b => le a b = true
    isHeap_pushHeap := fun _ _ _ => isHeap_of_pairwise (List.pairwise_insertionSort _ _)
    pushHeap_perm := fun _ _ _ => List.perm_insertionSort _ _
    popHeap_eq := fun _ l _ => ⟨l.insertionSort fun a b => le a b = true, rfl,
      isHeap_of_pairwise (List.pairwise_insertionSort _ _), List.perm_insertionSort _ _⟩
    isHeap_makeHeap := fun _ => isHeap_of_pairwise (List.pairwise_insertionSort _ _)
    makeHeap_perm := fun _ => List.perm_insertionSort _ _ }

end Heap
end DolphinXR.Lib
