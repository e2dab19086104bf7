import Mathlib.Data.List.Basic
import Mathlib.Order.Basic

/- Half-open ranges of natural numbers and lists of ranges no two of which
   share a point. `Packed lo hi l` says that `l` is pairwise disjoint and lies
   in `[lo, hi)`: lists packed into consecutive windows append, which is how a
   layout built piece by piece is shown free of overlaps. -/
namespace DolphinXR.Lib

/-- The half-open range `[start, start + size)`. -/
structure Span where
  start : Nat
  size : Nat
  deriving DecidableEq, Repr

namespace Span

def stop (s : Span) : Nat := s.start + s.size

/-- `x` is a point of the range. -/
def Mem (s : Span) (x : Nat) : Prop := s.start ≤ x ∧ x < s.stop

def Disjoint (s t : Span) : Prop := ∀ x, s.Mem x → ¬t.Mem x

theorem disjoint_iff {s t : Span} : s.Disjoint t ↔
    s.size = 0 ∨ t.size = 0 ∨ s.stop ≤ t.start ∨ t.stop ≤ s.start := by
  constructor
  · intro h
    by_contra hne
    apply h (max s.start t.start) <;> unfold Mem stop at * <;> omega
  · intro h x hs ht
    unfold Mem stop at *
    omega

instance (s t : Span) : Decidable (s.Disjoint t) := decidable_of_iff' _ disjoint_iff

/-- The range lies in `[lo, hi)`. -/
def Within (lo hi : Nat) (s : Span) : Prop := lo ≤ s.start ∧ s.stop ≤ hi

theorem Within.mono {lo lo' hi hi' : Nat} {s : Span} (h : s.Within lo hi) (hlo : lo' ≤ lo)
    (hhi : hi ≤ hi') : s.Within lo' hi' :=
  ⟨Nat.le_trans hlo h.1, Nat.le_trans h.2 hhi⟩

theorem Within.disjoint {lo mid hi : Nat} {s t : Span} (hs : s.Within lo mid)
    (ht : t.Within mid hi) : s.Disjoint t :=
  disjoint_iff.2 (Or.inr (Or.inr (Or.inl (Nat.le_trans hs.2 ht.1))))

/-- The ranges are pairwise disjoint and all lie in `[lo, hi)`. -/
def Packed (lo hi : Nat) (l : List Span) : Prop :=
  l.Pairwise Disjoint ∧ ∀ s ∈ l, s.Within lo hi

namespace Packed
variable {lo mid hi : Nat} {l m : List Span}

theorem nil : Packed lo hi [] := ⟨List.Pairwise.nil, by simp⟩

theorem append (hl : Packed lo mid l) (hm : Packed mid hi m) (hlo : lo ≤ mid) (hhi : mid ≤ hi) :
    Packed lo hi (l ++ m) := by
  refine ⟨List.pairwise_append.2 ⟨hl.1, hm.1, ?_⟩, ?_⟩
  · intro s hs t ht
    exact (hl.2 s hs).disjoint (hm.2 t ht)
  · intro s hs
    rcases List.mem_append.1 hs with h | h
    · exact (hl.2 s h).mono (Nat.le_refl _) hhi
    · exact (hm.2 s h).mono hlo (Nat.le_refl _)

end Packed
end Span
end DolphinXR.Lib
