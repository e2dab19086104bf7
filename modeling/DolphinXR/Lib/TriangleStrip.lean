import Mathlib.Data.List.Perm.Basic

/- How a list of indices is read as triangles: three by three, or as strips cut at one index that
   stands for none. A strip turns every other of its triangles around, so that all of them wind the
   same way; triangles are compared up to rotation, which keeps the winding, or by their corners
   alone. -/
namespace DolphinXR.Lib

section Triangles
variable {α : Type}

structure Triangle (α : Type) where
  a : α
  b : α
  c : α
  deriving DecidableEq

namespace Triangle

def rotate (t : Triangle α) : Triangle α := ⟨t.b, t.c, t.a⟩

def corners (t : Triangle α) : List α := [t.a, t.b, t.c]

def Rotated (s t : Triangle α) : Prop := s = t ∨ s = t.rotate ∨ s = t.rotate.rotate

def SameCorners (s t : Triangle α) : Prop := s.corners.Perm t.corners

def Nondegenerate (t : Triangle α) : Prop := t.corners.Nodup

def Kept (s t : Triangle α) : Prop := s.Rotated t ∧ t.Nondegenerate

def KeptCorners (s t : Triangle α) : Prop := s.SameCorners t ∧ t.Nondegenerate

end Triangle

def triangleList : List α → List (Triangle α)
  | a :: b :: c :: rest => ⟨a, b, c⟩ :: triangleList rest
  | _ => []

/-- The triangles of a strip, of which the first is turned around when `odd` is set. -/
def strip : Bool → List α → List (Triangle α)
  | odd, a :: b :: c :: rest =>
    (if odd then ⟨a, c, b⟩ else ⟨a, b, c⟩) :: strip (!odd) (b :: c :: rest)
  | _, _ => []

def strips [BEq α] (cut : α) (indices : List α) : List (Triangle α) :=
  (indices.splitOn cut).flatMap (strip false)

theorem length_strip (odd : Bool) (indices : List α) :
    (strip odd indices).length = indices.length - 2 := by
  induction indices generalizing odd with
  | nil => rfl
  | cons a rest ih =>
    rcases rest with _ | ⟨b, _ | ⟨c, rest⟩⟩
    · rfl
    · rfl
    · simp only [strip, List.length_cons, ih]
      omega

theorem length_triangleList : ∀ indices : List α, (triangleList indices).length = indices.length / 3
  | [] | [_] | [_, _] => by simp [triangleList]
  | _ :: _ :: _ :: rest => by
    simp only [triangleList, List.length_cons, length_triangleList rest]
    omega

theorem triangleList_append : ∀ {l : List α} (rest : List α), l.length % 3 = 0 →
    triangleList (l ++ rest) = triangleList l ++ triangleList rest
  | [], _, _ => rfl
  | [_], _, h | [_, _], _, h => by simp at h
  | _ :: _ :: _ :: l, rest, h => by
    have hl : l.length % 3 = 0 := by simp only [List.length_cons] at h; omega
    simp only [List.cons_append, triangleList, triangleList_append rest hl]

variable [BEq α]

@[simp] theorem strips_nil (cut : α) : strips cut ([] : List α) = [] := by
  simp [strips, strip]

theorem strips_append_cut [LawfulBEq α] (cut : α) (l rest : List α) :
    strips cut (l ++ cut :: rest) = strips cut l ++ strips cut rest := by
  simp only [strips, List.splitOn_append_cons_self, List.flatMap_append]

theorem strips_of_not_mem [LawfulBEq α] {cut : α} {l : List α} (h : cut ∉ l) : strips cut l = strip false l := by
  simp only [strips, List.splitOn_eq_singleton h, List.flatMap_cons, List.flatMap_nil,
    List.append_nil]

/-- Strips that end with a cut hold the triangles of a list, one by one in the relation. -/
structure SameTriangles (R : Triangle α → Triangle α → Prop) (cut : α) (r l : List α) : Prop where
  ends : r = [] ∨ ∃ r', r = r' ++ [cut]
  whole : l.length % 3 = 0
  same : List.Forall₂ R (strips cut r) (triangleList l)

namespace SameTriangles
variable {R : Triangle α → Triangle α → Prop} {cut : α} {r l r' l' : List α}

theorem nil : SameTriangles R cut [] [] := ⟨.inl rfl, rfl, by simp [triangleList]⟩

theorem append [LawfulBEq α] (h : SameTriangles R cut r l) (h' : SameTriangles R cut r' l') :
    SameTriangles R cut (r ++ r') (l ++ l') := by
  have hstrips : strips cut (r ++ r') = strips cut r ++ strips cut r' := by
    obtain rfl | ⟨s, rfl⟩ := h.ends
    · simp
    · rw [List.append_assoc, List.singleton_append, strips_append_cut, strips_append_cut,
        strips_nil, List.append_nil]
  refine ⟨?_, by simp [Nat.add_mod, h.whole, h'.whole], ?_⟩
  · obtain rfl | ⟨s, rfl⟩ := h'.ends
    · simpa using h.ends
    · exact .inr ⟨r ++ s, (List.append_assoc ..).symm⟩
  · rw [hstrips, triangleList_append _ h.whole]
    exact List.rel_append h.same h'.same

theorem of_strip [LawfulBEq α] (hcut : cut ∉ r) (hwhole : l.length % 3 = 0)
    (h : List.Forall₂ R (strip false r) (triangleList l)) :
    SameTriangles R cut (r ++ [cut]) l := by
  refine ⟨.inr ⟨r, rfl⟩, hwhole, ?_⟩
  rwa [strips_append_cut, strips_of_not_mem hcut, strips_nil, List.append_nil]

theorem of_triangle [LawfulBEq α] {a b c : α} (h : [a, b, c, cut].Nodup) :
    SameTriangles Triangle.Kept cut [a, b, c, cut] [a, b, c] := by
  refine of_strip (r := [a, b, c]) ?_ (by simp) ?_
  · simp_all [eq_comm]
  · simp_all [strip, triangleList, Triangle.Kept, Triangle.Rotated, Triangle.Nondegenerate,
      Triangle.corners]

theorem of_fanTwo [LawfulBEq α] {o a b c : α} (h : [o, a, b, c, cut].Nodup) :
    SameTriangles Triangle.Kept cut [a, b, o, c, cut] [o, a, b, o, b, c] := by
  refine of_strip (r := [a, b, o, c]) ?_ (by simp) ?_
  · simp_all [eq_comm]
  · simp_all [strip, triangleList, Triangle.Kept, Triangle.Rotated, Triangle.rotate,
      Triangle.Nondegenerate, Triangle.corners]

theorem of_fanThree [LawfulBEq α] {o a b c d : α} (h : [o, a, b, c, d, cut].Nodup) :
    SameTriangles Triangle.Kept cut [a, b, o, c, d, cut] [o, a, b, o, b, c, o, c, d] := by
  refine of_strip (r := [a, b, o, c, d]) ?_ (by simp) ?_
  · simp_all [eq_comm]
  · simp_all [strip, triangleList, Triangle.Kept, Triangle.Rotated, Triangle.rotate,
      Triangle.Nondegenerate, Triangle.corners]

theorem of_rectangle [LawfulBEq α] {a b c d : α} (h : [a, b, c, d, cut].Nodup) :
    SameTriangles Triangle.KeptCorners cut [a, b, c, d, cut] [a, b, c, b, c, d] := by
  refine of_strip (r := [a, b, c, d]) ?_ (by simp) ?_
  · simp_all [eq_comm]
  · simp_all [strip, triangleList, Triangle.KeptCorners, Triangle.SameCorners,
      Triangle.Nondegenerate, Triangle.corners]
    exact List.Perm.swap _ _ _

end SameTriangles

end Triangles

end DolphinXR.Lib
