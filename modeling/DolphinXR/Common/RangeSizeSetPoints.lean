import DolphinXR.Common.RangeSizeSetRuns
import Mathlib.Order.Fin.Basic
import Mathlib.Algebra.Group.Int.Defs
import Mathlib.Algebra.Group.Nat.Defs

/- A `RangeSizeSet` against the set of points that its history denotes. `Reaches s P` is the history:
   what is inserted goes into `P`, what is erased comes out of it, and erasing by an iterator of
   either container takes out the range it leads to. `Reaches.refines` says that after any history
   the ranges are the normal form of `P`, with the two containers linked; what the queries answer,
   and that no operation follows an iterator to nothing, comes from that alone. Up to there the
   order of the points is all that counts. `Points` are those that the template is for, where
   `calc_size` gives the length of a range. -/
namespace DolphinXR.Common
open Lib IntervalList

namespace RangeSizeSet

section
variable {T S : Type} [LinearOrder T] [LinearOrder S] {calcSize : T → T → S}
variable {s : RangeSizeSet T S} {l r : List (RangeNode T)} {n : RangeNode T}

/-! The queries. -/

theorem headIt_ne_begin (h : Linked calcSize s) (hmap : s.map = l ++ n :: r) :
    headIt r ≠ s.begin := by
  cases r with
  | nil =>
    intro heq
    have hnil : s.map = [] := headIt_eq_none.1 heq.symm
    rw [hmap] at hnil
    exact List.append_ne_nil_of_right_ne_nil l (List.cons_ne_nil n []) hnil
  | cons m r =>
    have hmap' : s.map = (l ++ [n]) ++ m :: r := by rw [hmap, List.append_assoc]; rfl
    exact (headIt_eq_begin h hmap' (List.cons_ne_nil m r)).not.2 (by simp)

theorem contains_spec (h : Linked calcSize s) (hsep : Separated s.ranges) (value : T) :
    ∃ b, s.contains value = some b ∧ (b = true ↔ value ∈ covers s.ranges) := by
  obtain ⟨l, r, hmap, hl, hr⟩ := exists_upper h value
  have hr' : value ∉ covers (rangesOf r) := by
    rintro ⟨p, hp, hle, -⟩
    exact absurd hle (not_le.2 (forall_rangesOf (P := fun p => value < p.1) hr p hp))
  rw [contains, upperBound_eq hmap hl hr]
  rcases List.eq_nil_or_concat' l with rfl | ⟨l, n, rfl⟩
  · have hbegin : headIt r = s.begin := by rw [begin, hmap]; rfl
    rw [if_pos hbegin]
    refine ⟨false, rfl, iff_of_false Bool.false_ne_true ?_⟩
    rw [ranges_eq hmap]
    exact hr'
  · have hmap' : s.map = l ++ n :: r := by rw [hmap, List.append_assoc]; rfl
    rw [if_neg (headIt_ne_begin h hmap')]
    simp only [prev_eq h hmap', getFrom_eq h hmap', getTo_eq h hmap', Option.bind_eq_bind,
      Option.bind_some]
    refine ⟨_, rfl, ?_⟩
    rw [decide_eq_true_iff, ranges_eq hmap', rangesOf_cons, mem_covers_append, mem_covers_cons]
    constructor
    · exact fun hin => .inr (.inl hin)
    · rintro (⟨p, hp, -, hlt⟩ | hin | hin)
      · -- the ranges before the last one end before it begins
        have hsep' : Separated (rangesOf (l ++ n :: r)) := hmap' ▸ hsep
        have hend := ends_lt_start hsep' p hp
        exact absurd (hl n (by simp)) (not_le.2 (hlt.trans hend))
      · exact hin
      · exact absurd hin hr'

theorem overlaps_spec (h : Linked calcSize s) (hsep : Separated s.ranges) (start stop : T) :
    ∃ b, s.overlaps start stop = some b ∧
      (b = true ↔ ∃ x ∈ covers s.ranges, start ≤ x ∧ x < stop) := by
  rw [overlaps]
  by_cases hge : start ≥ stop
  · rw [if_pos hge]
    refine ⟨false, rfl, iff_of_false Bool.false_ne_true ?_⟩
    rintro ⟨x, -, hstart, hstop⟩
    exact absurd (hstart.trans_lt hstop) (not_lt.2 hge)
  rw [if_neg hge]
  obtain ⟨l, r, hmap, hl, hr⟩ := exists_lower h stop
  have hr' : ∀ x ∈ covers (rangesOf r), stop ≤ x := by
    rintro x ⟨p, hp, hle, -⟩
    exact (forall_rangesOf (P := fun p => stop ≤ p.1) hr p hp).trans hle
  rw [lowerBound_eq hmap hl hr]
  rcases List.eq_nil_or_concat' l with rfl | ⟨l, n, rfl⟩
  · have hbegin : headIt r = s.begin := by rw [begin, hmap]; rfl
    rw [if_pos hbegin]
    refine ⟨false, rfl, iff_of_false Bool.false_ne_true ?_⟩
    rintro ⟨x, hx, -, hstop⟩
    rw [ranges_eq hmap] at hx
    exact absurd hstop (not_lt.2 (hr' x hx))
  · have hmap' : s.map = l ++ n :: r := by rw [hmap, List.append_assoc]; rfl
    rw [if_neg (headIt_ne_begin h hmap')]
    simp only [prev_eq h hmap', getFrom_eq h hmap', getTo_eq h hmap', Option.bind_eq_bind,
      Option.bind_some]
    refine ⟨_, rfl, ?_⟩
    have hsep' : Separated (rangesOf (l ++ n :: r)) := hmap' ▸ hsep
    have hn : n.start < n.stop := hsep.nonempty (n.start, n.stop)
      (List.mem_map_of_mem (by rw [hmap']; simp))
    rw [decide_eq_true_iff, ranges_eq hmap', rangesOf_cons]
    constructor
    · rintro ⟨hstop, hstart⟩
      refine ⟨max start n.start, ?_, le_max_left _ _, max_lt (not_le.1 hge) hstop⟩
      exact mem_covers_append.2 (.inr (mem_covers_cons.2
        (.inl ⟨le_max_right _ _, max_lt hstart hn⟩)))
    · rintro ⟨x, hx, hstart, hstop⟩
      refine ⟨hl n (by simp), ?_⟩
      rcases mem_covers_append.1 hx with ⟨p, hp, -, hlt⟩ | hx
      · exact hstart.trans_lt (hlt.trans ((ends_lt_start hsep' p hp).trans hn))
      · rcases mem_covers_cons.1 hx with hin | hin
        · exact hstart.trans_lt hin.2
        · exact absurd hstop (not_lt.2 (hr' x hin))

/-! Histories. -/

variable (calcSize) in
inductive Reaches : RangeSizeSet T S → Set T → Prop
  | empty : Reaches {} ∅
  | insert {s s' : RangeSizeSet T S} {P : Set T} (start stop : T) (h : Reaches s P)
      (hrun : s.insert calcSize start stop = some s') :
      Reaches s' {x | x ∈ P ∨ (start ≤ x ∧ x < stop)}
  | erase {s s' : RangeSizeSet T S} {P : Set T} (start stop : T) (h : Reaches s P)
      (hrun : s.erase calcSize start stop = some s') :
      Reaches s' {x | x ∈ P ∧ ¬(start ≤ x ∧ x < stop)}
  /-- `erase(const_iterator)`. -/
  | eraseIt {s s' : RangeSizeSet T S} {P : Set T} {it after : Iterator} {n : RangeNode T}
      (h : Reaches s P) (hnode : s.node? it = some n)
      (hrun : s.eraseRange it = some (after, s')) :
      Reaches s' {x | x ∈ P ∧ ¬(n.start ≤ x ∧ x < n.stop)}
  /-- `erase(by_size_const_iterator)`. -/
  | eraseSizeIt {s s' : RangeSizeSet T S} {P : Set T} {e : SizeEntry S} {after : Iterator}
      {n : RangeNode T} (h : Reaches s P) (hentry : e ∈ s.sizes) (hnode : s.node? e.it = some n)
      (hrun : s.eraseRangeBySize e.sizeIt = some (after, s')) :
      Reaches s' {x | x ∈ P ∧ ¬(n.start ≤ x ∧ x < n.stop)}

variable (calcSize) in
/-- The ranges are the normal form of the points, and the entries by size those of the ranges. -/
structure Refines (s : RangeSizeSet T S) (P : Set T) : Prop where
  linked : Linked calcSize s
  separated : Separated s.ranges
  points : covers s.ranges = P

theorem refines_empty : Refines calcSize ({} : RangeSizeSet T S) ∅ where
  linked :=
    { sorted := List.Pairwise.nil
      ids := List.nodup_nil
      sizes := ⟨List.Perm.nil, List.nodup_nil, List.Pairwise.nil⟩
      freshIds := by simp
      freshSizeIds := by simp }
  separated := separated_nil
  points := Set.eq_empty_of_forall_notMem fun _ => not_mem_covers_nil

omit [LinearOrder T] [LinearOrder S] in
theorem exists_place {it : Iterator} (hnode : s.node? it = some n) :
    it = n.it ∧ ∃ l r, s.map = l ++ n :: r := by
  refine ⟨?_, List.append_of_mem (List.mem_of_find?_eq_some hnode)⟩
  have hkey := List.find?_some hnode
  exact (of_decide_eq_true hkey).symm

theorem Linked.entry (h : Linked calcSize s) {e : SizeEntry S} (he : e ∈ s.sizes) :
    ∃ n, s.node? e.it = some n ∧ n.sizeIt = e.sizeIt ∧ e.size = calcSize n.start n.stop := by
  obtain ⟨n, hn, hlink⟩ := h.sizes.exists_node he
  obtain ⟨l, r, hmap⟩ := List.append_of_mem hn
  have hit : e.it = n.it := congrArg (fun link => link.2.2) hlink
  refine ⟨n, hit ▸ node_eq h hmap, ?_, congrArg (fun link => link.2.1) hlink⟩
  exact (congrArg Prod.fst hlink).symm

theorem Refines.eraseIt {P : Set T} (h : Refines calcSize s P) {it : Iterator}
    (hnode : s.node? it = some n) :
    ∃ after s', s.eraseRange it = some (after, s') ∧
      Refines calcSize s' {x | x ∈ P ∧ ¬(n.start ≤ x ∧ x < n.stop)} := by
  obtain ⟨rfl, l, r, hmap⟩ := exists_place hnode
  obtain ⟨s', herase, hlinked, hmap'⟩ := eraseRange_spec h.linked hmap
  obtain ⟨hsep, hcovers⟩ := covers_without h.separated hmap hmap'
  refine ⟨headIt r, s', herase, hlinked, hsep, Set.ext fun x => ?_⟩
  rw [hcovers x, h.points]
  rfl

theorem Refines.eraseSizeIt {P : Set T} (h : Refines calcSize s P) {e : SizeEntry S}
    (he : e ∈ s.sizes) :
    ∃ n after s', s.node? e.it = some n ∧ s.eraseRangeBySize e.sizeIt = some (after, s') ∧
      Refines calcSize s' {x | x ∈ P ∧ ¬(n.start ≤ x ∧ x < n.stop)} := by
  obtain ⟨n, hn, hlink⟩ := h.linked.sizes.exists_node he
  obtain ⟨l, r, hmap⟩ := List.append_of_mem hn
  obtain ⟨after, s', herase, hlinked, hmap'⟩ := eraseRangeBySize_spec h.linked hmap he hlink
  obtain ⟨hsep, hcovers⟩ := covers_without h.separated hmap hmap'
  have hit : e.it = n.it := congrArg (fun link => link.2.2) hlink
  refine ⟨n, after, s', hit ▸ node_eq h.linked hmap, herase, hlinked, hsep, Set.ext fun x => ?_⟩
  rw [hcovers x, h.points]
  rfl

theorem Refines.insert {P : Set T} (h : Refines calcSize s P) (start stop : T) :
    ∃ s', s.insert calcSize start stop = some s' ∧
      Refines calcSize s' {x | x ∈ P ∨ (start ≤ x ∧ x < stop)} := by
  obtain ⟨s', hinsert, hlinked, hsep, hcovers⟩ := insert_spec h.linked h.separated start stop
  refine ⟨s', hinsert, hlinked, hsep, Set.ext fun x => ?_⟩
  rw [hcovers x, h.points]
  rfl

theorem Refines.erase {P : Set T} (h : Refines calcSize s P) (start stop : T) :
    ∃ s', s.erase calcSize start stop = some s' ∧
      Refines calcSize s' {x | x ∈ P ∧ ¬(start ≤ x ∧ x < stop)} := by
  obtain ⟨s', herase, hlinked, hsep, hcovers⟩ := erase_spec h.linked h.separated start stop
  refine ⟨s', herase, hlinked, hsep, Set.ext fun x => ?_⟩
  rw [hcovers x, h.points]
  rfl

theorem Reaches.refines {P : Set T} (h : Reaches calcSize s P) : Refines calcSize s P := by
  induction h with
  | empty => exact refines_empty
  | insert start stop h hrun ih =>
    obtain ⟨s', hinsert, hrefines⟩ := ih.insert start stop
    exact Option.some.inj (hinsert.symm.trans hrun) ▸ hrefines
  | erase start stop h hrun ih =>
    obtain ⟨s', herase, hrefines⟩ := ih.erase start stop
    exact Option.some.inj (herase.symm.trans hrun) ▸ hrefines
  | eraseIt h hnode hrun ih =>
    obtain ⟨after, s', herase, hrefines⟩ := ih.eraseIt hnode
    exact (Prod.mk.inj (Option.some.inj (herase.symm.trans hrun))).2 ▸ hrefines
  | eraseSizeIt h hentry hnode hrun ih =>
    obtain ⟨n, after, s', hnode', herase, hrefines⟩ := ih.eraseSizeIt hentry
    have hn := Option.some.inj (hnode'.symm.trans hnode)
    subst hn
    exact (Prod.mk.inj (Option.some.inj (herase.symm.trans hrun))).2 ▸ hrefines

theorem Linked.largest (h : Linked calcSize s) {e : SizeEntry S} {rest : List (SizeEntry S)}
    (hsizes : s.sizes = e :: rest) : ∀ n ∈ s.map, calcSize n.start n.stop ≤ e.size := by
  intro n hn
  obtain ⟨d, hd, hlink⟩ := h.sizes.exists_entry hn
  have hsize : d.size = calcSize n.start n.stop := congrArg (fun link => link.2.1) hlink
  have hdescending := h.sizes.descending
  rw [hsizes] at hd hdescending
  rw [← hsize]
  rcases List.mem_cons.1 hd with rfl | hd
  · exact le_rfl
  · exact (List.pairwise_cons.1 hdescending).1 d hd

end
/-! Pointers and machine integers. -/

/-- The types of points that the template takes, each point with the number it stands for. -/
class Points (T : Type) extends LinearOrder T where
  value : T → Int
  value_lt : ∀ {a b : T}, a < b ↔ value a < value b
  /-- The bits of a point, and of `SizeT`. -/
  width : Nat
  spread : ∀ a b : T, value b - value a < 2 ^ width

section
variable {T : Type} [Points T]
open Points

/-- `calc_size`: the difference as a `SizeT`. -/
def calcSize (start stop : T) : Nat :=
  ((value stop - value start) % 2 ^ width T).toNat

theorem calcSize_eq {start stop : T} (h : start < stop) :
    (calcSize start stop : Int) = value stop - value start := by
  have hlt : value start < value stop := value_lt.1 h
  rw [calcSize, Int.emod_eq_of_lt (by omega) (spread start stop)]
  omega

/-- Pointers, and unsigned integers. -/
instance (w : Nat) : Points (Fin (2 ^ w)) where
  value a := a.val
  value_lt := by
    intro a b
    rw [Fin.lt_def]
    omega
  width := w
  spread a b := by
    have hb : (b.val : Int) < 2 ^ w := by exact_mod_cast b.isLt
    omega

/-- Signed integers. -/
instance (w : Nat) : Points { z : Int // -2 ^ w ≤ z ∧ z < 2 ^ w } where
  value a := a.val
  value_lt := Subtype.coe_lt_coe.symm
  width := w + 1
  spread a b := by
    have ha := a.property
    have hb := b.property
    rw [Int.pow_succ]
    omega

variable {s : RangeSizeSet T Nat} {P : Set T}

/-- What a `RangeSizeSet` is after any history: the ranges, what the queries answer, and the entries
    by size, each one of a range, of that range's length and linked both ways. -/
theorem pointSet_of_reaches (h : Reaches calcSize s P) :
    (Separated s.ranges ∧ covers s.ranges = P) ∧
    (∀ value, ∃ b, s.contains value = some b ∧ (b = true ↔ value ∈ P)) ∧
    (∀ start stop, ∃ b, s.overlaps start stop = some b ∧
      (b = true ↔ ∃ x ∈ P, start ≤ x ∧ x < stop)) ∧
    (∀ s₂, Reaches calcSize s₂ P → s₂.ranges = s.ranges) ∧
    (SizesOf calcSize s.map s.sizes ∧
      (∀ n ∈ s.map, s.node? n.it = some n ∧
        (calcSize n.start n.stop : Int) = value n.stop - value n.start) ∧
      ∀ e ∈ s.sizes, ∃ n, s.node? e.it = some n ∧ n.sizeIt = e.sizeIt ∧
        (e.size : Int) = value n.stop - value n.start) ∧
    (∀ e rest, s.sizes = e :: rest → ∀ n ∈ s.map, value n.stop - value n.start ≤ e.size) ∧
    (∀ start stop, (∃ s', s.insert calcSize start stop = some s') ∧
      ∃ s', s.erase calcSize start stop = some s') ∧
    (∀ n ∈ s.map, ∃ after s', s.eraseRange n.it = some (after, s')) ∧
    ∀ e ∈ s.sizes, ∃ after s', s.eraseRangeBySize e.sizeIt = some (after, s') := by
  have hrefines := h.refines
  have hlinked := hrefines.linked
  have hsep := hrefines.separated
  have hlength : ∀ n ∈ s.map,
      (calcSize n.start n.stop : Int) = value n.stop - value n.start := fun n hn =>
    calcSize_eq (hsep.nonempty (n.start, n.stop) (List.mem_map_of_mem hn))
  have hnode : ∀ n ∈ s.map, s.node? n.it = some n := by
    intro n hn
    obtain ⟨l, r, hmap⟩ := List.append_of_mem hn
    exact node_eq hlinked hmap
  refine ⟨⟨hsep, hrefines.points⟩, ?_, ?_, ?_, ⟨hlinked.sizes, ?_, ?_⟩, ?_, ?_, ?_, ?_⟩
  · intro value
    rw [← hrefines.points]
    exact contains_spec hlinked hsep value
  · intro start stop
    rw [← hrefines.points]
    exact overlaps_spec hlinked hsep start stop
  · intro s₂ h₂
    exact eq_of_covers_eq h₂.refines.separated hsep (h₂.refines.points.trans hrefines.points.symm)
  · exact fun n hn => ⟨hnode n hn, hlength n hn⟩
  · intro e he
    obtain ⟨n, hn, hsizeIt, hsize⟩ := hlinked.entry he
    exact ⟨n, hn, hsizeIt, hsize ▸ hlength n (List.mem_of_find?_eq_some hn)⟩
  · intro e rest hsizes n hn
    rw [← hlength n hn]
    exact_mod_cast hlinked.largest hsizes n hn
  · intro start stop
    obtain ⟨s', hinsert, -⟩ := hrefines.insert start stop
    obtain ⟨s'', herase, -⟩ := hrefines.erase start stop
    exact ⟨⟨s', hinsert⟩, s'', herase⟩
  · intro n hn
    obtain ⟨after, s', herase, -⟩ := hrefines.eraseIt (hnode n hn)
    exact ⟨after, s', herase⟩
  · intro e he
    obtain ⟨n, after, s', -, herase, -⟩ := hrefines.eraseSizeIt he
    exact ⟨after, s', herase⟩

/-- Of the sixteen bytes of a freed block the first four are used again. -/
theorem pointSet_of_reaches_freed : ∃ (s : RangeSizeSet (Fin (2 ^ 64)) Nat) (P : Set (Fin (2 ^ 64))),
    s.ranges = [(4100, 4112)] ∧ covers s.ranges = P ∧
      ∀ value, ∃ b, s.contains value = some b ∧ (b = true ↔ value ∈ P) := by
  have hfreed : Reaches (T := Fin (2 ^ 64)) calcSize
      { map := [⟨0, 4096, 4112, some 1⟩], sizes := [⟨1, 16, some 0⟩], fresh := 2 }
      {x : Fin (2 ^ 64) | x ∈ (∅ : Set (Fin (2 ^ 64))) ∨ (4096 ≤ x ∧ x < 4112)} :=
    .insert 4096 4112 .empty rfl
  have hused : Reaches (T := Fin (2 ^ 64)) calcSize
      { map := [⟨2, 4100, 4112, some 3⟩], sizes := [⟨3, 12, some 2⟩], fresh := 4 } _ :=
    .erase 4096 4100 hfreed rfl
  have hpoints := pointSet_of_reaches hused
  exact ⟨_, _, rfl, hpoints.1.2, hpoints.2.1⟩

end
end RangeSizeSet
end DolphinXR.Common
