import DolphinXR.Common.RangeSizeSetLinks
import DolphinXR.Lib.IntervalList

/- What `insert` and `erase` of `RangeSizeSet` do. The map is taken apart at the beginning of the
   range that is given; each branch of the source comes to one of a few ways to put the rest
   together again: `merge` of the ranges that are reached, `cut` of those that are passed. With the
   lemmas about intervals, `insert_spec` adds the points of the range and `erase_spec` removes them,
   from any set that is linked and separated, and both keep it so. -/
namespace DolphinXR.Common
open Lib IntervalList

namespace RangeSizeSet
variable {T S : Type} [LinearOrder T] [LinearOrder S] {calcSize : T → T → S}

def rangesOf (map : List (RangeNode T)) : List (T × T) := map.map fun n => (n.start, n.stop)

section
variable {s : RangeSizeSet T S} {l r : List (RangeNode T)} {n : RangeNode T}

theorem check_eq {p : Prop} [Decidable p] (h : p) : check p = some () := if_pos h

theorem maybeExpandTo_spec (h : Linked calcSize s) (hmap : s.map = l ++ n :: r) (stop : T) :
    ∃ m s', s.maybeExpandTo calcSize n.it stop = some s' ∧ Linked calcSize s' ∧
      s'.map = l ++ m :: r ∧ m.it = n.it ∧ m.start = n.start ∧ m.stop = max n.stop stop := by
  rw [maybeExpandTo, getTo_eq h hmap]
  change ∃ m s', (if stop ≤ n.stop then some s else s.expandTo calcSize n.it stop) = some s' ∧ _
  by_cases hle : stop ≤ n.stop
  · rw [if_pos hle]
    exact ⟨n, s, rfl, h, hmap, rfl, rfl, (max_eq_left hle).symm⟩
  · obtain ⟨m, s', hset, hlinked, hmap', hit, hstart, hstop⟩ := setTo_spec h hmap stop
    have hlt : n.stop < stop := not_le.1 hle
    refine ⟨m, s', ?_, hlinked, hmap', hit, hstart, hstop.trans (max_eq_right hlt.le).symm⟩
    simp only [if_neg hle, expandTo, getTo_eq h hmap, Option.bind_eq_bind, Option.bind_some,
      check_eq hlt, hset]

theorem reduceTo_spec (h : Linked calcSize s) (hmap : s.map = l ++ n :: r) {stop : T}
    (hlt : stop < n.stop) :
    ∃ m s', s.reduceTo calcSize n.it stop = some s' ∧ Linked calcSize s' ∧
      s'.map = l ++ m :: r ∧ m.it = n.it ∧ m.start = n.start ∧ m.stop = stop := by
  obtain ⟨m, s', hset, hrest⟩ := setTo_spec h hmap stop
  refine ⟨m, s', ?_, hrest⟩
  simp only [reduceTo, getTo_eq h hmap, Option.bind_eq_bind, Option.bind_some, gt_iff_lt,
    check_eq hlt, hset]

theorem start_lt_of_mem_left (h : Linked calcSize s) (hmap : s.map = l ++ n :: r)
    {m : RangeNode T} (hm : m ∈ l) : m.start < n.start := by
  have hsorted := h.sorted
  rw [hmap] at hsorted
  exact (List.pairwise_append.1 hsorted).2.2 m hm n List.mem_cons_self

theorem reduceFrom_spec (h : Linked calcSize s) (hmap : s.map = l ++ n :: r) {start : T}
    (hlt : n.start < start) (hr : ∀ m ∈ r, start < m.start) :
    ∃ m s', s.reduceFrom calcSize n.it start = some s' ∧ Linked calcSize s' ∧
      s'.map = l ++ m :: r ∧ m.start = start ∧ m.stop = n.stop := by
  obtain ⟨s₁, herase, hlinked₁, hmap₁⟩ := eraseRange_spec h hmap
  obtain ⟨m, s', hinsert, hrest⟩ := insertRange_spec hlinked₁ hmap₁ start n.stop
    (fun m hm => (start_lt_of_mem_left h hmap hm).trans hlt) hr
  refine ⟨m, s', ?_, hrest⟩
  simp only [reduceFrom, getFrom_eq h hmap, getTo_eq h hmap, Option.bind_eq_bind,
    Option.bind_some, check_eq hlt, herase, hinsert, Option.pure_def]

theorem bisectRange_spec (h : Linked calcSize s) (hmap : s.map = l ++ n :: r) {start stop : T}
    (hstart : n.start < start) (hlt : start < stop) (hstop : stop < n.stop)
    (hr : ∀ m ∈ r, stop < m.start) :
    ∃ a b s', s.bisectRange calcSize n.it start stop = some s' ∧ Linked calcSize s' ∧
      s'.map = l ++ a :: b :: r ∧ (a.start = n.start ∧ a.stop = start) ∧
        b.start = stop ∧ b.stop = n.stop := by
  obtain ⟨a, s₁, hreduce, hlinked₁, hmap₁, -, hastart, hastop⟩ :=
    reduceTo_spec h hmap (hlt.trans hstop)
  have hmap₁' : s₁.map = (l ++ [a]) ++ r := by rw [hmap₁, List.append_assoc]; rfl
  obtain ⟨b, s', hinsert, hlinked, hmap', hb⟩ := insertRange_spec hlinked₁ hmap₁' stop
    n.stop (by
      intro m hm
      rcases List.mem_append.1 hm with hm | hm
      · exact (start_lt_of_mem_left h hmap hm).trans (hstart.trans hlt)
      · rw [List.mem_singleton.1 hm, hastart]
        exact hstart.trans hlt) hr
  refine ⟨a, b, s', ?_, hlinked, by rw [hmap', List.append_assoc]; rfl, ⟨hastart, hastop⟩, hb⟩
  simp only [bisectRange, getFrom_eq h hmap, getTo_eq h hmap, Option.bind_eq_bind,
    Option.bind_some, check_eq hstart, check_eq (hstart.trans hlt), check_eq hstop, check_eq hlt,
    check_eq (hlt.trans hstop), hreduce, hinsert, Option.pure_def, gt_iff_lt]

/-! The loops. -/

omit [LinearOrder T] in
theorem rangesOf_append (l r : List (RangeNode T)) :
    rangesOf (l ++ r) = rangesOf l ++ rangesOf r := List.map_append

omit [LinearOrder T] in
theorem rangesOf_cons (n : RangeNode T) (l : List (RangeNode T)) :
    rangesOf (n :: l) = (n.start, n.stop) :: rangesOf l := rfl

theorem mergeFromIteratorToValue_spec (stop : T) (rounds : Nat) :
    ∀ {s : RangeSizeSet T S} {n : RangeNode T} {r : List (RangeNode T)}, Linked calcSize s →
      s.map = l ++ n :: r → r.length < rounds →
      ∃ s', mergeFromIteratorToValue calcSize n.it stop rounds s (headIt r) = some s' ∧
        Linked calcSize s' ∧
        s'.ranges = rangesOf l ++ IntervalList.merge n.start n.stop stop (rangesOf r) := by
  induction rounds with
  | zero =>
    intro s n r h hmap hrounds
    exact absurd hrounds (Nat.not_lt_zero _)
  | succ rounds ih =>
    intro s n r h hmap hrounds
    have hstay : s.ranges = rangesOf l ++ (n.start, n.stop) :: rangesOf r := by
      rw [← rangesOf_cons, ← rangesOf_append, ← hmap]
      rfl
    rw [mergeFromIteratorToValue]
    cases r with
    | nil => exact ⟨s, if_pos rfl, h, hstay⟩
    | cons m r =>
      have hmap' : s.map = (l ++ [n]) ++ m :: r := by rw [hmap, List.append_assoc]; rfl
      rw [if_neg (headIt_eq_none.not.2 (List.cons_ne_nil m r))]
      change ∃ s', (s.getFrom m.it >>= _) = some s' ∧ _
      rw [getFrom_eq h hmap', rangesOf_cons, IntervalList.merge]
      change ∃ s', (if m.start ≤ stop then _ else _) = some s' ∧ _
      by_cases hle : m.start ≤ stop
      · obtain ⟨n', s₁, hexpand, hlinked₁, hmap₁, hit, hstart, hstop⟩ :=
          maybeExpandTo_spec h hmap m.stop
        have hmap₁' : s₁.map = (l ++ [n']) ++ m :: r := by rw [hmap₁, List.append_assoc]; rfl
        obtain ⟨s₂, herase, hlinked₂, hmap₂⟩ := eraseRange_spec hlinked₁ hmap₁'
        have hmap₂' : s₂.map = l ++ n' :: r := by rw [hmap₂, List.append_assoc]; rfl
        obtain ⟨s', hloop, hlinked, hranges⟩ := ih hlinked₂ hmap₂' (Nat.lt_of_succ_lt_succ hrounds)
        rw [hit] at hloop
        rw [hstart, hstop] at hranges
        refine ⟨s', ?_, hlinked, ?_⟩
        · rw [if_pos hle]
          change (s.getTo m.it >>= _) = some s'
          rw [getTo_eq h hmap']
          change (s.maybeExpandTo calcSize n.it m.stop >>= _) = some s'
          rw [hexpand]
          change (s₁.eraseRange m.it >>= _) = some s'
          rw [herase]
          exact hloop
        · rw [hranges, if_pos hle]
      · rw [if_neg hle, if_neg hle]
        exact ⟨s, rfl, h, hstay⟩

theorem eraseFromIteratorToValue_spec (stop : T) (rounds : Nat) :
    ∀ {s : RangeSizeSet T S} {r : List (RangeNode T)}, Linked calcSize s → s.map = l ++ r →
      r ≠ [] → Separated (rangesOf r) → r.length ≤ rounds →
      ∃ s', eraseFromIteratorToValue calcSize stop rounds s (headIt r) = some s' ∧
        Linked calcSize s' ∧ s'.ranges = rangesOf l ++ cut stop (rangesOf r) := by
  induction rounds with
  | zero =>
    intro s r h hmap hr hsep hrounds
    exact absurd (List.length_pos_iff.2 hr) (Nat.not_lt.2 hrounds)
  | succ rounds ih =>
    intro s r h hmap hr hsep hrounds
    obtain ⟨m, r, rfl⟩ := List.exists_cons_of_ne_nil hr
    rw [rangesOf_cons] at hsep ⊢
    obtain ⟨hne, hapart, hsep'⟩ := separated_cons.1 hsep
    rw [eraseFromIteratorToValue, cut]
    change ∃ s', (s.getFrom m.it >>= _) = some s' ∧ _
    rw [getFrom_eq h hmap]
    change ∃ s', (if stop ≤ m.start then some s else _) = some s' ∧ _
    by_cases hbefore : stop ≤ m.start
    · rw [if_pos hbefore, if_pos hbefore]
      refine ⟨s, rfl, h, ?_⟩
      rw [← rangesOf_cons, ← rangesOf_append, ← hmap]
      rfl
    rw [if_neg hbefore, if_neg hbefore]
    change ∃ s', (s.getTo m.it >>= _) = some s' ∧ _
    rw [getTo_eq h hmap]
    change ∃ s', (if stop < m.stop then s.reduceFrom calcSize m.it stop else _) = some s' ∧ _
    by_cases hinside : stop < m.stop
    · obtain ⟨m', s', hreduce, hlinked, hmap', hstart, hstop⟩ :=
        reduceFrom_spec h hmap (not_le.1 hbefore) fun q hq =>
          hinside.trans (hapart (q.start, q.stop) (List.mem_map_of_mem hq))
      rw [if_pos hinside, if_pos hinside]
      refine ⟨s', hreduce, hlinked, ?_⟩
      rw [ranges, hmap', List.map_append, List.map_cons, hstart, hstop]
      rfl
    rw [if_neg hinside, if_neg hinside]
    change ∃ s', (s.getTo m.it >>= _) = some s' ∧ _
    rw [getTo_eq h hmap]
    change ∃ s', (if stop = m.stop then _ else _) = some s' ∧ _
    obtain ⟨s₁, herase, hlinked₁, hmap₁⟩ := eraseRange_spec h hmap
    have hranges₁ : s₁.ranges = rangesOf l ++ rangesOf r := by
      rw [← rangesOf_append, ← hmap₁]
      rfl
    change ∃ s', (if stop = m.stop then (s.eraseRange m.it >>= _) else (s.eraseRange m.it >>= _)) =
      some s' ∧ _
    rw [herase]
    by_cases heq : stop = m.stop
    · rw [if_pos heq, if_pos heq]
      exact ⟨s₁, rfl, hlinked₁, hranges₁⟩
    · rw [if_neg heq, if_neg heq]
      change ∃ s', (if headIt r = none then some s₁ else _) = some s' ∧ _
      cases r with
      | nil => exact ⟨s₁, if_pos rfl, hlinked₁, hranges₁⟩
      | cons q r =>
        rw [if_neg (headIt_eq_none.not.2 (List.cons_ne_nil q r))]
        exact ih hlinked₁ hmap₁ (List.cons_ne_nil q r) hsep' (Nat.le_of_succ_le_succ hrounds)

/-! The operations. -/

theorem exists_upper (h : Linked calcSize s) (key : T) :
    ∃ l r, s.map = l ++ r ∧ (∀ m ∈ l, m.start ≤ key) ∧ ∀ m ∈ r, key < m.start := by
  obtain ⟨l, r, hmap, hl, hr⟩ := KeyedList.exists_split (p := fun m : RangeNode T => m.start ≤ key)
    (h.sorted.imp fun hlt hle => hlt.le.trans hle)
  exact ⟨l, r, hmap, hl, fun m hm => not_le.1 (hr m hm)⟩

theorem exists_lower (h : Linked calcSize s) (key : T) :
    ∃ l r, s.map = l ++ r ∧ (∀ m ∈ l, m.start < key) ∧ ∀ m ∈ r, key ≤ m.start := by
  obtain ⟨l, r, hmap, hl, hr⟩ := KeyedList.exists_split (p := fun m : RangeNode T => m.start < key)
    (h.sorted.imp fun hlt hle => hlt.trans hle)
  exact ⟨l, r, hmap, hl, fun m hm => not_lt.1 (hr m hm)⟩

omit [LinearOrder T] [LinearOrder S] in
theorem ranges_eq (hmap : s.map = l ++ r) : s.ranges = rangesOf l ++ rangesOf r := by
  rw [← rangesOf_append, ← hmap]
  rfl

omit [LinearOrder T] in
theorem forall_rangesOf {P : T × T → Prop} (h : ∀ m ∈ l, P (m.start, m.stop)) :
    ∀ p ∈ rangesOf l, P p := by
  intro p hp
  obtain ⟨m, hm, rfl⟩ := List.mem_map.1 hp
  exact h m hm

theorem insert_apart (h : Linked calcSize s) (hmap : s.map = l ++ r) (start stop : T)
    (hl : ∀ m ∈ l, m.start < start) (hr : ∀ m ∈ r, start < m.start) {rounds : Nat}
    (hrounds : r.length < rounds) :
    ∃ (n : RangeNode T) (s₁ s' : RangeSizeSet T S),
      s.insertRange calcSize start stop = some (n.it, s₁) ∧
      mergeFromIteratorToValue calcSize n.it stop rounds s₁ (headIt r) = some s' ∧
      Linked calcSize s' ∧
      s'.ranges = rangesOf l ++ IntervalList.merge start stop stop (rangesOf r) := by
  obtain ⟨n, s₁, hinsert, hlinked₁, hmap₁, hstart, hstop⟩ := insertRange_spec h hmap start stop hl hr
  obtain ⟨s', hloop, hlinked, hranges⟩ :=
    mergeFromIteratorToValue_spec stop rounds hlinked₁ hmap₁ hrounds
  rw [hstart, hstop] at hranges
  exact ⟨n, s₁, s', hinsert, hloop, hlinked, hranges⟩

theorem insert_end (h : Linked calcSize s) {start stop : T} (hlt : start < stop)
    (hsep : Separated (rangesOf s.map)) (hl : ∀ m ∈ s.map, m.start ≤ start) :
    ∃ s', s.insert calcSize start stop = some s' ∧ Linked calcSize s' ∧
      (s'.ranges = rangesOf s.map ++ [(start, stop)] ∧ (∀ p ∈ rangesOf s.map, p.2 < start) ∨
        ∃ l n, s.map = l ++ [n] ∧ start ≤ n.stop ∧
          s'.ranges = rangesOf l ++ [(n.start, max n.stop stop)]) := by
  have hbound : s.upperBound start = none := upperBound_eq (r := []) (List.append_nil _).symm hl
    (by simp)
  rw [insert, if_neg (not_le.2 hlt), if_pos hbound]
  rcases List.eq_nil_or_concat' s.map with hnil | ⟨l, n, hmap⟩
  · obtain ⟨n, s', hinsert, hlinked, hmap', hstart, hstop⟩ :=
      insertRange_spec (l := []) (r := []) h hnil start stop (by simp) (by simp)
    rw [hnil, List.isEmpty_nil, if_pos rfl, hinsert]
    refine ⟨s', rfl, hlinked, .inl ⟨?_, by simp [rangesOf]⟩⟩
    rw [ranges, hmap', ← hstart, ← hstop]
    rfl
  · have hempty : s.map.isEmpty = false := by rw [hmap]; simp
    have hprev : s.prev none = some n.it := prev_eq (r := []) h hmap
    rw [hempty, if_neg Bool.false_ne_true, hprev]
    change ∃ s', (s.getTo n.it >>= _) = some s' ∧ _
    rw [getTo_eq h hmap]
    change ∃ s', (if start > n.stop then _ else s.maybeExpandTo calcSize n.it stop) = some s' ∧ _
    by_cases hgt : start > n.stop
    · have hends : ∀ p ∈ rangesOf s.map, p.2 < start := by
        rw [hmap, rangesOf_append] at hsep ⊢
        exact ends_lt_of_last hsep hgt
      have hstarts : ∀ m ∈ s.map, m.start < start := fun m hm =>
        (hsep.nonempty _ (List.mem_map_of_mem hm)).trans (hends _ (List.mem_map_of_mem hm))
      obtain ⟨n', s', hinsert, hlinked, hmap', hstart, hstop⟩ :=
        insertRange_spec (r := []) h (List.append_nil _).symm start stop hstarts (by simp)
      rw [if_pos hgt, hinsert]
      refine ⟨s', rfl, hlinked, .inl ⟨?_, hends⟩⟩
      rw [ranges, hmap', List.map_append, ← hstart, ← hstop]
      rfl
    · obtain ⟨m, s', hexpand, hlinked, hmap', -, hstart, hstop⟩ := maybeExpandTo_spec h hmap stop
      rw [if_neg hgt]
      refine ⟨s', hexpand, hlinked, .inr ⟨l, n, hmap, not_lt.1 hgt, ?_⟩⟩
      rw [ranges, hmap', List.map_append, ← hstart, ← hstop]
      rfl

theorem insert_between (h : Linked calcSize s) {start stop : T} (hlt : start < stop)
    (hmap : s.map = l ++ r) (hr' : r ≠ []) (hsep : Separated (rangesOf l))
    (hl : ∀ m ∈ l, m.start ≤ start) (hr : ∀ m ∈ r, start < m.start) :
    ∃ s', s.insert calcSize start stop = some s' ∧ Linked calcSize s' ∧
      (s'.ranges = rangesOf l ++ IntervalList.merge start stop stop (rangesOf r) ∧
          (∀ p ∈ rangesOf l, p.2 < start) ∨
        ∃ l' n, l = l' ++ [n] ∧ start ≤ n.stop ∧ s'.ranges =
          rangesOf l' ++ IntervalList.merge n.start (max n.stop stop) stop (rangesOf r)) := by
  have hbound : s.upperBound start = headIt r := upperBound_eq hmap hl hr
  have hrounds : r.length < s.map.length + 1 := by
    rw [hmap, List.length_append]
    omega
  rw [insert, if_neg (not_le.2 hlt), hbound, if_neg (headIt_eq_none.not.2 hr')]
  rcases List.eq_nil_or_concat' l with rfl | ⟨l, n, rfl⟩
  · obtain ⟨n, s₁, s', hinsert, hloop, hlinked, hranges⟩ :=
      insert_apart h hmap start stop (by simp) hr hrounds
    rw [if_pos ((headIt_eq_begin h hmap hr').2 rfl), hinsert]
    exact ⟨s', hloop, hlinked, .inl ⟨hranges, by simp [rangesOf]⟩⟩
  · have hmap' : s.map = l ++ n :: r := by rw [hmap, List.append_assoc]; rfl
    rw [if_neg ((headIt_eq_begin h hmap hr').not.2 (by simp))]
    change ∃ s', (s.prev (headIt r) >>= _) = some s' ∧ _
    rw [prev_eq h hmap']
    change ∃ s', (s.getTo n.it >>= _) = some s' ∧ _
    rw [getTo_eq h hmap']
    change ∃ s', (if n.stop ≥ start then _ else _) = some s' ∧ _
    by_cases hge : n.stop ≥ start
    · obtain ⟨m, s₁, hexpand, hlinked₁, hmap₁, hit, hstart, hstop⟩ := maybeExpandTo_spec h hmap' stop
      obtain ⟨s', hloop, hlinked, hranges⟩ :=
        mergeFromIteratorToValue_spec stop _ hlinked₁ hmap₁ hrounds
      have hnext : s₁.next n.it = some (headIt r) := by
        rw [← hit]
        exact next_eq hlinked₁ hmap₁
      rw [hit] at hloop
      rw [hstart, hstop] at hranges
      refine ⟨s', ?_, hlinked, .inr ⟨l, n, rfl, hge, hranges⟩⟩
      rw [if_pos hge]
      rw [hexpand]
      change (s₁.next n.it >>= _) = some s'
      rw [hnext]
      exact hloop
    · have hends : ∀ p ∈ rangesOf (l ++ [n]), p.2 < start := by
        rw [rangesOf_append] at hsep ⊢
        exact ends_lt_of_last hsep (not_le.1 hge)
      have hstarts : ∀ m ∈ l ++ [n], m.start < start := fun m hm =>
        (hsep.nonempty _ (List.mem_map_of_mem hm)).trans (hends _ (List.mem_map_of_mem hm))
      rw [if_neg hge]
      obtain ⟨m, r, rfl⟩ := List.exists_cons_of_ne_nil hr'
      change ∃ s', (s.getFrom m.it >>= _) = some s' ∧ _
      rw [getFrom_eq h hmap]
      change ∃ s', (if m.start ≤ stop then _ else _) = some s' ∧ _
      by_cases hle : m.start ≤ stop
      · obtain ⟨n', s₁, hinsert, hlinked₁, hmap₁, hstart, hstop⟩ :=
          insertRange_spec h hmap start (if stop ≥ m.stop then stop else m.stop) hstarts hr
        have hmap₁' : s₁.map = ((l ++ [n]) ++ [n']) ++ m :: r := by
          rw [hmap₁, List.append_assoc (l ++ [n])]
          rfl
        obtain ⟨s₂, herase, hlinked₂, hmap₂⟩ := eraseRange_spec hlinked₁ hmap₁'
        have hmap₂' : s₂.map = (l ++ [n]) ++ n' :: r := by
          rw [hmap₂, List.append_assoc (l ++ [n])]
          rfl
        obtain ⟨s', hloop, hlinked, hranges⟩ := mergeFromIteratorToValue_spec stop _
          hlinked₂ hmap₂' (Nat.lt_of_succ_lt hrounds)
        have hmax : (if stop ≥ m.stop then stop else m.stop) = max stop m.stop := by
          split
          · exact (max_eq_left ‹_›).symm
          · exact (max_eq_right (not_le.1 ‹_›).le).symm
        refine ⟨s', ?_, hlinked, .inl ⟨?_, hends⟩⟩
        · rw [if_pos hle]
          change (s.getTo m.it >>= _) = some s'
          rw [getTo_eq h hmap]
          change (s.insertRange calcSize start (if stop ≥ m.stop then stop else m.stop) >>= _) =
            some s'
          rw [hinsert]
          change (s₁.eraseRange m.it >>= _) = some s'
          rw [herase]
          exact hloop
        · rw [hranges, hstart, hstop, hmax, rangesOf_cons, IntervalList.merge, if_pos hle]
      · obtain ⟨n', s', hinsert, hlinked, hmap', hstart, hstop⟩ :=
          insertRange_spec h hmap start stop hstarts hr
        refine ⟨s', ?_, hlinked, .inl ⟨?_, hends⟩⟩
        · rw [if_neg hle]
          rw [hinsert]
          rfl
        · rw [rangesOf_cons m, IntervalList.merge, if_neg hle, ranges_eq hmap', rangesOf_cons n',
            hstart, hstop, rangesOf_cons m]

theorem insert_spec (h : Linked calcSize s) (hsep : Separated s.ranges) (start stop : T) :
    ∃ s', s.insert calcSize start stop = some s' ∧ Linked calcSize s' ∧ Separated s'.ranges ∧
      ∀ x, x ∈ covers s'.ranges ↔ x ∈ covers s.ranges ∨ (start ≤ x ∧ x < stop) := by
  by_cases hge : start ≥ stop
  · refine ⟨s, by rw [insert, if_pos hge], h, hsep, fun x => ?_⟩
    exact (or_iff_left fun hx => absurd (hx.1.trans_lt hx.2) (not_lt.2 hge)).symm
  have hlt : start < stop := not_le.1 hge
  obtain ⟨l, r, hmap, hl, hr⟩ := exists_upper h start
  have hranges := ranges_eq hmap
  have hr' : ∀ p ∈ rangesOf r, start < p.1 := forall_rangesOf hr
  rw [hranges] at hsep ⊢
  have hspec : ∃ s', s.insert calcSize start stop = some s' ∧ Linked calcSize s' ∧
      (s'.ranges = rangesOf l ++ IntervalList.merge start stop stop (rangesOf r) ∧
          (∀ p ∈ rangesOf l, p.2 < start) ∨
        ∃ l' n, l = l' ++ [n] ∧ start ≤ n.stop ∧ s'.ranges =
          rangesOf l' ++ IntervalList.merge n.start (max n.stop stop) stop (rangesOf r)) := by
    rcases r with - | ⟨m, r⟩
    · rw [List.append_nil] at hmap
      subst hmap
      exact insert_end h hlt (separated_append.1 hsep).1 hl
    · exact insert_between h hlt hmap (List.cons_ne_nil m r) (separated_append.1 hsep).1 hl hr
  obtain ⟨s', hinsert, hlinked, ⟨hranges', hends⟩ | ⟨l', n, rfl, hge, hranges'⟩⟩ := hspec
  · exact ⟨s', hinsert, hlinked, hranges' ▸ merge_apart hsep hlt hends hr'⟩
  · have hn : n.start ≤ start := hl n (by simp)
    rw [rangesOf_append, List.append_assoc] at hsep ⊢
    exact ⟨s', hinsert, hlinked, hranges' ▸ merge_last hsep hn hge hr'⟩

/-- What erasing comes to: what lies below `stop` is cut from the ranges that begin at `start` or
    behind it, after the one before them is shortened to `start`, or bisected. -/
inductive Erased (map : List (RangeNode T)) (start stop : T) : List (T × T) → Prop
  | apart {l r : List (RangeNode T)} (hmap : map = l ++ r) (hl : ∀ p ∈ rangesOf l, p.2 ≤ start)
      (hr : ∀ p ∈ rangesOf r, start ≤ p.1) :
      Erased map start stop (rangesOf l ++ cut stop (rangesOf r))
  | inside {l r : List (RangeNode T)} {n : RangeNode T} (hmap : map = l ++ n :: r)
      (hstart : n.start < start) (hstop : stop < n.stop) :
      Erased map start stop (rangesOf l ++ (n.start, start) :: (stop, n.stop) :: rangesOf r)
  | last {l r : List (RangeNode T)} {n : RangeNode T} (hmap : map = l ++ n :: r)
      (hstart : n.start < start) (hin : start < n.stop) (hstop : n.stop ≤ stop) :
      Erased map start stop (rangesOf l ++ (n.start, start) :: cut stop (rangesOf r))

theorem Erased.spec {map : List (RangeNode T)} {start stop : T} {m : List (T × T)}
    (h : Erased map start stop m) (hsep : Separated (rangesOf map)) (hlt : start < stop) :
    Separated m ∧ ∀ x, x ∈ covers m ↔ x ∈ covers (rangesOf map) ∧ ¬(start ≤ x ∧ x < stop) := by
  cases h with
  | apart hmap hl hr =>
    rw [hmap, rangesOf_append] at hsep ⊢
    exact cut_apart _ hsep hl hr
  | inside hmap hstart hstop =>
    rw [hmap, rangesOf_append, rangesOf_cons] at hsep ⊢
    exact cut_inside hsep hstart hlt hstop
  | last hmap hstart hin hstop =>
    rw [hmap, rangesOf_append, rangesOf_cons] at hsep ⊢
    exact cut_last hsep hstart hin hstop

theorem stop_lt_start (hsep : Separated (rangesOf (l ++ n :: r))) {m : RangeNode T} (hm : m ∈ r) :
    n.stop < m.start := by
  rw [rangesOf_append, rangesOf_cons] at hsep
  exact (separated_cons.1 (separated_append.1 hsep).2.1).2.1 (m.start, m.stop)
    (List.mem_map_of_mem hm)

theorem ends_lt_start (hsep : Separated (rangesOf (l ++ n :: r))) :
    ∀ p ∈ rangesOf l, p.2 < n.start := by
  rw [rangesOf_append, rangesOf_cons] at hsep
  exact fun p hp => (separated_append.1 hsep).2.2 p hp (n.start, n.stop) List.mem_cons_self

theorem erase_end (h : Linked calcSize s) {start stop : T} (hlt : start < stop)
    (hsep : Separated (rangesOf s.map)) (hl : ∀ m ∈ s.map, m.start ≤ start) :
    ∃ s', s.erase calcSize start stop = some s' ∧ Linked calcSize s' ∧
      Erased s.map start stop s'.ranges := by
  have hbound : s.upperBound start = none := upperBound_eq (r := []) (List.append_nil _).symm hl
    (by simp)
  rw [erase, if_neg (not_le.2 hlt), if_pos hbound]
  rcases List.eq_nil_or_concat' s.map with hnil | ⟨l, n, hmap⟩
  · rw [hnil, List.isEmpty_nil, if_pos rfl]
    refine ⟨s, rfl, h, ?_⟩
    rw [ranges, hnil]
    exact .apart (l := []) (r := []) rfl (by simp [rangesOf]) (by simp [rangesOf])
  have hempty : s.map.isEmpty = false := by rw [hmap]; simp
  have hprev : s.prev none = some n.it := prev_eq (r := []) h hmap
  have hn : n.start ≤ start := hl n (by rw [hmap]; simp)
  have hends : ∀ p ∈ rangesOf l, p.2 < n.start := ends_lt_start (r := []) (hmap ▸ hsep)
  have hranges : s.ranges = rangesOf l ++ [(n.start, n.stop)] := ranges_eq hmap
  rw [hempty, if_neg Bool.false_ne_true, hprev]
  simp only [getTo_eq h hmap, getFrom_eq h hmap, Option.bind_eq_bind, Option.bind_some,
    Option.pure_def]
  by_cases hge : start ≥ n.stop
  · rw [if_pos hge]
    refine ⟨s, rfl, h, ?_⟩
    have hall : ∀ p ∈ rangesOf s.map, p.2 ≤ start := by
      rw [hmap, rangesOf_append]
      intro p hp
      rcases List.mem_append.1 hp with hp | hp
      · exact (hends p hp).le.trans hn
      · rw [List.mem_singleton.1 hp]
        exact hge
    have happart : Erased s.map start stop (rangesOf s.map ++ []) :=
      .apart (r := []) (List.append_nil s.map).symm hall (by simp [rangesOf])
    exact (List.append_nil s.ranges) ▸ happart
  have hin : start < n.stop := not_le.1 hge
  rw [if_neg hge]
  by_cases hstop : stop ≥ n.stop
  · rw [if_pos hstop]
    by_cases heq : start = n.start
    · obtain ⟨s', herase, hlinked, hmap'⟩ := eraseRange_spec h hmap
      rw [if_pos heq, herase]
      refine ⟨s', rfl, hlinked, ?_⟩
      have hcut : cut stop (rangesOf [n]) = [] := by
        rw [rangesOf_cons, cut, if_neg (not_le.2 (heq ▸ hlt)), if_neg (not_lt.2 hstop)]
        exact ite_self _
      have hranges' : s'.ranges = rangesOf l ++ cut stop (rangesOf [n]) := by
        rw [hcut]
        exact ranges_eq hmap'
      rw [hranges']
      exact .apart hmap (fun p hp => heq ▸ (hends p hp).le)
        (forall_rangesOf fun m hm => by rw [List.mem_singleton.1 hm, heq])
    · obtain ⟨m, s', hreduce, hlinked, hmap', -, hmstart, hmstop⟩ := reduceTo_spec h hmap hin
      rw [if_neg heq]
      refine ⟨s', hreduce, hlinked, ?_⟩
      have hranges' : s'.ranges = rangesOf l ++ (n.start, start) :: cut stop (rangesOf []) := by
        rw [ranges_eq hmap', rangesOf_cons, hmstart, hmstop]
        rfl
      rw [hranges']
      exact .last hmap (lt_of_le_of_ne hn (Ne.symm heq)) hin hstop
  · rw [if_neg hstop]
    by_cases heq : start = n.start
    · obtain ⟨m, s', hreduce, hlinked, hmap', hmstart, hmstop⟩ :=
        reduceFrom_spec h hmap (heq ▸ hlt) (by simp)
      rw [if_pos heq]
      refine ⟨s', hreduce, hlinked, ?_⟩
      have hcut : cut stop (rangesOf [n]) = [(stop, n.stop)] := by
        rw [rangesOf_cons, cut, if_neg (not_le.2 (heq ▸ hlt)), if_pos (not_le.1 hstop)]
        rfl
      have hranges' : s'.ranges = rangesOf l ++ cut stop (rangesOf [n]) := by
        rw [hcut, ranges_eq hmap', rangesOf_cons, hmstart, hmstop]
        rfl
      rw [hranges']
      exact .apart hmap (fun p hp => heq ▸ (hends p hp).le)
        (forall_rangesOf fun m hm => by rw [List.mem_singleton.1 hm, heq])
    · obtain ⟨a, b, s', hbisect, hlinked, hmap', ⟨hastart, hastop⟩, hbstart, hbstop⟩ :=
        bisectRange_spec h hmap (lt_of_le_of_ne hn (Ne.symm heq)) hlt (not_le.1 hstop) (by simp)
      rw [if_neg heq]
      refine ⟨s', hbisect, hlinked, ?_⟩
      have hranges' : s'.ranges =
          rangesOf l ++ (n.start, start) :: (stop, n.stop) :: rangesOf [] := by
        rw [ranges_eq hmap', rangesOf_cons, rangesOf_cons, hastart, hastop, hbstart, hbstop]
      rw [hranges']
      exact .inside hmap (lt_of_le_of_ne hn (Ne.symm heq)) (not_le.1 hstop)

theorem erase_between (h : Linked calcSize s) {start stop : T} (hlt : start < stop)
    (hmap : s.map = l ++ r) (hr' : r ≠ []) (hsep : Separated (rangesOf s.map))
    (hl : ∀ m ∈ l, m.start ≤ start) (hr : ∀ m ∈ r, start < m.start) :
    ∃ s', s.erase calcSize start stop = some s' ∧ Linked calcSize s' ∧
      Erased s.map start stop s'.ranges := by
  have hbound : s.upperBound start = headIt r := upperBound_eq hmap hl hr
  have hrounds : r.length ≤ s.map.length + 1 := by
    rw [hmap, List.length_append]
    omega
  have hsepr : Separated (rangesOf r) := by
    rw [hmap, rangesOf_append] at hsep
    exact (separated_append.1 hsep).2.1
  have hstarts : ∀ p ∈ rangesOf r, start ≤ p.1 := forall_rangesOf fun m hm => (hr m hm).le
  rw [erase, if_neg (not_le.2 hlt), hbound, if_neg (headIt_eq_none.not.2 hr')]
  rcases List.eq_nil_or_concat' l with rfl | ⟨l, n, rfl⟩
  · obtain ⟨s', hloop, hlinked, hranges⟩ :=
      eraseFromIteratorToValue_spec stop _ h hmap hr' hsepr hrounds
    rw [if_pos ((headIt_eq_begin h hmap hr').2 rfl)]
    exact ⟨s', hloop, hlinked, hranges ▸ .apart hmap (by simp [rangesOf]) hstarts⟩
  have hmap' : s.map = l ++ n :: r := by rw [hmap, List.append_assoc]; rfl
  have hn : n.start ≤ start := hl n (by simp)
  have hends := ends_lt_start (hmap' ▸ hsep)
  rw [if_neg ((headIt_eq_begin h hmap hr').not.2 (by simp))]
  simp only [prev_eq h hmap', getTo_eq h hmap', getFrom_eq h hmap', Option.bind_eq_bind,
    Option.bind_some]
  by_cases heq : start = n.start
  · have hsepn : Separated (rangesOf (n :: r)) := by
      rw [hmap', rangesOf_append] at hsep
      exact (separated_append.1 hsep).2.1
    obtain ⟨s', hloop, hlinked, hranges⟩ := eraseFromIteratorToValue_spec stop
      (s.map.length + 1) h hmap' (List.cons_ne_nil n r) hsepn (by rw [hmap']; simp; omega)
    rw [if_pos heq]
    refine ⟨s', hloop, hlinked, hranges ▸ .apart hmap' (fun p hp => heq ▸ (hends p hp).le) ?_⟩
    intro p hp
    rcases List.mem_cons.1 hp with rfl | hp
    · exact heq.le
    · exact hstarts p hp
  rw [if_neg heq]
  have hn' : n.start < start := lt_of_le_of_ne hn (Ne.symm heq)
  by_cases hin : start < n.stop
  · rw [if_pos hin]
    by_cases hstop : stop < n.stop
    · obtain ⟨a, b, s', hbisect, hlinked, hmap'', ⟨hastart, hastop⟩, hbstart, hbstop⟩ :=
        bisectRange_spec h hmap' hn' hlt hstop fun m hm =>
          hstop.trans (stop_lt_start (hmap' ▸ hsep) hm)
      rw [if_pos hstop]
      refine ⟨s', hbisect, hlinked, ?_⟩
      have hranges' : s'.ranges =
          rangesOf l ++ (n.start, start) :: (stop, n.stop) :: rangesOf r := by
        rw [ranges_eq hmap'', rangesOf_cons, rangesOf_cons, hastart, hastop, hbstart, hbstop]
      rw [hranges']
      exact .inside hmap' hn' hstop
    · obtain ⟨m, s₁, hreduce, hlinked₁, hmap₁, -, hmstart, hmstop⟩ := reduceTo_spec h hmap' hin
      have hmap₁' : s₁.map = (l ++ [m]) ++ r := by rw [hmap₁, List.append_assoc]; rfl
      obtain ⟨s', hloop, hlinked, hranges⟩ := eraseFromIteratorToValue_spec stop
        (s.map.length + 1) hlinked₁ hmap₁' hr' hsepr hrounds
      rw [if_neg hstop, hreduce]
      refine ⟨s', hloop, hlinked, ?_⟩
      have hranges' : s'.ranges = rangesOf l ++ (n.start, start) :: cut stop (rangesOf r) := by
        rw [hranges, rangesOf_append, List.append_assoc, rangesOf_cons, hmstart, hmstop]
        rfl
      rw [hranges']
      exact .last hmap' hn' hin (not_lt.1 hstop)
  · obtain ⟨s', hloop, hlinked, hranges⟩ := eraseFromIteratorToValue_spec stop
      (s.map.length + 1) h hmap hr' hsepr hrounds
    rw [if_neg hin]
    refine ⟨s', hloop, hlinked, hranges ▸ .apart hmap ?_ hstarts⟩
    rw [rangesOf_append]
    intro p hp
    rcases List.mem_append.1 hp with hp | hp
    · exact (hends p hp).le.trans hn
    · rw [List.mem_singleton.1 hp]
      exact not_lt.1 hin

theorem erase_spec (h : Linked calcSize s) (hsep : Separated s.ranges) (start stop : T) :
    ∃ s', s.erase calcSize start stop = some s' ∧ Linked calcSize s' ∧ Separated s'.ranges ∧
      ∀ x, x ∈ covers s'.ranges ↔ x ∈ covers s.ranges ∧ ¬(start ≤ x ∧ x < stop) := by
  by_cases hge : start ≥ stop
  · refine ⟨s, by rw [erase, if_pos hge], h, hsep, fun x => ?_⟩
    exact (and_iff_left fun hx => absurd (hx.1.trans_lt hx.2) (not_lt.2 hge)).symm
  have hlt : start < stop := not_le.1 hge
  obtain ⟨l, r, hmap, hl, hr⟩ := exists_upper h start
  have hspec : ∃ s', s.erase calcSize start stop = some s' ∧ Linked calcSize s' ∧
      Erased s.map start stop s'.ranges := by
    rcases r with - | ⟨m, r⟩
    · rw [List.append_nil] at hmap
      subst hmap
      exact erase_end h hlt hsep hl
    · exact erase_between h hlt hmap (List.cons_ne_nil m r) hsep hl hr
  obtain ⟨s', herase, hlinked, herased⟩ := hspec
  exact ⟨s', herase, hlinked, herased.spec hsep hlt⟩

omit [LinearOrder S] in
theorem covers_without (hsep : Separated s.ranges) (hmap : s.map = l ++ n :: r)
    {s' : RangeSizeSet T S} (hmap' : s'.map = l ++ r) :
    Separated s'.ranges ∧
      ∀ x, x ∈ covers s'.ranges ↔ x ∈ covers s.ranges ∧ ¬(n.start ≤ x ∧ x < n.stop) := by
  have hsep' : Separated (rangesOf (l ++ n :: r)) := hmap ▸ hsep
  have hends := ends_lt_start hsep'
  have hsplit := hsep'
  rw [rangesOf_append, rangesOf_cons] at hsplit
  have hn : n.start < n.stop := (separated_cons.1 (separated_append.1 hsplit).2.1).1
  have hcut : cut n.stop ((n.start, n.stop) :: rangesOf r) = rangesOf r := by
    rw [cut, if_neg (not_le.2 hn), if_neg (lt_irrefl _), if_pos rfl]
  have hstarts : ∀ p ∈ (n.start, n.stop) :: rangesOf r, n.start ≤ p.1 := by
    intro p hp
    rcases List.mem_cons.1 hp with rfl | hp
    · exact le_rfl
    · obtain ⟨m, hm, rfl⟩ := List.mem_map.1 hp
      exact (hn.trans (stop_lt_start hsep' hm)).le
  have happart := cut_apart n.stop hsplit (fun p hp => (hends p hp).le) hstarts
  rw [hcut] at happart
  rw [ranges_eq hmap, ranges_eq hmap', rangesOf_cons]
  exact happart

end
end RangeSizeSet
end DolphinXR.Common
