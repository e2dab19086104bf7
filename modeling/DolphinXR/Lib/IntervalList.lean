import Mathlib.Order.MinMax
import Mathlib.Data.Set.Basic

/- Sets of points of a linear order as lists of half-open intervals, each a pair of its ends.
   `Separated` lists are the normal form: no interval is empty, and each ends before the next one
   begins. Two of them with the same points are equal. `merge` puts an interval in front of a list
   and takes in what it reaches; `cut` drops from a list what lies below a point. -/
namespace DolphinXR.Lib.IntervalList
variable {T : Type} [LinearOrder T]

def covers (l : List (T × T)) : Set T := {x | ∃ p ∈ l, p.1 ≤ x ∧ x < p.2}

structure Separated (l : List (T × T)) : Prop where
  nonempty : ∀ p ∈ l, p.1 < p.2
  apart : l.Pairwise fun p q => p.2 < q.1

section
variable {l m : List (T × T)} {p : T × T} {x : T}

theorem not_mem_covers_nil : x ∉ covers ([] : List (T × T)) := by
  rintro ⟨p, hp, -⟩
  exact absurd hp List.not_mem_nil

theorem mem_covers_cons : x ∈ covers (p :: l) ↔ (p.1 ≤ x ∧ x < p.2) ∨ x ∈ covers l := by
  constructor
  · rintro ⟨q, hq, hx⟩
    rcases List.mem_cons.1 hq with rfl | hq
    · exact .inl hx
    · exact .inr ⟨q, hq, hx⟩
  · rintro (hx | ⟨q, hq, hx⟩)
    · exact ⟨p, List.mem_cons_self, hx⟩
    · exact ⟨q, List.mem_cons_of_mem _ hq, hx⟩

theorem mem_covers_append : x ∈ covers (l ++ m) ↔ x ∈ covers l ∨ x ∈ covers m := by
  constructor
  · rintro ⟨q, hq, hx⟩
    rcases List.mem_append.1 hq with hq | hq
    · exact .inl ⟨q, hq, hx⟩
    · exact .inr ⟨q, hq, hx⟩
  · rintro (⟨q, hq, hx⟩ | ⟨q, hq, hx⟩)
    · exact ⟨q, List.mem_append_left _ hq, hx⟩
    · exact ⟨q, List.mem_append_right _ hq, hx⟩

theorem separated_nil : Separated ([] : List (T × T)) := ⟨by simp, List.Pairwise.nil⟩

theorem separated_cons :
    Separated (p :: l) ↔ p.1 < p.2 ∧ (∀ q ∈ l, p.2 < q.1) ∧ Separated l := by
  constructor
  · intro h
    obtain ⟨hp, hl⟩ := List.pairwise_cons.1 h.apart
    exact ⟨h.nonempty p List.mem_cons_self, hp,
      fun q hq => h.nonempty q (List.mem_cons_of_mem _ hq), hl⟩
  · rintro ⟨hne, hp, hl⟩
    refine ⟨?_, List.pairwise_cons.2 ⟨hp, hl.apart⟩⟩
    intro q hq
    rcases List.mem_cons.1 hq with rfl | hq
    · exact hne
    · exact hl.nonempty q hq

theorem separated_append :
    Separated (l ++ m) ↔ Separated l ∧ Separated m ∧ ∀ p ∈ l, ∀ q ∈ m, p.2 < q.1 := by
  constructor
  · intro h
    obtain ⟨hl, hm, hlm⟩ := List.pairwise_append.1 h.apart
    exact ⟨⟨fun p hp => h.nonempty p (List.mem_append_left _ hp), hl⟩,
      ⟨fun p hp => h.nonempty p (List.mem_append_right _ hp), hm⟩, hlm⟩
  · rintro ⟨hl, hm, hlm⟩
    refine ⟨?_, List.pairwise_append.2 ⟨hl.apart, hm.apart, hlm⟩⟩
    intro p hp
    rcases List.mem_append.1 hp with hp | hp
    · exact hl.nonempty p hp
    · exact hm.nonempty p hp

theorem ends_lt_of_last (h : Separated (l ++ [p])) (hp : p.2 < x) : ∀ q ∈ l ++ [p], q.2 < x := by
  obtain ⟨-, hlast, hlp⟩ := separated_append.1 h
  intro q hq
  rcases List.mem_append.1 hq with hq | hq
  · exact ((hlp q hq p List.mem_cons_self).trans (separated_cons.1 hlast).1).trans hp
  · rw [List.mem_singleton.1 hq]
    exact hp

theorem lt_of_mem_covers (h : Separated (p :: l)) (hx : x ∈ covers l) : p.2 < x := by
  obtain ⟨q, hq, hqx, -⟩ := hx
  exact lt_of_lt_of_le ((separated_cons.1 h).2.1 q hq) hqx

theorem first_le (h : Separated (p :: l)) (hx : x ∈ covers (p :: l)) : p.1 ≤ x := by
  rcases mem_covers_cons.1 hx with hx | hx
  · exact hx.1
  · exact ((separated_cons.1 h).1.trans (lt_of_mem_covers h hx)).le

theorem first_mem (h : Separated (p :: l)) : p.1 ∈ covers (p :: l) :=
  mem_covers_cons.2 (.inl ⟨le_rfl, (separated_cons.1 h).1⟩)

theorem end_not_mem (h : Separated (p :: l)) : p.2 ∉ covers (p :: l) := by
  intro hx
  rcases mem_covers_cons.1 hx with hx | hx
  · exact lt_irrefl _ hx.2
  · exact lt_irrefl _ (lt_of_mem_covers h hx)

theorem end_le_of_covers_subset {q : T × T} (hl : Separated (p :: l))
    (hstart : p.1 = q.1) (hsub : covers (q :: m) ⊆ covers (p :: l)) : q.2 ≤ p.2 := by
  by_contra hlt
  have hp : p.1 < p.2 := (separated_cons.1 hl).1
  have hmem : p.2 ∈ covers (q :: m) :=
    mem_covers_cons.2 (.inl ⟨hstart ▸ hp.le, not_le.1 hlt⟩)
  exact end_not_mem hl (hsub hmem)

theorem covers_tail_subset {q : T × T} (hl : Separated (p :: l)) (hpq : p = q)
    (hsub : covers (p :: l) ⊆ covers (q :: m)) : covers l ⊆ covers m := by
  intro x hx
  subst hpq
  have hlt := lt_of_mem_covers hl hx
  rcases mem_covers_cons.1 (hsub (mem_covers_cons.2 (.inr hx))) with hx' | hx'
  · exact absurd hx'.2 (not_lt.2 hlt.le)
  · exact hx'

theorem eq_of_covers_eq (hl : Separated l) (hm : Separated m) (h : covers l = covers m) :
    l = m := by
  induction l generalizing m with
  | nil =>
    cases m with
    | nil => rfl
    | cons q m => exact absurd (h ▸ first_mem hm) not_mem_covers_nil
  | cons p l ih =>
    cases m with
    | nil => exact absurd (h ▸ first_mem hl) not_mem_covers_nil
    | cons q m =>
      have hstart : p.1 = q.1 :=
        le_antisymm (first_le hl (h ▸ first_mem hm)) (first_le hm (h ▸ first_mem hl))
      have hend : p.2 = q.2 :=
        le_antisymm (end_le_of_covers_subset hm hstart.symm h.subset)
          (end_le_of_covers_subset hl hstart h.superset)
      have hpq : p = q := Prod.ext hstart hend
      have htail : covers l = covers m :=
        Set.Subset.antisymm (covers_tail_subset hl hpq h.subset)
          (covers_tail_subset hm hpq.symm h.superset)
      rw [hpq, ih (separated_cons.1 hl).2.2 (separated_cons.1 hm).2.2 htail]

end

/-! What an interval reaches. -/

/-- The interval from `start` to `stop`, in front of a list, takes in the intervals that begin up to
    `reach`. -/
def merge (start stop reach : T) : List (T × T) → List (T × T)
  | [] => [(start, stop)]
  | p :: l => if p.1 ≤ reach then merge start (max stop p.2) reach l else (start, stop) :: p :: l

section
variable {start stop reach x : T} {l : List (T × T)}

theorem covers_merge (hreach : reach ≤ stop) (hl : ∀ p ∈ l, start ≤ p.1) :
    x ∈ covers (merge start stop reach l) ↔ (start ≤ x ∧ x < stop) ∨ x ∈ covers l := by
  induction l generalizing stop with
  | nil => exact mem_covers_cons
  | cons p l ih =>
    rw [merge]
    by_cases hp : p.1 ≤ reach
    · have hstart : start ≤ p.1 := hl p List.mem_cons_self
      rw [if_pos hp, ih (le_max_of_le_left hreach) fun q hq => hl q (List.mem_cons_of_mem _ hq),
        mem_covers_cons, lt_max_iff]
      constructor
      · rintro (⟨hx, hlt | hlt⟩ | hx)
        · exact .inl ⟨hx, hlt⟩
        · by_cases hpx : p.1 ≤ x
          · exact .inr (.inl ⟨hpx, hlt⟩)
          · exact .inl ⟨hx, lt_of_lt_of_le (not_le.1 hpx) (hp.trans hreach)⟩
        · exact .inr (.inr hx)
      · rintro (hx | hx | hx)
        · exact .inl ⟨hx.1, .inl hx.2⟩
        · exact .inl ⟨hstart.trans hx.1, .inr hx.2⟩
        · exact .inr hx
    · rw [if_neg hp, mem_covers_cons]

theorem start_of_mem_merge {q : T × T} (hq : q ∈ merge start stop reach l) :
    q.1 = start ∨ q ∈ l := by
  induction l generalizing stop with
  | nil => exact .inl (congrArg Prod.fst (List.mem_singleton.1 hq))
  | cons p l ih =>
    rw [merge] at hq
    split at hq
    · exact (ih hq).imp_right (List.mem_cons_of_mem _)
    · rcases List.mem_cons.1 hq with rfl | hq
      · exact .inl rfl
      · exact .inr hq

theorem separated_merge (hne : start < stop) (hl : Separated l)
    (hstop : stop ≤ reach ∨ ∀ p ∈ l, stop < p.1) : Separated (merge start stop reach l) := by
  induction l generalizing stop with
  | nil => exact separated_cons.2 ⟨hne, by simp, separated_nil⟩
  | cons p l ih =>
    obtain ⟨hp, hpl, hl'⟩ := separated_cons.1 hl
    rw [merge]
    by_cases hle : p.1 ≤ reach
    · rw [if_pos hle]
      apply ih (lt_max_of_lt_left hne) hl'
      rcases hstop with hstop | hstop
      · by_cases hend : p.2 ≤ reach
        · exact .inl (max_le hstop hend)
        · right
          intro q hq
          exact max_lt (lt_of_le_of_lt hstop ((not_le.1 hend).trans (hpl q hq))) (hpl q hq)
      · right
        intro q hq
        exact max_lt ((hstop p List.mem_cons_self).trans (hp.trans (hpl q hq))) (hpl q hq)
    · have hlt : stop < p.1 := by
        rcases hstop with hstop | hstop
        · exact lt_of_le_of_lt hstop (not_le.1 hle)
        · exact hstop p List.mem_cons_self
      rw [if_neg hle]
      refine separated_cons.2 ⟨hne, ?_, hl⟩
      intro q hq
      rcases List.mem_cons.1 hq with rfl | hq
      · exact hlt
      · exact hlt.trans (hp.trans (hpl q hq))

end

section
variable {l r : List (T × T)} {start stop x : T}

theorem merge_apart (h : Separated (l ++ r)) (hne : start < stop) (hl : ∀ p ∈ l, p.2 < start)
    (hr : ∀ p ∈ r, start < p.1) :
    Separated (l ++ merge start stop stop r) ∧
      ∀ x, x ∈ covers (l ++ merge start stop stop r) ↔
        x ∈ covers (l ++ r) ∨ (start ≤ x ∧ x < stop) := by
  obtain ⟨hsl, hsr, -⟩ := separated_append.1 h
  constructor
  · refine separated_append.2 ⟨hsl, separated_merge hne hsr (.inl le_rfl), ?_⟩
    intro p hp q hq
    rcases start_of_mem_merge hq with heq | hq
    · exact heq ▸ hl p hp
    · exact (hl p hp).trans (hr q hq)
  · intro x
    rw [mem_covers_append, mem_covers_append, covers_merge le_rfl fun p hp => (hr p hp).le,
      or_comm (b := x ∈ covers r), ← or_assoc]

theorem merge_last {a b : T} (h : Separated (l ++ (a, b) :: r)) (ha : a ≤ start)
    (hb : start ≤ b) (hr : ∀ p ∈ r, start < p.1) :
    Separated (l ++ merge a (max b stop) stop r) ∧
      ∀ x, x ∈ covers (l ++ merge a (max b stop) stop r) ↔
        x ∈ covers (l ++ (a, b) :: r) ∨ (start ≤ x ∧ x < stop) := by
  obtain ⟨hsl, hsr, hlr⟩ := separated_append.1 h
  obtain ⟨hab, hbr, hsr⟩ := separated_cons.1 hsr
  constructor
  · refine separated_append.2 ⟨hsl, separated_merge (lt_max_of_lt_left hab) hsr ?_, ?_⟩
    · by_cases hle : b ≤ stop
      · exact .inl (max_le hle le_rfl)
      · rw [max_eq_left (not_le.1 hle).le]
        exact .inr hbr
    · intro p hp q hq
      rcases start_of_mem_merge hq with heq | hq
      · exact heq ▸ hlr p hp (a, b) List.mem_cons_self
      · exact hlr p hp q (List.mem_cons_of_mem _ hq)
  · intro x
    rw [mem_covers_append, mem_covers_append, mem_covers_cons,
      covers_merge (le_max_right b stop) fun p hp => (ha.trans_lt (hr p hp)).le, lt_max_iff]
    constructor
    · rintro (hx | ⟨hax, hx | hx⟩ | hx)
      · exact .inl (.inl hx)
      · exact .inl (.inr (.inl ⟨hax, hx⟩))
      · by_cases hsx : start ≤ x
        · exact .inr ⟨hsx, hx⟩
        · exact .inl (.inr (.inl ⟨hax, (not_le.1 hsx).trans_le hb⟩))
      · exact .inl (.inr (.inr hx))
    · rintro ((hx | hx | hx) | hx)
      · exact .inl hx
      · exact .inr (.inl ⟨hx.1, .inl hx.2⟩)
      · exact .inr (.inr hx)
      · exact .inr (.inl ⟨ha.trans hx.1, .inr hx.2⟩)

end

/-! What lies below a point. -/

def cut (point : T) : List (T × T) → List (T × T)
  | [] => []
  | p :: l =>
    if point ≤ p.1 then p :: l
    else if point < p.2 then (point, p.2) :: l
    else if point = p.2 then l
    else cut point l

section
variable {point x : T} {l : List (T × T)}

theorem covers_cut (hl : Separated l) : x ∈ covers (cut point l) ↔ x ∈ covers l ∧ point ≤ x := by
  induction l with
  | nil => exact ⟨fun hx => absurd hx not_mem_covers_nil, fun hx => absurd hx.1 not_mem_covers_nil⟩
  | cons p l ih =>
    rw [cut]
    by_cases hbefore : point ≤ p.1
    · rw [if_pos hbefore]
      exact ⟨fun hx => ⟨hx, hbefore.trans (first_le hl hx)⟩, fun hx => hx.1⟩
    rw [if_neg hbefore]
    have hp : p.1 < point := not_le.1 hbefore
    by_cases hinside : point < p.2
    · rw [if_pos hinside, mem_covers_cons, mem_covers_cons]
      constructor
      · rintro (hx | hx)
        · exact ⟨.inl ⟨hp.le.trans hx.1, hx.2⟩, hx.1⟩
        · exact ⟨.inr hx, (hinside.trans (lt_of_mem_covers hl hx)).le⟩
      · rintro ⟨hx | hx, hto⟩
        · exact .inl ⟨hto, hx.2⟩
        · exact .inr hx
    rw [if_neg hinside]
    have hend : p.2 ≤ point := not_lt.1 hinside
    by_cases heq : point = p.2
    · rw [if_pos heq, mem_covers_cons]
      constructor
      · intro hx
        exact ⟨.inr hx, heq ▸ (lt_of_mem_covers hl hx).le⟩
      · rintro ⟨hx | hx, hto⟩
        · exact absurd (hx.2.trans_le hend) (not_lt.2 hto)
        · exact hx
    · rw [if_neg heq, ih (separated_cons.1 hl).2.2, mem_covers_cons]
      constructor
      · rintro ⟨hx, hto⟩
        exact ⟨.inr hx, hto⟩
      · rintro ⟨hx | hx, hto⟩
        · exact absurd (hx.2.trans_le hend) (not_lt.2 hto)
        · exact ⟨hx, hto⟩

theorem start_of_mem_cut {q : T × T} (hq : q ∈ cut point l) : ∃ p ∈ l, p.1 ≤ q.1 := by
  induction l with
  | nil => exact absurd hq List.not_mem_nil
  | cons p l ih =>
    rw [cut] at hq
    split at hq
    · exact ⟨q, hq, le_rfl⟩
    · rename_i hbefore
      split at hq
      · rcases List.mem_cons.1 hq with rfl | hq
        · exact ⟨p, List.mem_cons_self, (not_le.1 hbefore).le⟩
        · exact ⟨q, List.mem_cons_of_mem _ hq, le_rfl⟩
      · split at hq
        · exact ⟨q, List.mem_cons_of_mem _ hq, le_rfl⟩
        · obtain ⟨p', hp', hle⟩ := ih hq
          exact ⟨p', List.mem_cons_of_mem _ hp', hle⟩

theorem separated_cut (hl : Separated l) : Separated (cut point l) := by
  induction l with
  | nil => exact hl
  | cons p l ih =>
    obtain ⟨hp, hpl, hl'⟩ := separated_cons.1 hl
    rw [cut]
    split
    · exact hl
    · split
      · rename_i hinside
        exact separated_cons.2 ⟨hinside, hpl, hl'⟩
      · split
        · exact hl'
        · exact ih hl'

end

section
variable {l r : List (T × T)} {start stop a b x : T}

theorem cut_apart (stop : T) (h : Separated (l ++ r)) (hl : ∀ p ∈ l, p.2 ≤ start)
    (hr : ∀ p ∈ r, start ≤ p.1) :
    Separated (l ++ cut stop r) ∧
      ∀ x, x ∈ covers (l ++ cut stop r) ↔ x ∈ covers (l ++ r) ∧ ¬(start ≤ x ∧ x < stop) := by
  obtain ⟨hsl, hsr, hlr⟩ := separated_append.1 h
  constructor
  · refine separated_append.2 ⟨hsl, separated_cut hsr, ?_⟩
    intro p hp q hq
    obtain ⟨q', hq', hle⟩ := start_of_mem_cut hq
    exact (hlr p hp q' hq').trans_le hle
  · intro x
    rw [mem_covers_append, mem_covers_append, covers_cut hsr]
    constructor
    · rintro (⟨p, hp, hx⟩ | ⟨hx, hstop⟩)
      · exact ⟨.inl ⟨p, hp, hx⟩, fun hin => absurd hin.1 (not_le.2 (hx.2.trans_le (hl p hp)))⟩
      · exact ⟨.inr hx, fun hin => absurd hin.2 (not_lt.2 hstop)⟩
    · rintro ⟨hx | ⟨p, hp, hx⟩, hout⟩
      · exact .inl hx
      · exact .inr ⟨⟨p, hp, hx⟩, not_lt.1 fun hlt => hout ⟨(hr p hp).trans hx.1, hlt⟩⟩

theorem cut_inside (h : Separated (l ++ (a, b) :: r)) (ha : a < start) (hne : start < stop)
    (hb : stop < b) :
    Separated (l ++ (a, start) :: (stop, b) :: r) ∧
      ∀ x, x ∈ covers (l ++ (a, start) :: (stop, b) :: r) ↔
        x ∈ covers (l ++ (a, b) :: r) ∧ ¬(start ≤ x ∧ x < stop) := by
  obtain ⟨hsl, hsr, hlr⟩ := separated_append.1 h
  obtain ⟨hab, hbr, hsr⟩ := separated_cons.1 hsr
  have hla : ∀ p ∈ l, p.2 < a := fun p hp => hlr p hp (a, b) List.mem_cons_self
  constructor
  · refine separated_append.2 ⟨hsl, separated_cons.2 ⟨ha, ?_, separated_cons.2 ⟨hb, hbr, hsr⟩⟩, ?_⟩
    · intro q hq
      rcases List.mem_cons.1 hq with rfl | hq
      · exact hne
      · exact (hne.trans hb).trans (hbr q hq)
    · intro p hp q hq
      rcases List.mem_cons.1 hq with rfl | hq
      · exact hla p hp
      · rcases List.mem_cons.1 hq with rfl | hq
        · exact (hla p hp).trans (ha.trans hne)
        · exact hlr p hp q (List.mem_cons_of_mem _ hq)
  · intro x
    rw [mem_covers_append, mem_covers_append, mem_covers_cons, mem_covers_cons, mem_covers_cons]
    constructor
    · rintro (⟨p, hp, hx⟩ | hx | hx | ⟨q, hq, hx⟩)
      · exact ⟨.inl ⟨p, hp, hx⟩, fun hin =>
          absurd hin.1 (not_le.2 (hx.2.trans ((hla p hp).trans ha)))⟩
      · exact ⟨.inr (.inl ⟨hx.1, hx.2.trans (hne.trans hb)⟩), fun hin =>
          absurd hin.1 (not_le.2 hx.2)⟩
      · exact ⟨.inr (.inl ⟨(ha.trans hne).le.trans hx.1, hx.2⟩), fun hin =>
          absurd hin.2 (not_lt.2 hx.1)⟩
      · exact ⟨.inr (.inr ⟨q, hq, hx⟩), fun hin =>
          absurd hin.2 (not_lt.2 ((hb.trans (hbr q hq)).le.trans hx.1))⟩
    · rintro ⟨hx | hx | hx, hout⟩
      · exact .inl hx
      · by_cases hlt : x < start
        · exact .inr (.inl ⟨hx.1, hlt⟩)
        · exact .inr (.inr (.inl ⟨not_lt.1 fun hlt' => hout ⟨not_lt.1 hlt, hlt'⟩, hx.2⟩))
      · exact .inr (.inr (.inr hx))

theorem cut_last (h : Separated (l ++ (a, b) :: r)) (ha : a < start) (hb : start < b)
    (hstop : b ≤ stop) :
    Separated (l ++ (a, start) :: cut stop r) ∧
      ∀ x, x ∈ covers (l ++ (a, start) :: cut stop r) ↔
        x ∈ covers (l ++ (a, b) :: r) ∧ ¬(start ≤ x ∧ x < stop) := by
  obtain ⟨hsl, hsr, hlr⟩ := separated_append.1 h
  obtain ⟨hab, hbr, hsr⟩ := separated_cons.1 hsr
  have hla : ∀ p ∈ l, p.2 < a := fun p hp => hlr p hp (a, b) List.mem_cons_self
  have hcut : ∀ q ∈ cut stop r, b < q.1 := by
    intro q hq
    obtain ⟨q', hq', hle⟩ := start_of_mem_cut hq
    exact (hbr q' hq').trans_le hle
  constructor
  · refine separated_append.2 ⟨hsl, separated_cons.2 ⟨ha, ?_, separated_cut hsr⟩, ?_⟩
    · intro q hq
      exact hb.trans (hcut q hq)
    · intro p hp q hq
      rcases List.mem_cons.1 hq with rfl | hq
      · exact hla p hp
      · exact (hla p hp).trans (hab.trans (hcut q hq))
  · intro x
    rw [mem_covers_append, mem_covers_append, mem_covers_cons, mem_covers_cons, covers_cut hsr]
    constructor
    · rintro (⟨p, hp, hx⟩ | hx | ⟨hx, hle⟩)
      · exact ⟨.inl ⟨p, hp, hx⟩, fun hin =>
          absurd hin.1 (not_le.2 (hx.2.trans ((hla p hp).trans ha)))⟩
      · exact ⟨.inr (.inl ⟨hx.1, hx.2.trans hb⟩), fun hin => absurd hin.1 (not_le.2 hx.2)⟩
      · exact ⟨.inr (.inr hx), fun hin => absurd hin.2 (not_lt.2 hle)⟩
    · rintro ⟨hx | hx | ⟨q, hq, hx⟩, hout⟩
      · exact .inl hx
      · refine .inr (.inl ⟨hx.1, not_le.1 fun hle => hout ⟨hle, hx.2.trans_le hstop⟩⟩)
      · refine .inr (.inr ⟨⟨q, hq, hx⟩, not_lt.1 fun hlt => hout ⟨?_, hlt⟩⟩)
        exact (hb.trans ((hbr q hq).trans_le hx.1)).le

end
end DolphinXR.Lib.IntervalList
