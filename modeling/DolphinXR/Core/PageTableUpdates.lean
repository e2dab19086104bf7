import DolphinXR.Core.PageTableSteps

/- What an update keeps from one entry to the next. The mappings are those of entries of the
   copy, and an entry that both tables have is either behind such a mapping or behind a new entry
   that is still to come: a mapping that goes leaves one to be looked at again where it was in
   front of another. What is to be done on the host follows from the mappings too, as long as
   each is set once. -/
namespace DolphinXR.PowerPC
namespace Mmu
variable (mmu : Mmu) (new : Entries)

/-- Every entry that is reached is in a PTEG of the pages it is read as one for. -/
def Placed (entries : Entries) : Prop :=
  ∀ slot ∈ mmu.slots mmu.pageTableSize, ∀ page, mmu.Reads (entries slot).lo slot.pteg page →
    slot.pteg = mmu.ptegOf page (entries slot).lo.h

/-- A mapping is the one that the entry at its place asks for. -/
structure MapsTo (entries : Entries) (page : EffectivePage) (m : PageMapping) : Prop where
  segment : (mmu.sr page.sr).t = false
  priority : m.priority < 16
  stands : mmu.Stands entries page m.priority
  eq : m = mmu.mappingOf (entries (mmu.slotOf page m.priority)).hi page m.priority

def Covered (u : Update) (page : EffectivePage) (p : Nat) : Prop :=
  (∃ m, u.mappings page = some m ∧ m.priority ≤ p) ∨
    ∃ q < p, mmu.Stands new page q ∧ u.old (mmu.slotOf page q) ≠ new (mmu.slotOf page q)

structure Consistent (u : Update) : Prop where
  placed : mmu.Placed u.old
  mapped : ∀ page m, u.mappings page = some m → mmu.MapsTo u.old page m
  shadowed : ∀ page p, (mmu.sr page.sr).t = false → p < 16 → mmu.Stands new page p →
    u.old (mmu.slotOf page p) = new (mmu.slotOf page p) → mmu.Covered new u page p
  changed : ∀ slot ∈ mmu.slots mmu.pageTableSize, u.old slot ≠ new slot →
    (u.old slot).lo.v = true → mmu.getPageIndex (u.old slot).lo slot.pteg ≠ none

/-- How a page is to be on the host. -/
def host (u : Update) (page : EffectivePage) : Option (BitVec 20 × Bool) :=
  (u.mappings page).bind fun m =>
    let hi := (u.old (mmu.slotOf page m.priority)).hi
    if m.hostMapping && hi.r then some (hi.rpn, hi.c) else none

/-- The lists say what becomes of the host: what changes is removed first, and what is added is
    for mappings that stay. -/
structure Tracked (done : EffectivePage → Nat → Prop)
    (before : EffectivePage → Option (BitVec 20 × Bool)) (u : Update) : Prop where
  kept : ∀ page, mmu.host u page = before page ∨ page ∈ u.removed ∨ before page = none
  listed : ∀ page rpn w, u.Listed page rpn w →
    mmu.host u page = some (rpn, w) ∧ ∃ m, u.mappings page = some m ∧ done page m.priority

/-- An entry the first pass has been at: only secondary entries are left for the second. -/
def Visited (u : Update) (slot : Slot) : Prop :=
  u.old slot = new slot ∨
    (new slot).lo.v = true ∧ (new slot).lo.h = true ∧ u.runPass2 = true ∧
      ∀ page m, u.mappings page = some m → mmu.slotOf page m.priority = slot →
        (u.old slot).quiet = (new slot).quiet

structure Invariant (seen : List Slot) (done : EffectivePage → Nat → Prop)
    (before : EffectivePage → Option (BitVec 20 × Bool)) (u : Update) : Prop where
  consistent : mmu.Consistent new u
  tracked : mmu.Tracked done before u
  visited : ∀ t ∈ seen, mmu.Visited new u t

variable {mmu new} {seen : List Slot} {done done' : EffectivePage → Nat → Prop}
  {before : EffectivePage → Option (BitVec 20 × Bool)} {u u' : Update} {slot : Slot}
  {page : EffectivePage}

/-! ### Mappings and entries -/

theorem MapsTo.of_quiet {entries entries' : Entries} {m : PageMapping}
    (h : mmu.MapsTo entries page m)
    (hquiet : (entries' (mmu.slotOf page m.priority)).quiet =
      (entries (mmu.slotOf page m.priority)).quiet) : mmu.MapsTo entries' page m where
  segment := h.segment
  priority := h.priority
  stands := (Pte.lo_of_quiet hquiet).trans h.stands
  eq := by
    rw [mappingOf, Pte.rpn_of_quiet hquiet, mmu.mapsOnHost_of_quiet hquiet]
    exact h.eq

theorem host_of_quiet (hmap : u'.mappings page = u.mappings page)
    (hquiet : ∀ m, u.mappings page = some m →
      (u'.old (mmu.slotOf page m.priority)).quiet = (u.old (mmu.slotOf page m.priority)).quiet) :
    mmu.host u' page = mmu.host u page := by
  unfold host
  rw [hmap]
  cases hm : u.mappings page with
  | none => rfl
  | some m =>
    have h := hquiet m hm
    simp only [Option.bind_some, Pte.rpn_of_quiet h, Pte.c_of_quiet h, Pte.r_of_quiet h]

theorem exists_of_host (h : mmu.host u page ≠ none) :
    ∃ m, u.mappings page = some m ∧ m.hostMapping = true := by
  unfold host at h
  cases hm : u.mappings page with
  | none =>
    rw [hm] at h
    exact absurd rfl h
  | some m =>
    rw [hm] at h
    refine ⟨m, rfl, ?_⟩
    by_contra hno
    rw [Bool.not_eq_true] at hno
    apply h
    simp [hno]

theorem MapsTo.takes {entries : Entries} {m : PageMapping} (h : mmu.MapsTo entries page m)
    (hslot : mmu.slotOf page m.priority = slot) :
    mmu.Reads (entries slot).lo slot.pteg page ∧
      Mmu.priority slot (entries slot).lo = m.priority := by
  rw [← hslot, h.stands]
  exact ⟨mmu.reads_pattern h.segment _, mmu.priority_slotOf page h.priority⟩

theorem better_priority_le (mapping : PageMapping) (o : Option PageMapping) :
    (better mapping o).priority ≤ mapping.priority := by
  unfold better
  split
  · exact Nat.le_refl _
  · split
    case isTrue h => exact Nat.le_of_lt h
    case isFalse => exact Nat.le_refl _

theorem better_priority_le_of_some {mapping m : PageMapping} :
    (better mapping (some m)).priority ≤ m.priority := by
  unfold better
  dsimp only
  split
  case isTrue => exact Nat.le_refl _
  case isFalse h => exact Nat.not_lt.1 h

/-! ### A mapping goes -/

structure Rechecked (new : Entries) (u u' : Update) : Prop where
  mappings : u'.mappings = u.mappings
  removed : u'.removed = u.removed
  listed : u'.Listed = u.Listed
  quiet : ∀ s, (u'.old s).quiet = (u.old s).quiet
  unequal : ∀ s, u.old s ≠ new s → u'.old s = u.old s
  runPass2 : u.runPass2 = true → u'.runPass2 = true

theorem Rechecked.refl (new : Entries) (u : Update) : Rechecked new u u :=
  ⟨rfl, rfl, rfl, fun _ => rfl, fun _ _ => rfl, id⟩

theorem rechecked_recheck (found : Slot) (switched : Bool) (u : Update) :
    Rechecked new u (recheck new found switched u) where
  mappings := recheck_mappings
  removed := recheck_removed
  listed := by
    funext page rpn w
    unfold Update.Listed
    rw [recheck_addedReadonly, recheck_addedReadwrite]
  quiet := recheck_quiet
  unequal := fun _ => recheck_old_of_ne
  runPass2 := recheck_runPass2

theorem Rechecked.equal (h : Rechecked new u u') {s : Slot} (hequal : u'.old s = new s) :
    u.old s = new s := by
  by_contra hne
  exact hne ((h.unequal s hne).symm.trans hequal)

/-- A page without its mapping. -/
def dropMapping (page : EffectivePage) (e : PageMapping) (u : Update) : Update :=
  { u with
    removed := if e.hostMapping then insertPage page u.removed else u.removed
    mappings := Function.update u.mappings page none }

theorem mappings_of_dropped {e m : PageMapping} {page' : EffectivePage}
    (h : (dropMapping page e u).mappings page' = some m) :
    page' ≠ page ∧ u.mappings page' = some m := by
  change Function.update u.mappings page none page' = some m at h
  rcases eq_or_ne page' page with rfl | hne
  · rw [Function.update_self] at h
    cases h
  · rw [Function.update_of_ne hne] at h
    exact ⟨hne, h⟩

/-- A mapping goes and the entry it was in front of, if there is one, is looked at again. -/
structure Dropped (mmu : Mmu) (new : Entries) (page : EffectivePage) (e : PageMapping)
    (u u' : Update) : Prop where
  rechecked : Rechecked new (dropMapping page e u) u'
  /-- Behind the mapping nothing is taken for mapped. -/
  behind : ∀ p, e.priority ≤ p → p < 16 → mmu.Stands new page p →
    u'.old (mmu.slotOf page p) = new (mmu.slotOf page p) →
      ∃ q < p, mmu.Stands new page q ∧ u'.old (mmu.slotOf page q) ≠ new (mmu.slotOf page q)
  /-- Only an entry behind the mapping is made unequal. -/
  flipped : ∀ s, u.old s = new s → u'.old s ≠ new s →
    ∃ q, e.priority ≤ q ∧ q < 16 ∧ s = mmu.slotOf page q ∧ mmu.Stands new page q ∧
      (e.priority < 8 → 8 ≤ q → u'.runPass2 = true)

theorem dropped_fixup {e : PageMapping} (he : e.priority < 16) :
    Dropped mmu new page e u (mmu.fixupShadowedMappings new
      (mmu.pattern page (decide (8 ≤ e.priority))) (mmu.slotOf page e.priority)
      (dropMapping page e u)) := by
  have hplace : e.priority =
      (mmu.slotOf page e.priority).place.val + 8 * (decide (8 ≤ e.priority)).toNat :=
    (mmu.priority_slotOf page he).symm
  rcases mmu.fixupShadowedMappings_cases hplace rfl (dropMapping page e u) with
    ⟨heq, hnone⟩ | ⟨q, hle, hlt, hstands, hfirst, heq⟩
  · rw [heq]
    refine ⟨Rechecked.refl _ _, fun p hp hp16 hs => absurd hs (hnone p hp hp16), ?_⟩
    exact fun s hs hne => absurd hs hne
  · rw [heq]
    refine ⟨rechecked_recheck .., fun p hp _ hs hequal => ⟨q, ?_, hstands, recheck_unequal⟩, ?_⟩
    · rcases Nat.lt_trichotomy q p with h | h | h
      · exact h
      · rw [← h] at hequal
        exact absurd hequal recheck_unequal
      · exact absurd hs (hfirst p hp h)
    · intro s hs hne
      have hslot : s = mmu.slotOf page q := by
        by_contra hother
        rw [recheck_old_of_ne_slot hother] at hne
        exact hne hs
      refine ⟨q, hle, hlt, hslot, hstands, fun hlow hhigh => ?_⟩
      rw [decide_eq_false (by omega), decide_eq_true hhigh]
      rw [hslot] at hs
      exact recheck_switched hs

section Drop
variable {e : PageMapping}

theorem Dropped.unequal (h : Dropped mmu new page e u u') {s : Slot} (hne : u.old s ≠ new s) :
    u'.old s = u.old s := h.rechecked.unequal s hne

theorem Dropped.quiet (h : Dropped mmu new page e u u') (s : Slot) :
    (u'.old s).quiet = (u.old s).quiet := h.rechecked.quiet s

theorem Dropped.mappings (h : Dropped mmu new page e u u') {page' : EffectivePage}
    {m : PageMapping} (hm : u'.mappings page' = some m) :
    page' ≠ page ∧ u.mappings page' = some m := by
  rw [h.rechecked.mappings] at hm
  exact mappings_of_dropped hm

theorem Dropped.mappings_eq (h : Dropped mmu new page e u u') {page' : EffectivePage}
    (hne : page' ≠ page) : u'.mappings page' = u.mappings page' := by
  rw [h.rechecked.mappings]
  exact Function.update_of_ne hne ..

theorem Dropped.consistent (h : Dropped mmu new page e u u') (hu : mmu.Consistent new u)
    (he : u.mappings page = some e) : mmu.Consistent new u' where
  placed := by
    intro s hs page' hreads
    rw [Pte.lo_of_quiet (h.quiet s)] at hreads ⊢
    exact hu.placed s hs page' hreads
  mapped := fun page' m hm =>
    (hu.mapped page' m (h.mappings hm).2).of_quiet (h.quiet _)
  shadowed := by
    intro page' p ht hp hstands hequal
    have hcovered := hu.shadowed page' p ht hp hstands (h.rechecked.equal hequal)
    have hpending : (∃ q < p, mmu.Stands new page' q ∧
        u.old (mmu.slotOf page' q) ≠ new (mmu.slotOf page' q)) → mmu.Covered new u' page' p := by
      rintro ⟨q, hq, hs, hne⟩
      exact .inr ⟨q, hq, hs, by rwa [h.unequal hne]⟩
    rcases hcovered with ⟨m, hm, hle⟩ | hcovered
    · rcases eq_or_ne page' page with rfl | hne
      · cases he.symm.trans hm
        exact .inr (h.behind p hle hp hstands hequal)
      · exact .inl ⟨m, (h.mappings_eq hne).trans hm, hle⟩
    · exact hpending hcovered
  changed := by
    intro s hs hne hv
    by_cases hequal : u.old s = new s
    · obtain ⟨q, -, -, rfl, hstands, -⟩ := h.flipped s hequal hne
      rw [Pte.lo_of_quiet (h.quiet _), hequal, hstands]
      change mmu.getPageIndex _ (mmu.ptegOf page (decide (8 ≤ q))) ≠ none
      rw [mmu.getPageIndex_pattern]
      exact nofun
    · rw [h.unequal hequal] at hv ⊢
      exact hu.changed s hs hequal hv

theorem Dropped.tracked (h : Dropped mmu new page e u u') (hu : mmu.Tracked done before u)
    (he : u.mappings page = some e) (hdone : ¬ done page e.priority) :
    mmu.Tracked done before u' where
  kept := by
    intro page'
    have hremoved : page' ∈ u.removed → page' ∈ u'.removed := by
      rw [h.rechecked.removed]
      unfold dropMapping
      dsimp only
      split
      · exact fun hmem => mem_insertPage.2 (.inl hmem)
      · exact id
    rcases eq_or_ne page' page with rfl | hne
    · cases hhost : e.hostMapping with
      | true =>
        refine .inr (.inl ?_)
        rw [h.rechecked.removed, dropMapping, hhost]
        exact mem_insertPage.2 (.inr rfl)
      | false =>
        have hnone : mmu.host u page' = none := by
          by_contra hsome
          obtain ⟨m, hm, hyes⟩ := exists_of_host hsome
          cases he.symm.trans hm
          exact absurd (hyes.symm.trans hhost) nofun
        rcases hu.kept page' with hsame | hmem | hbefore
        · exact .inr (.inr (hsame.symm.trans hnone))
        · exact .inr (.inl (hremoved hmem))
        · exact .inr (.inr hbefore)
    · rw [host_of_quiet (h.mappings_eq hne) fun m _ => h.quiet _]
      exact (hu.kept page').imp_right (.imp_left hremoved)
  listed := by
    intro page' rpn w hlisted
    rw [h.rechecked.listed] at hlisted
    obtain ⟨hhost, m, hm, hmdone⟩ := hu.listed page' rpn w hlisted
    rcases eq_or_ne page' page with rfl | hne
    · cases he.symm.trans hm
      exact absurd hmdone hdone
    · rw [host_of_quiet (h.mappings_eq hne) fun m _ => h.quiet _]
      exact ⟨hhost, m, (h.mappings_eq hne).trans hm, hmdone⟩

theorem Dropped.visited (h : Dropped mmu new page e u u') {t : Slot} (hu : mmu.Visited new u t)
    (horder : t.pteg = (mmu.slotOf page e.priority).pteg →
      t.place < (mmu.slotOf page e.priority).place) : mmu.Visited new u' t := by
  by_cases hequal' : u'.old t = new t
  · exact .inl hequal'
  · rcases hu with hequal | ⟨hv, hh, hrun, hquiet⟩
    · obtain ⟨q, hle, hq, rfl, hstands, hswitch⟩ := h.flipped t hequal hequal'
      have hsides : e.priority < 8 ∧ 8 ≤ q := by
        by_contra hno
        have hside : decide (8 ≤ q) = decide (8 ≤ e.priority) := decide_eq_decide.2 (by omega)
        have hlt : q % 8 < e.priority % 8 := horder (congrArg (mmu.ptegOf page) hside)
        omega
      rw [Stands, decide_eq_true hsides.2] at hstands
      refine .inr ⟨?_, ?_, hswitch hsides.1 hsides.2, fun _ _ _ _ => ?_⟩
      · rw [hstands]
        rfl
      · rw [hstands]
        rfl
      · rw [h.quiet, hequal]
    · refine .inr ⟨hv, hh, h.rechecked.runPass2 hrun, fun page' m hm hslot => ?_⟩
      rw [h.quiet]
      exact hquiet page' m (h.mappings hm).2 hslot

theorem Dropped.invariant (h : Dropped mmu new page e u u')
    (hu : mmu.Invariant new seen done before u) (he : u.mappings page = some e)
    (hdone : ¬ done page e.priority)
    (horder : ∀ t ∈ seen, t.pteg = (mmu.slotOf page e.priority).pteg →
      t.place < (mmu.slotOf page e.priority).place) : mmu.Invariant new seen done before u' where
  consistent := h.consistent hu.consistent he
  tracked := h.tracked hu.tracked he hdone
  visited := fun t ht => h.visited (hu.visited t ht) (horder t ht)

end Drop

theorem removeInSegment_cases {pageIndex : BitVec 16} {i : Fin 16} (hu : mmu.Consistent new u)
    (hslot : slot ∈ mmu.slots mmu.pageTableSize) (hv : (u.old slot).lo.v = true)
    (hindex : mmu.getPageIndex (u.old slot).lo slot.pteg = some pageIndex) :
    (mmu.removeInSegment new (u.old slot).lo slot pageIndex u i = u ∧
        ∀ page m, page.sr = i → u.mappings page = some m → mmu.slotOf page m.priority ≠ slot) ∨
      ∃ e, u.mappings ⟨i, pageIndex⟩ = some e ∧ mmu.slotOf ⟨i, pageIndex⟩ e.priority = slot ∧
        Dropped mmu new ⟨i, pageIndex⟩ e u
          (mmu.removeInSegment new (u.old slot).lo slot pageIndex u i) := by
  -- A mapping that sits at the entry is one of the page the entry is read as.
  have hpage : ∀ page m, page.sr = i → u.mappings page = some m →
      mmu.slotOf page m.priority = slot → (mmu.sr i).vsid = (u.old slot).lo.vsid ∧
        (mmu.sr i).t = false ∧ page = ⟨i, pageIndex⟩ ∧
        priority slot (u.old slot).lo = m.priority := by
    rintro page m rfl hm hat
    obtain ⟨⟨-, hvsid, ht, hread⟩, hprio⟩ := (hu.mapped page m hm).takes hat
    refine ⟨hvsid, ht, ?_, hprio⟩
    rw [Option.some.inj (hindex.symm.trans hread)]
  unfold removeInSegment
  dsimp only
  split
  case isTrue hother =>
    refine .inl ⟨rfl, fun page m hi hm hat => ?_⟩
    obtain ⟨hvsid, ht, -⟩ := hpage page m hi hm hat
    rcases hother with hne | ht'
    · exact hne hvsid
    · exact absurd (ht'.symm.trans ht) nofun
  case isFalse hhere =>
    rw [not_or, not_not, Bool.not_eq_true] at hhere
    split
    case h_1 hnone =>
      refine .inl ⟨rfl, fun page m hi hm hat => ?_⟩
      obtain ⟨-, -, rfl, -⟩ := hpage page m hi hm hat
      exact absurd (hm.symm.trans hnone) nofun
    case h_2 e he =>
      split
      case isFalse hprio =>
        refine .inl ⟨rfl, fun page m hi hm hat => ?_⟩
        obtain ⟨-, -, rfl, hsame⟩ := hpage page m hi hm hat
        cases he.symm.trans hm
        exact hprio hsame.symm
      case isTrue hprio =>
        have hreads : mmu.Reads (u.old slot).lo slot.pteg ⟨i, pageIndex⟩ :=
          ⟨hv, hhere.1, hhere.2, hindex⟩
        have hat : mmu.slotOf ⟨i, pageIndex⟩ e.priority = slot := by
          rw [hprio]
          exact mmu.slotOf_priority (hu.placed slot hslot _ hreads)
        refine .inr ⟨e, he, hat, ?_⟩
        have hpattern := (hu.mapped _ e he).stands
        rw [Stands, hat] at hpattern
        have hdropped := @dropped_fixup mmu new u ⟨i, pageIndex⟩ _ (hu.mapped _ e he).priority
        rw [hat, ← hpattern] at hdropped
        exact hdropped

theorem removeMappings_spec (hu : mmu.Invariant new seen done before u)
    (hslot : slot ∈ mmu.slots mmu.pageTableSize) (hne : u.old slot ≠ new slot)
    (horder : ∀ t ∈ seen, t.pteg = slot.pteg → t.place < slot.place)
    (hdone : ∀ page p, mmu.slotOf page p = slot → ¬ done page p) :
    ∃ u', mmu.removeMappings new slot u = some u' ∧ mmu.Invariant new seen done before u' ∧
      u'.old slot = u.old slot ∧
      ∀ page m, u'.mappings page = some m → mmu.slotOf page m.priority ≠ slot := by
  unfold removeMappings
  dsimp only
  cases hv : (u.old slot).lo.v with
  | false =>
    refine ⟨u, rfl, hu, rfl, fun page m hm hat => ?_⟩
    obtain ⟨⟨hv', -⟩, -⟩ := (hu.consistent.mapped page m hm).takes hat
    exact absurd (hv'.symm.trans hv) nofun
  | true =>
    obtain ⟨pageIndex, hindex⟩ :=
      Option.ne_none_iff_exists'.1 (hu.consistent.changed slot hslot hne hv)
    rw [if_pos rfl, hindex]
    refine ⟨_, rfl, ?_⟩
    have hloop := foldl_done (motive := fun segments v =>
        mmu.Invariant new seen done before v ∧ v.old slot = u.old slot ∧
          ∀ page m, page.sr ∈ segments → v.mappings page = some m →
            mmu.slotOf page m.priority ≠ slot)
      (List.nodup_finRange 16)
      (f := mmu.removeInSegment new (u.old slot).lo slot pageIndex) (b := u)
      ⟨hu, rfl, fun _ _ hmem => absurd hmem List.not_mem_nil⟩ ?_
    · obtain ⟨hinv, hold, hgone⟩ := hloop
      exact ⟨hinv, hold, fun page m hm => hgone page m (List.mem_finRange _) hm⟩
    · rintro segments i v - - ⟨hinv, hold, hgone⟩
      rw [← hold] at hv hindex
      have hcases := removeInSegment_cases hinv.consistent hslot hv hindex (i := i)
      rw [hold] at hcases
      rcases hcases with ⟨heq, hhere⟩ | ⟨e, he, hat, hdropped⟩
      · rw [heq]
        refine ⟨hinv, hold, fun page m hmem hm => ?_⟩
        rcases List.mem_append.1 hmem with hmem | hmem
        · exact hgone page m hmem hm
        · exact hhere page m (List.mem_singleton.1 hmem) hm
      · refine ⟨hdropped.invariant hinv he (hdone _ _ hat) (by rwa [hat]), ?_, ?_⟩
        · rw [hdropped.unequal (by rwa [hold])]
          exact hold
        · intro page m hmem hm
          obtain ⟨hother, hm'⟩ := hdropped.mappings hm
          rcases List.mem_append.1 hmem with hmem | hmem
          · exact hgone page m hmem hm'
          · intro hsame
            have hsr := List.mem_singleton.1 hmem
            obtain ⟨⟨-, -, -, hread⟩, -⟩ := (hinv.consistent.mapped page m hm').takes hsame
            apply hother
            rw [← hsr, Option.some.inj (hindex.symm.trans hread)]

/-! ### An entry is stored -/

/-- The copy takes a new entry and the pages it is for are offered a mapping. -/
structure Stored (mmu : Mmu) (new : Entries) (slot : Slot) (u u' : Update) : Prop where
  old : u'.old = Function.update u.old slot (new slot)
  runPass2 : u'.runPass2 = u.runPass2
  added : ∀ page, mmu.Reads (new slot).lo slot.pteg page → Added page (new slot).hi
    (mmu.mappingOf (new slot).hi page (priority slot (new slot).lo)) u u'
  same : ∀ page, ¬ mmu.Reads (new slot).lo slot.pteg page → Same page u u'

theorem stored_copyEntry (hv : (new slot).lo.v = false) :
    Stored mmu new slot u (copyEntry new slot u) where
  old := rfl
  runPass2 := rfl
  added := fun _ hreads => absurd (hreads.1.symm.trans hv) nofun
  same := fun _ _ => ⟨rfl, id, fun _ _ => id⟩

theorem stored_tryAddMapping (hv : (new slot).lo.v = true) :
    Stored mmu new slot u (copyEntry new slot (mmu.tryAddMapping (new slot) slot u)) where
  old := by
    change Function.update (mmu.tryAddMapping (new slot) slot u).old slot (new slot) = _
    rw [(mmu.tryAddMapping_old (new slot) slot u).1]
  runPass2 := (mmu.tryAddMapping_old (new slot) slot u).2
  added := fun page hreads =>
    ((mmu.tryAddMapping_spec (new slot) slot u page).1 hreads.2).trans_same
      ⟨rfl, id, fun _ _ => id⟩
  same := fun page hreads =>
    ((mmu.tryAddMapping_spec (new slot) slot u page).2 fun h => hreads ⟨hv, h⟩).trans
      ⟨rfl, id, fun _ _ => id⟩

section Store

theorem Stored.old_self (h : Stored mmu new slot u u') : u'.old slot = new slot := by
  rw [h.old, Function.update_self]

theorem Stored.old_of_ne (h : Stored mmu new slot u u') {s : Slot} (hne : s ≠ slot) :
    u'.old s = u.old s := by
  rw [h.old, Function.update_of_ne hne]

theorem Stored.mappings (h : Stored mmu new slot u u') {m : PageMapping}
    (hm : u'.mappings page = some m) :
    u.mappings page = some m ∨ mmu.Reads (new slot).lo slot.pteg page ∧
      m = mmu.mappingOf (new slot).hi page (priority slot (new slot).lo) := by
  by_cases hreads : mmu.Reads (new slot).lo slot.pteg page
  · rw [(h.added page hreads).mappings] at hm
    rw [← Option.some.inj hm]
    unfold better
    split
    case h_1 => exact .inr ⟨hreads, rfl⟩
    case h_2 e he =>
      split
      · exact .inl he
      · exact .inr ⟨hreads, rfl⟩
  · rw [(h.same page hreads).mappings] at hm
    exact .inl hm

theorem Stored.exists_le (h : Stored mmu new slot u u') {m : PageMapping}
    (hm : u.mappings page = some m) :
    ∃ m', u'.mappings page = some m' ∧ m'.priority ≤ m.priority := by
  by_cases hreads : mmu.Reads (new slot).lo slot.pteg page
  · refine ⟨_, (h.added page hreads).mappings, ?_⟩
    rw [hm]
    exact better_priority_le_of_some
  · exact ⟨m, (h.same page hreads).mappings.trans hm, Nat.le_refl _⟩

theorem Stored.exists_of_stands (h : Stored mmu new slot u u') {p : Nat} (hp : p < 16)
    (ht : (mmu.sr page.sr).t = false) (hstands : mmu.Stands new page p)
    (hat : mmu.slotOf page p = slot) : ∃ m, u'.mappings page = some m ∧ m.priority ≤ p := by
  have hprio : priority slot (new slot).lo = p := by
    rw [← hat, hstands]
    exact mmu.priority_slotOf page hp
  have hreads : mmu.Reads (new slot).lo slot.pteg page := by
    rw [← hat, hstands]
    exact mmu.reads_pattern ht _
  refine ⟨_, (h.added page hreads).mappings, ?_⟩
  calc (better _ (u.mappings page)).priority ≤ priority slot (new slot).lo :=
        better_priority_le _ _
    _ = p := hprio

theorem Stored.quiet (h : Stored mmu new slot u u')
    (hquiet : ∀ page m, u.mappings page = some m → mmu.slotOf page m.priority = slot →
      (u.old slot).quiet = (new slot).quiet) {m : PageMapping} (hm : u.mappings page = some m) :
    (u'.old (mmu.slotOf page m.priority)).quiet = (u.old (mmu.slotOf page m.priority)).quiet := by
  rcases eq_or_ne (mmu.slotOf page m.priority) slot with hat | hne
  · rw [hat, h.old_self]
    exact (hquiet page m hm hat).symm
  · rw [h.old_of_ne hne]

theorem Stored.consistent (h : Stored mmu new slot u u') (hu : mmu.Consistent new u)
    (hnew : mmu.Placed new) (hslot : slot ∈ mmu.slots mmu.pageTableSize)
    (hquiet : ∀ page m, u.mappings page = some m → mmu.slotOf page m.priority = slot →
      (u.old slot).quiet = (new slot).quiet) : mmu.Consistent new u' where
  placed := by
    intro s hs page hreads
    rcases eq_or_ne s slot with rfl | hne
    · rw [h.old_self] at hreads ⊢
      exact hnew s hs page hreads
    · rw [h.old_of_ne hne] at hreads ⊢
      exact hu.placed s hs page hreads
  mapped := by
    intro page m hm
    rcases h.mappings hm with hm | ⟨hreads, rfl⟩
    · exact (hu.mapped page m hm).of_quiet (h.quiet hquiet hm)
    · have hat := mmu.slotOf_priority (hnew slot hslot page hreads)
      refine ⟨hreads.2.2.1, priority_lt slot (new slot).lo, ?_, ?_⟩
      · change (u'.old (mmu.slotOf page (priority slot (new slot).lo))).lo =
          mmu.pattern page (decide (8 ≤ priority slot (new slot).lo))
        rw [hat, h.old_self, decide_priority]
        exact mmu.pattern_of_reads hreads
      · change _ = mmu.mappingOf (u'.old (mmu.slotOf page (priority slot (new slot).lo))).hi page
          (priority slot (new slot).lo)
        rw [hat, h.old_self]
  shadowed := by
    intro page p ht hp hstands hequal
    rcases eq_or_ne (mmu.slotOf page p) slot with hat | hne
    · exact .inl (h.exists_of_stands hp ht hstands hat)
    · rw [h.old_of_ne hne] at hequal
      rcases hu.shadowed page p ht hp hstands hequal with ⟨m, hm, hle⟩ | ⟨q, hq, hs, hneq⟩
      · obtain ⟨m', hm', hle'⟩ := h.exists_le hm
        exact .inl ⟨m', hm', Nat.le_trans hle' hle⟩
      · rcases eq_or_ne (mmu.slotOf page q) slot with hat' | hne'
        · obtain ⟨m, hm, hle⟩ := h.exists_of_stands (Nat.lt_trans hq hp) ht hs hat'
          exact .inl ⟨m, hm, Nat.le_trans hle (Nat.le_of_lt hq)⟩
        · exact .inr ⟨q, hq, hs, by rwa [h.old_of_ne hne']⟩
  changed := by
    intro s hs hne hv
    have hother : s ≠ slot := by
      rintro rfl
      exact hne h.old_self
    rw [h.old_of_ne hother] at hne hv ⊢
    exact hu.changed s hs hne hv

theorem Stored.tracked (h : Stored mmu new slot u u') (hu : mmu.Tracked done before u)
    (hmapped : ∀ page m, u.mappings page = some m → mmu.MapsTo u.old page m)
    (hnew : mmu.Placed new) (hslot : slot ∈ mmu.slots mmu.pageTableSize)
    (hquiet : ∀ page m, u.mappings page = some m → mmu.slotOf page m.priority = slot →
      (u.old slot).quiet = (new slot).quiet)
    (hbefore : ∀ page p q, q < 16 → mmu.slotOf page p = slot → mmu.Stands new page p →
      done page q → q < p)
    (hmono : ∀ page p, done page p → done' page p)
    (hdone : ∀ page p, mmu.slotOf page p = slot → mmu.Stands new page p → done' page p) :
    mmu.Tracked done' before u' where
  kept := by
    intro page
    by_cases hreads : mmu.Reads (new slot).lo slot.pteg page
    · have hadded := h.added page hreads
      by_cases hwin : ∀ e, u.mappings page = some e →
          priority slot (new slot).lo ≤ e.priority
      · by_cases hnone : mmu.host u page = none
        · rcases hu.kept page with hsame | hmem | hgone
          · exact .inr (.inr (hsame.symm.trans hnone))
          · exact .inr (.inl (hadded.removed hmem))
          · exact .inr (.inr hgone)
        · obtain ⟨e, he, hhost⟩ := exists_of_host hnone
          exact .inr (.inl (hadded.replaced e he (hwin e he) hhost))
      · rw [not_forall] at hwin
        obtain ⟨e, hwin⟩ := hwin
        rw [Classical.not_imp, Nat.not_le] at hwin
        have hmap : u'.mappings page = u.mappings page := by
          rw [hadded.mappings, hwin.1]
          exact congrArg some (if_pos hwin.2)
        rw [host_of_quiet hmap fun m hm => h.quiet hquiet hm]
        exact (hu.kept page).imp_right (.imp_left hadded.removed)
    · have hsame := h.same page hreads
      rw [host_of_quiet hsame.mappings fun m hm => h.quiet hquiet hm]
      exact (hu.kept page).imp_right (.imp_left hsame.removed)
  listed := by
    intro page rpn w hlisted
    -- What was listed stays: its mapping has a smaller priority.
    have hstays : u'.mappings page = u.mappings page → u.Listed page rpn w →
        mmu.host u' page = some (rpn, w) ∧
          ∃ m, u'.mappings page = some m ∧ done' page m.priority := by
      intro hmap hlisted
      obtain ⟨hhost, m, hm, hmdone⟩ := hu.listed page rpn w hlisted
      rw [host_of_quiet hmap fun m hm => h.quiet hquiet hm, hmap]
      exact ⟨hhost, m, hm, hmono page _ hmdone⟩
    by_cases hreads : mmu.Reads (new slot).lo slot.pteg page
    · have hadded := h.added page hreads
      have hat := mmu.slotOf_priority (hnew slot hslot page hreads)
      have hstands : mmu.Stands new page (priority slot (new slot).lo) :=
        mmu.stands_of_reads hreads (hnew slot hslot page hreads)
      rcases hadded.listed rpn w hlisted with hold | ⟨hwin, hhost, hr, rfl, rfl⟩
      · refine hstays ?_ hold
        obtain ⟨-, m, hm, hmdone⟩ := hu.listed page rpn w hold
        rw [hadded.mappings, hm]
        exact congrArg some
          (if_pos (hbefore page _ _ (hmapped page m hm).priority hat hstands hmdone))
      · have hmap : u'.mappings page =
            some (mmu.mappingOf (new slot).hi page (priority slot (new slot).lo)) := by
          rw [hadded.mappings]
          cases he : u.mappings page with
          | none => rfl
          | some e => exact congrArg some (if_neg (Nat.not_lt_of_le (hwin e he)))
        refine ⟨?_, _, hmap, hdone page _ hat hstands⟩
        have hplace : mmu.slotOf page
            (mmu.mappingOf (new slot).hi page (priority slot (new slot).lo)).priority = slot := hat
        rw [host, hmap, Option.bind_some, hplace, h.old_self]
        exact if_pos (Bool.and_eq_true_iff.2 ⟨hhost, hr⟩)
    · have hsame := h.same page hreads
      exact hstays hsame.mappings (hsame.listed rpn w hlisted)

theorem Stored.visited (h : Stored mmu new slot u u') {t : Slot} (hu : mmu.Visited new u t)
    (hnew : mmu.Placed new) (hslot : slot ∈ mmu.slots mmu.pageTableSize) :
    mmu.Visited new u' t := by
  rcases eq_or_ne t slot with rfl | hne
  · exact .inl h.old_self
  · rcases hu with hequal | ⟨hv, hh, hrun, hquiet⟩
    · exact .inl ((h.old_of_ne hne).trans hequal)
    · refine .inr ⟨hv, hh, h.runPass2.trans hrun, fun page m hm hat => ?_⟩
      rw [h.old_of_ne hne]
      rcases h.mappings hm with hm | ⟨hreads, rfl⟩
      · exact hquiet page m hm hat
      · exact absurd (hat.symm.trans (mmu.slotOf_priority (hnew slot hslot page hreads))) hne

theorem Stored.invariant (h : Stored mmu new slot u u') (hu : mmu.Invariant new seen done before u)
    (hnew : mmu.Placed new) (hslot : slot ∈ mmu.slots mmu.pageTableSize)
    (hquiet : ∀ page m, u.mappings page = some m → mmu.slotOf page m.priority = slot →
      (u.old slot).quiet = (new slot).quiet)
    (hbefore : ∀ page p q, q < 16 → mmu.slotOf page p = slot → mmu.Stands new page p →
      done page q → q < p)
    (hmono : ∀ page p, done page p → done' page p)
    (hdone : ∀ page p, mmu.slotOf page p = slot → mmu.Stands new page p → done' page p) :
    mmu.Invariant new (seen ++ [slot]) done' before u' where
  consistent := h.consistent hu.consistent hnew hslot hquiet
  tracked := h.tracked hu.tracked hu.consistent.mapped hnew hslot hquiet hbefore hmono hdone
  visited := by
    intro t ht
    rcases List.mem_append.1 ht with ht | ht
    · exact h.visited (hu.visited t ht) hnew hslot
    · rw [List.mem_singleton.1 ht]
      exact .inl h.old_self

end Store

end Mmu
end DolphinXR.PowerPC
