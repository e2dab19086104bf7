import DolphinXR.Core.PageTableHash

/- What the operations of an update do: the walk of a pass entry by entry, the entry that is
   looked at again when a mapping goes, and what an added entry changes, which is seen page by
   page. -/
namespace DolphinXR.PowerPC

def Pte.quiet (pte : Pte) : Pte := { pte with hi := { pte.hi with reserved1 := false } }

theorem Pte.eq_of_quiet {α : Type} {f : Pte → α} (hf : ∀ x, f x.quiet = f x) {a b : Pte}
    (h : a.quiet = b.quiet) : f a = f b := by
  rw [← hf a, h, hf b]

section
variable {a b : Pte}

theorem Pte.lo_of_quiet (h : a.quiet = b.quiet) : a.lo = b.lo :=
  Pte.eq_of_quiet (f := fun x => x.lo) (fun _ => rfl) h

theorem Pte.rpn_of_quiet (h : a.quiet = b.quiet) : a.hi.rpn = b.hi.rpn :=
  Pte.eq_of_quiet (f := fun x => x.hi.rpn) (fun _ => rfl) h

theorem Pte.wimg_of_quiet (h : a.quiet = b.quiet) : a.hi.wimg = b.hi.wimg :=
  Pte.eq_of_quiet (f := fun x => x.hi.wimg) (fun _ => rfl) h

theorem Pte.c_of_quiet (h : a.quiet = b.quiet) : a.hi.c = b.hi.c :=
  Pte.eq_of_quiet (f := fun x => x.hi.c) (fun _ => rfl) h

theorem Pte.r_of_quiet (h : a.quiet = b.quiet) : a.hi.r = b.hi.r :=
  Pte.eq_of_quiet (f := fun x => x.hi.r) (fun _ => rfl) h

end

namespace Mmu
variable (mmu : Mmu) {new : Entries}

theorem mapsOnHost_of_quiet {a b : Pte} (h : a.quiet = b.quiet) (page : EffectivePage) :
    mmu.mapsOnHost a.hi page = mmu.mapsOnHost b.hi page := by
  unfold mapsOnHost
  rw [Pte.wimg_of_quiet h]

/-! ### Passes -/

theorem foldl_done {α β : Type} {R : α → α → Prop} {f : β → α → β} {motive : List α → β → Prop}
    {l : List α} (hl : l.Pairwise R) {b : β} (h0 : motive [] b)
    (hstep : ∀ done a b, a ∈ l → (∀ t ∈ done, R t a) → motive done b → motive (done ++ [a]) (f b a)) :
    motive l (l.foldl f b) := by
  suffices hall : ∀ (rest done : List α) b, done ++ rest = l → motive done b →
      motive l (rest.foldl f b) from hall l [] b rfl h0
  intro rest
  induction rest with
  | nil =>
    intro done b hsplit hb
    rw [← hsplit, List.append_nil]
    exact hb
  | cons a rest ih =>
    intro done b hsplit hb
    have hmem : a ∈ l := hsplit ▸ List.mem_append_right _ (List.mem_cons_self ..)
    have hbefore : ∀ t ∈ done, R t a := by
      rw [← hsplit] at hl
      exact fun t ht => (List.pairwise_append.1 hl).2.2 t ht a (List.mem_cons_self ..)
    apply ih (done ++ [a])
    · rw [List.append_assoc]
      exact hsplit
    · exact hstep done a b hmem hbefore hb

theorem pass_eq {visit : Update → Slot → Update}
    (hidle : ∀ u slot, u.old slot = new slot → visit u slot = u) (size : Nat) (u : Update) :
    mmu.pass visit size new u = (mmu.slots size).foldl visit u := by
  have hgroup : ∀ u pteg, visitPteg visit new u pteg =
      (List.finRange 8).foldl (fun u place => visit u ⟨pteg, place⟩) u := by
    intro u pteg
    unfold visitPteg
    split
    case isFalse => rfl
    case isTrue hequal =>
      refine (List.foldlRecOn (motive := fun v => v = u) (List.finRange 8) _ rfl ?_).symm
      rintro _ rfl place -
      exact hidle _ _ (hequal place)
  have hvisit : visitPteg visit new =
      fun u pteg => (List.finRange 8).foldl (fun u place => visit u ⟨pteg, place⟩) u := by
    funext u pteg
    exact hgroup u pteg
  rw [pass, hvisit, slots, List.foldl_flatMap]
  simp only [List.foldl_map]

theorem visit1_of_equal {u : Update} {slot : Slot} (h : u.old slot = new slot) :
    mmu.visit1 new u slot = u := if_pos h

theorem visit2_of_equal {u : Update} {slot : Slot} (h : u.old slot = new slot) :
    mmu.visit2 new u slot = u := if_pos h

/-! ### Looking at an entry again -/

section Recheck
variable {slot : Slot} {switched : Bool} {u : Update}

theorem recheck_mappings : (recheck new slot switched u).mappings = u.mappings := by
  unfold recheck
  split <;> rfl

theorem recheck_removed : (recheck new slot switched u).removed = u.removed := by
  unfold recheck
  split <;> rfl

theorem recheck_addedReadonly :
    (recheck new slot switched u).addedReadonly = u.addedReadonly := by
  unfold recheck
  split <;> rfl

theorem recheck_addedReadwrite :
    (recheck new slot switched u).addedReadwrite = u.addedReadwrite := by
  unfold recheck
  split <;> rfl

theorem recheck_quiet (s : Slot) : ((recheck new slot switched u).old s).quiet = (u.old s).quiet := by
  unfold recheck
  split
  · rcases eq_or_ne s slot with rfl | hne
    · dsimp only
      rw [Function.update_self]
      rfl
    · dsimp only
      rw [Function.update_of_ne hne]
  · rfl

theorem recheck_old_of_ne {s : Slot} (h : u.old s ≠ new s) :
    (recheck new slot switched u).old s = u.old s := by
  unfold recheck
  split
  case isFalse => rfl
  case isTrue hequal =>
    refine Function.update_of_ne ?_ ..
    rintro rfl
    exact h hequal

theorem recheck_old_of_ne_slot {s : Slot} (h : s ≠ slot) :
    (recheck new slot switched u).old s = u.old s := by
  unfold recheck
  split
  · exact Function.update_of_ne h ..
  · rfl

theorem recheck_unequal : (recheck new slot switched u).old slot ≠ new slot := by
  unfold recheck
  split
  case isFalse hne => exact hne
  case isTrue hequal =>
    dsimp only
    rw [Function.update_self, hequal]
    intro hsame
    have hbit := congrArg (fun x : Pte => x.hi.reserved1) hsame
    cases hb : (new slot).hi.reserved1 <;> simp [hb] at hbit

theorem recheck_runPass2 (h : u.runPass2 = true) : (recheck new slot switched u).runPass2 = true := by
  unfold recheck
  split
  · exact Bool.or_eq_true_iff.2 (.inl h)
  · exact h

theorem recheck_switched (h : u.old slot = new slot) :
    (recheck new slot true u).runPass2 = true := by
  unfold recheck
  rw [if_pos h]
  exact Bool.or_true _

end Recheck

theorem slotOf_place (page : EffectivePage) (h : Bool) (j : Fin 8) :
    mmu.slotOf page (j.val + 8 * h.toNat) = ⟨mmu.ptegOf page h, j⟩ := by
  have hj := j.isLt
  have hside : decide (8 ≤ j.val + 8 * h.toNat) = h := by
    cases h <;> simp
  have hmod : Fin.ofNat 8 (j.val + 8 * h.toNat) = j :=
    Fin.ext (by change (j.val + 8 * h.toNat) % 8 = j.val; omega)
  rw [slotOf, hside, hmod]

theorem stands_place (page : EffectivePage) (h : Bool) (j : Fin 8) :
    mmu.Stands new page (j.val + 8 * h.toNat) ↔
      (new ⟨mmu.ptegOf page h, j⟩).lo = mmu.pattern page h := by
  have hj := j.isLt
  have hside : decide (8 ≤ j.val + 8 * h.toNat) = h := by
    cases h <;> simp
  rw [Stands, slotOf_place, hside]

theorem exists_place {h : Bool} {q : Nat} (hlow : 8 * h.toNat ≤ q) (hhigh : q < 8 + 8 * h.toNat) :
    ∃ j : Fin 8, q = j.val + 8 * h.toNat :=
  ⟨⟨q - 8 * h.toNat, by omega⟩, (Nat.sub_add_cancel hlow).symm⟩

theorem scan_eq_some {page : EffectivePage} {h : Bool} {place : Nat} {found : Slot}
    (hscan : scan new (mmu.pattern page h) (mmu.ptegOf page h) place = some found) :
    ∃ q, place + 8 * h.toNat ≤ q ∧ q < 8 + 8 * h.toNat ∧ found = mmu.slotOf page q ∧
      mmu.Stands new page q ∧
        ∀ q', place + 8 * h.toNat ≤ q' → q' < q → ¬ mmu.Stands new page q' := by
  obtain ⟨i, hi, rfl⟩ := Option.map_eq_some_iff.1 hscan
  obtain ⟨hfound, hbefore⟩ := find?_finRange.1 hi
  obtain ⟨hplace, hat⟩ := of_decide_eq_true hfound
  have hlt := i.isLt
  refine ⟨i.val + 8 * h.toNat, by omega, by omega, (mmu.slotOf_place page h i).symm,
    (mmu.stands_place page h i).2 hat, ?_⟩
  intro q' hle hlt' hq'
  obtain ⟨j, rfl⟩ := exists_place (h := h) (q := q') (by omega) (by omega)
  have hno := of_decide_eq_false (hbefore j (Fin.lt_def.2 (by omega)))
  exact hno ⟨by omega, (mmu.stands_place page h j).1 hq'⟩

theorem scan_eq_none {page : EffectivePage} {h : Bool} {place : Nat}
    (hscan : scan new (mmu.pattern page h) (mmu.ptegOf page h) place = none) {q : Nat}
    (hle : place + 8 * h.toNat ≤ q) (hlt : q < 8 + 8 * h.toNat) : ¬ mmu.Stands new page q := by
  obtain ⟨j, rfl⟩ := exists_place (h := h) (q := q) (by omega) hlt
  intro hq
  have hno := List.find?_eq_none.1 (Option.map_eq_none_iff.1 hscan) j (List.mem_finRange j)
  exact hno (decide_eq_true ⟨by omega, (mmu.stands_place page h j).1 hq⟩)

theorem fixupShadowedMappings_cases {page : EffectivePage} {h : Bool} {slot : Slot} {p : Nat}
    (hp : p = slot.place.val + 8 * h.toNat) (hpteg : slot.pteg = mmu.ptegOf page h) (u : Update) :
    (mmu.fixupShadowedMappings new (mmu.pattern page h) slot u = u ∧
        ∀ q, p ≤ q → q < 16 → ¬ mmu.Stands new page q) ∨
      ∃ q, p ≤ q ∧ q < 16 ∧ mmu.Stands new page q ∧
        (∀ q', p ≤ q' → q' < q → ¬ mmu.Stands new page q') ∧
        mmu.fixupShadowedMappings new (mmu.pattern page h) slot u =
          recheck new (mmu.slotOf page q) (!h && decide (8 ≤ q)) u := by
  rw [hp]
  unfold fixupShadowedMappings
  rw [hpteg]
  cases hscan : scan new (mmu.pattern page h) (mmu.ptegOf page h) slot.place with
  | some found =>
    obtain ⟨q, hle, hlt, rfl, hstands, hfirst⟩ := mmu.scan_eq_some hscan
    have hq : q < 16 := by
      have hbit := h.toNat_le
      omega
    have hside : (!h && decide (8 ≤ q)) = false := by
      cases h with
      | false => exact decide_eq_false (Nat.not_le_of_lt hlt)
      | true => rfl
    refine .inr ⟨q, hle, hq, hstands, hfirst, ?_⟩
    rw [hside]
  | none =>
    have hmissing := fun q => mmu.scan_eq_none hscan (q := q)
    cases h with
    | true => exact .inl ⟨rfl, hmissing⟩
    | false =>
      dsimp only
      rw [if_neg (show ¬ (mmu.pattern page false).h = true from Bool.false_ne_true), ptegAt_ptegOf,
        show { mmu.pattern page false with h := true } = mmu.pattern page true from rfl]
      cases hscan' : scan new (mmu.pattern page true) (mmu.ptegOf page true) 0 with
      | some found =>
        obtain ⟨q, hle, hlt, rfl, hstands, hfirst⟩ := mmu.scan_eq_some hscan'
        have hle8 : 8 ≤ q := by simpa using hle
        refine .inr ⟨q, ?_, hlt, hstands, ?_, ?_⟩
        · have hplace := slot.place.isLt
          exact Nat.le_of_lt (Nat.lt_of_lt_of_le hplace hle8)
        · intro q' hle' hlt'
          rcases Nat.lt_or_ge q' 8 with h8 | h8
          · exact hmissing q' hle' h8
          · exact hfirst q' (by simpa using h8) hlt'
        · rw [decide_eq_true hle8]
          rfl
      | none =>
        refine .inl ⟨rfl, fun q hle hlt => ?_⟩
        rcases Nat.lt_or_ge q 8 with h8 | h8
        · exact hmissing q hle h8
        · exact mmu.scan_eq_none hscan' (by simpa using h8) hlt

/-! ### Adding an entry -/

def Takes (pte1 : UpteLo) (pteg : BitVec 32) (page : EffectivePage) : Prop :=
  (mmu.sr page.sr).vsid = pte1.vsid ∧ (mmu.sr page.sr).t = false ∧
    mmu.getPageIndex pte1 pteg = some page.pageIndex

def mappingOf (hi : UpteHi) (page : EffectivePage) (p : Nat) : PageMapping :=
  ⟨hi.rpn, mmu.mapsOnHost hi page, p⟩

def better (mapping : PageMapping) : Option PageMapping → PageMapping
  | none => mapping
  | some existing => if existing.priority < mapping.priority then existing else mapping

def Update.Listed (u : Update) (page : EffectivePage) (rpn : BitVec 20) (writeable : Bool) : Prop :=
  (page, rpn) ∈ if writeable then u.addedReadwrite else u.addedReadonly

theorem mem_emplacePage {page page' : EffectivePage} {rpn rpn' : BitVec 20}
    {pages : List (EffectivePage × BitVec 20)}
    (h : (page', rpn') ∈ emplacePage page rpn pages) :
    (page', rpn') ∈ pages ∨ page' = page ∧ rpn' = rpn := by
  unfold emplacePage at h
  split at h
  · exact .inl h
  · rcases List.mem_append.1 h with h | h
    · exact .inl h
    · have heq := List.mem_singleton.1 h
      exact .inr ⟨congrArg Prod.fst heq, congrArg Prod.snd heq⟩

theorem mem_insertPage {page page' : EffectivePage} {pages : List EffectivePage} :
    page' ∈ insertPage page pages ↔ page' ∈ pages ∨ page' = page := by
  unfold insertPage
  split
  case isTrue hmem =>
    constructor
    · exact .inl
    · rintro (h | rfl)
      · exact h
      · exact hmem
  case isFalse => rw [List.mem_append, List.mem_singleton]

section SetMapping
variable {page : EffectivePage} {pte2 : UpteHi} {mapping : PageMapping} {u : Update}

theorem setMapping_old : (setMapping page pte2 mapping u).old = u.old := by
  unfold setMapping
  dsimp only
  split_ifs <;> rfl

theorem setMapping_runPass2 : (setMapping page pte2 mapping u).runPass2 = u.runPass2 := by
  unfold setMapping
  dsimp only
  split_ifs <;> rfl

theorem setMapping_removed : (setMapping page pte2 mapping u).removed = u.removed := by
  unfold setMapping
  dsimp only
  split_ifs <;> rfl

theorem setMapping_mappings : (setMapping page pte2 mapping u).mappings =
    Function.update u.mappings page (some mapping) := by
  unfold setMapping
  dsimp only
  split_ifs <;> rfl

theorem listed_of_setMapping {page' : EffectivePage} {rpn : BitVec 20} {w : Bool}
    (h : (setMapping page pte2 mapping u).Listed page' rpn w) :
    u.Listed page' rpn w ∨
      page' = page ∧ mapping.hostMapping = true ∧ pte2.r = true ∧ rpn = pte2.rpn ∧ w = pte2.c := by
  cases w with
  | false =>
    change (page', rpn) ∈ (setMapping page pte2 mapping u).addedReadonly at h
    unfold setMapping at h
    dsimp only at h
    split_ifs at h with hmap hc
    · exact .inl h
    · obtain ⟨hhost, hr⟩ := Bool.and_eq_true_iff.1 hmap
      refine (mem_emplacePage h).imp id fun heq => ?_
      exact ⟨heq.1, hhost, hr, heq.2, (Bool.eq_false_iff.2 hc).symm⟩
    · exact .inl h
  | true =>
    change (page', rpn) ∈ (setMapping page pte2 mapping u).addedReadwrite at h
    unfold setMapping at h
    dsimp only at h
    split_ifs at h with hmap hc
    · obtain ⟨hhost, hr⟩ := Bool.and_eq_true_iff.1 hmap
      refine (mem_emplacePage h).imp id fun heq => ?_
      exact ⟨heq.1, hhost, hr, heq.2, hc.symm⟩
    · exact .inl h
    · exact .inl h

end SetMapping

structure Same (page : EffectivePage) (u u' : Update) : Prop where
  mappings : u'.mappings page = u.mappings page
  removed : page ∈ u.removed → page ∈ u'.removed
  listed : ∀ rpn w, u'.Listed page rpn w → u.Listed page rpn w

structure Added (page : EffectivePage) (pte2 : UpteHi) (mapping : PageMapping) (u u' : Update) :
    Prop where
  mappings : u'.mappings page = some (better mapping (u.mappings page))
  removed : page ∈ u.removed → page ∈ u'.removed
  replaced : ∀ e, u.mappings page = some e → mapping.priority ≤ e.priority →
    e.hostMapping = true → page ∈ u'.removed
  listed : ∀ rpn w, u'.Listed page rpn w → u.Listed page rpn w ∨
    (∀ e, u.mappings page = some e → mapping.priority ≤ e.priority) ∧
      mapping.hostMapping = true ∧ pte2.r = true ∧ rpn = pte2.rpn ∧ w = pte2.c

theorem Same.refl (page : EffectivePage) (u : Update) : Same page u u :=
  ⟨rfl, id, fun _ _ => id⟩

theorem Same.trans {page : EffectivePage} {u v w : Update} (h : Same page u v)
    (h' : Same page v w) : Same page u w :=
  ⟨h'.mappings.trans h.mappings, h'.removed ∘ h.removed,
    fun rpn b => h.listed rpn b ∘ h'.listed rpn b⟩

section Added
variable {page : EffectivePage} {pte2 : UpteHi} {mapping : PageMapping} {u v w : Update}

theorem Same.trans_added (h : Same page u v) (h' : Added page pte2 mapping v w) :
    Added page pte2 mapping u w where
  mappings := by rw [h'.mappings, h.mappings]
  removed := h'.removed ∘ h.removed
  replaced := by
    rw [← h.mappings]
    exact h'.replaced
  listed := fun rpn b hl => by
    rw [← h.mappings]
    exact (h'.listed rpn b hl).imp_left (h.listed rpn b)

theorem Added.trans_same (h : Added page pte2 mapping u v) (h' : Same page v w) :
    Added page pte2 mapping u w where
  mappings := h'.mappings.trans h.mappings
  removed := h'.removed ∘ h.removed
  replaced := fun e he hle hhost => h'.removed (h.replaced e he hle hhost)
  listed := fun rpn b hl => h.listed rpn b (h'.listed rpn b hl)

theorem added_setMapping (hprio : ∀ e, u.mappings page = some e → mapping.priority ≤ e.priority)
    (hremoved : ∀ e, u.mappings page = some e → e.hostMapping = true → page ∈ u.removed) :
    Added page pte2 mapping u (setMapping page pte2 mapping u) where
  mappings := by
    rw [setMapping_mappings, Function.update_self]
    cases he : u.mappings page with
    | none => rfl
    | some e => exact congrArg some (if_neg (Nat.not_lt_of_le (hprio e he))).symm
  removed := by
    rw [setMapping_removed]
    exact id
  replaced := fun e he _ hhost => by
    rw [setMapping_removed]
    exact hremoved e he hhost
  listed := fun rpn b hl => (listed_of_setMapping hl).imp_right fun h => ⟨hprio, h.2⟩

theorem same_setMapping {page' : EffectivePage} (hne : page' ≠ page) :
    Same page' u (setMapping page pte2 mapping u) where
  mappings := by rw [setMapping_mappings, Function.update_of_ne hne]
  removed := by
    rw [setMapping_removed]
    exact id
  listed := fun rpn b hl => (listed_of_setMapping hl).elim id fun h => absurd h.1 hne

end Added

section Segment
variable {pte : Pte} {slot : Slot} {pageIndex : BitVec 16}

theorem tryAddInSegment_cases (u : Update) (i : Fin 16) :
    ¬ ((mmu.sr i).vsid = pte.lo.vsid ∧ (mmu.sr i).t = false) ∧
        mmu.tryAddInSegment pte slot pageIndex u i = u ∨
      ((mmu.sr i).vsid = pte.lo.vsid ∧ (mmu.sr i).t = false) ∧
        Added ⟨i, pageIndex⟩ pte.hi (mmu.mappingOf pte.hi ⟨i, pageIndex⟩ (priority slot pte.lo)) u
          (mmu.tryAddInSegment pte slot pageIndex u i) ∧
        (∀ page, page ≠ ⟨i, pageIndex⟩ → Same page u (mmu.tryAddInSegment pte slot pageIndex u i)) ∧
        (mmu.tryAddInSegment pte slot pageIndex u i).old = u.old ∧
        (mmu.tryAddInSegment pte slot pageIndex u i).runPass2 = u.runPass2 := by
  have hfree : ((mmu.sr i).vsid = pte.lo.vsid ∧ (mmu.sr i).t = false) ↔
      ¬ ((mmu.sr i).vsid ≠ pte.lo.vsid ∨ (mmu.sr i).t = true) := by
    rw [not_or, not_not, Bool.not_eq_true]
  rw [hfree]
  unfold tryAddInSegment
  dsimp only
  split
  case isTrue hother => exact .inl ⟨not_not.2 hother, rfl⟩
  case isFalse hhere =>
    refine .inr ⟨hhere, ?_⟩
    split
    case h_1 hnone =>
      refine ⟨?_, fun _ hne => same_setMapping hne, setMapping_old, setMapping_runPass2⟩
      apply added_setMapping
      · intro e he
        exact absurd (he.symm.trans hnone) nofun
      · intro e he
        exact absurd (he.symm.trans hnone) nofun
    case h_2 existing he =>
      split_ifs with hlower hhost
      · refine ⟨⟨?_, id, ?_, fun _ _ => .inl⟩, fun page _ => Same.refl page u, rfl, rfl⟩
        · rw [he]
          exact congrArg some (if_pos hlower).symm
        · intro e he' hle
          cases he.symm.trans he'
          exact absurd hlower (Nat.not_lt_of_le hle)
      · have hwin : ∀ e, u.mappings ⟨i, pageIndex⟩ = some e →
            priority slot pte.lo ≤ e.priority := by
          intro e he'
          cases he.symm.trans he'
          exact Nat.not_lt.1 hlower
        refine ⟨?_, fun page hne => ?_, setMapping_old, setMapping_runPass2⟩
        · refine Same.trans_added (v := { u with removed := insertPage ⟨i, pageIndex⟩ u.removed })
            ⟨rfl, fun h => mem_insertPage.2 (.inl h), fun _ _ => id⟩ (added_setMapping hwin ?_)
          exact fun _ _ _ => mem_insertPage.2 (.inr rfl)
        · exact Same.trans (v := { u with removed := insertPage ⟨i, pageIndex⟩ u.removed })
            ⟨rfl, fun h => mem_insertPage.2 (.inl h), fun _ _ => id⟩ (same_setMapping hne)
      · refine ⟨added_setMapping ?_ ?_, fun _ hne => same_setMapping hne, setMapping_old,
          setMapping_runPass2⟩
        · intro e he'
          cases he.symm.trans he'
          exact Nat.not_lt.1 hlower
        · intro e he' hyes
          cases he.symm.trans he'
          exact absurd hyes hhost

theorem foldl_segments {P Q : EffectivePage → Update → Prop} {f : Update → Fin 16 → Update}
    (hat : ∀ page u, P page u → Q page (f u page.sr))
    (hP : ∀ page u i, i ≠ page.sr → P page u → P page (f u i))
    (hQ : ∀ page u i, i ≠ page.sr → Q page u → Q page (f u i)) {u : Update}
    (h : ∀ page, P page u) (page : EffectivePage) : Q page ((List.finRange 16).foldl f u) := by
  have hmotive := foldl_done (motive := fun done v => if page.sr ∈ done then Q page v else P page v)
    (List.nodup_finRange 16) (f := f) (b := u) (h page) ?_
  · rwa [if_pos (List.mem_finRange _)] at hmotive
  · intro done i v _ hbefore hv
    rcases eq_or_ne i page.sr with rfl | hne
    · rw [if_pos (List.mem_append_right _ (List.mem_singleton.2 rfl))]
      rw [if_neg (fun hmem => hbefore _ hmem rfl)] at hv
      exact hat page v hv
    · have hiff : page.sr ∈ done ++ [i] ↔ page.sr ∈ done := by
        rw [List.mem_append, List.mem_singleton, or_iff_left hne.symm]
      rw [if_congr hiff rfl rfl]
      split at hv
      case isTrue hmem =>
        rw [if_pos hmem]
        exact hQ page v i hne hv
      case isFalse hmem =>
        rw [if_neg hmem]
        exact hP page v i hne hv

theorem tryAddMapping_old (pte : Pte) (slot : Slot) (u : Update) :
    (mmu.tryAddMapping pte slot u).old = u.old ∧
      (mmu.tryAddMapping pte slot u).runPass2 = u.runPass2 := by
  unfold tryAddMapping
  split
  · exact ⟨rfl, rfl⟩
  · refine List.foldlRecOn (motive := fun v : Update => v.old = u.old ∧ v.runPass2 = u.runPass2) _ _
      ⟨rfl, rfl⟩ ?_
    intro v hv i _
    rcases @tryAddInSegment_cases mmu pte slot _ v i with
      ⟨-, heq⟩ | ⟨-, -, -, hold, hrun⟩
    · rw [heq]
      exact hv
    · exact ⟨hold.trans hv.1, hrun.trans hv.2⟩

theorem tryAddMapping_spec (pte : Pte) (slot : Slot) (u : Update) (page : EffectivePage) :
    (mmu.Takes pte.lo slot.pteg page → Added page pte.hi
        (mmu.mappingOf pte.hi page (priority slot pte.lo)) u (mmu.tryAddMapping pte slot u)) ∧
      (¬ mmu.Takes pte.lo slot.pteg page → Same page u (mmu.tryAddMapping pte slot u)) := by
  unfold tryAddMapping
  split
  case h_1 hnone =>
    refine ⟨fun h => ?_, fun _ => Same.refl page u⟩
    exact absurd (h.2.2.symm.trans hnone) nofun
  case h_2 pageIndex hindex =>
    refine foldl_segments (P := fun page v => Same page u v)
      (Q := fun page v => (mmu.Takes pte.lo slot.pteg page → Added page pte.hi
        (mmu.mappingOf pte.hi page (priority slot pte.lo)) u v) ∧
        (¬ mmu.Takes pte.lo slot.pteg page → Same page u v)) ?_ ?_ ?_ (fun p => Same.refl p u) page
    · intro page v hsame
      rcases @tryAddInSegment_cases mmu pte slot pageIndex v
        page.sr with ⟨hother, heq⟩ | ⟨hhere, hadded, hframe, -⟩
      · rw [heq]
        exact ⟨fun h => absurd ⟨h.1, h.2.1⟩ hother, fun _ => hsame⟩
      · constructor
        · rintro ⟨-, -, hpage⟩
          have hself : (⟨page.sr, pageIndex⟩ : EffectivePage) = page := by
            rw [Option.some.inj (hindex.symm.trans hpage)]
          rw [hself] at hadded
          exact hsame.trans_added hadded
        · intro hno
          refine hsame.trans (hframe page ?_)
          intro hself
          refine hno ⟨hhere.1, hhere.2, ?_⟩
          rw [hindex, hself]
    · intro page v i hne hsame
      rcases @tryAddInSegment_cases mmu pte slot pageIndex v
        i with ⟨-, heq⟩ | ⟨-, -, hframe, -⟩
      · rwa [heq]
      · exact hsame.trans (hframe page fun hself => hne (congrArg EffectivePage.sr hself).symm)
    · intro page v i hne hv
      rcases @tryAddInSegment_cases mmu pte slot pageIndex v
        i with ⟨-, heq⟩ | ⟨-, -, hframe, -⟩
      · rwa [heq]
      · have hstay := hframe page fun hself => hne (congrArg EffectivePage.sr hself).symm
        exact ⟨fun h => (hv.1 h).trans_same hstay, fun h => (hv.2 h).trans hstay⟩

end Segment

end Mmu
end DolphinXR.PowerPC
