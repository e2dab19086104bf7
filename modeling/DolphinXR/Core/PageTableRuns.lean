import DolphinXR.Core.PageTablePasses
import DolphinXR.Lib.Transition

/- Runs of updates of the page table. The copy, the mappings and the memory of the host belong
   together after every call, so that what the host maps is what the walk of the last table finds
   and the mappings are those of a reload: as long as no entry that changes is a valid one that
   contradicts its place, where the first pass goes on without looking at the new entry, and no
   entry stands in a PTEG of another page, which it is mapped from although no walk finds it
   there. -/
namespace DolphinXR.PowerPC
open Common Lib
namespace Mmu
variable {mmu : Mmu}

/-! ### One call -/

/-- The part of the state that follows the copy of the table, where that has the size that is
    used. -/
structure Follows (mmu : Mmu) (s : State) : Prop where
  placed : mmu.Placed s.pageTable.entries
  mappings : s.mappings = mmu.tracked s.pageTable.entries
  backed : mmu.Backed
    (mapsOf (mmu.host { old := s.pageTable.entries, mappings := s.mappings })) s.memory

def ChangesRead (mmu : Mmu) (old new : Entries) : Prop :=
  ∀ slot ∈ mmu.slots mmu.pageTableSize, old slot ≠ new slot → (old slot).lo.v = true →
    mmu.getPageIndex (old slot).lo slot.pteg ≠ none

variable {s : State} {table : PageTable}

theorem pageTableSize_pos : 0 < mmu.pageTableSize :=
  Nat.lt_of_le_of_lt (Nat.zero_le _) mmu.pageTableSize_spec.1

theorem tracked_congr {entries entries' : Entries}
    (h : ∀ slot ∈ mmu.slots mmu.pageTableSize, entries slot = entries' slot) :
    mmu.tracked entries = mmu.tracked entries' := by
  have hall : ∀ page p, entries (mmu.slotOf page p) = entries' (mmu.slotOf page p) :=
    fun page p => h _ (mmu.slotOf_mem_slots page p)
  funext page
  simp only [tracked, firstStanding, hall]

theorem follows_empty (size : Nat) : mmu.Follows { pageTable := { size := size } } where
  placed := fun _ _ _ hreads => absurd hreads.1 nofun
  mappings := by
    funext page
    have hnone : mmu.firstStanding (fun _ => Pte.zero) page = none :=
      firstStanding_eq_none.2 fun p _ hstands => by
        have hv := congrArg UpteLo.v hstands
        cases hv
    change none = mmu.tracked (fun _ => Pte.zero) page
    rw [tracked, hnone]
    exact (ite_self _).symm
  backed := ⟨nofun, nofun, nofun⟩

theorem pageTableUpdated_eq (hsize : s.pageTable.size = table.size)
    (hmod : table.size % pageTableMinSize = 0) {u : Update}
    (hu : u = mmu.bothPasses table.size table.entries
      { old := s.pageTable.entries, mappings := s.mappings }) :
    mmu.pageTableUpdated table s =
      { pageTable := { s.pageTable with entries := u.old }
        mappings := u.mappings
        memory := mmu.updateHost u s.memory } := by
  subst hu
  unfold pageTableUpdated
  rw [if_neg (not_not.2 hmod), if_neg (not_not.2 hsize)]

theorem follows_update (hs : mmu.Follows s) (hsize : s.pageTable.size = mmu.pageTableSize)
    (htable : table.size = mmu.pageTableSize)
    (hchanges : mmu.ChangesRead s.pageTable.entries table.entries)
    (hplaced : mmu.Placed table.entries) :
    mmu.Follows (mmu.pageTableUpdated table s) ∧
      (mmu.pageTableUpdated table s).pageTable.size = mmu.pageTableSize ∧
      ∀ slot ∈ mmu.slots mmu.pageTableSize,
        (mmu.pageTableUpdated table s).pageTable.entries slot = table.entries slot := by
  have hmod : table.size % pageTableMinSize = 0 := by
    rw [htable]
    exact Nat.mod_eq_zero_of_dvd mmu.pageTableSize_spec.2.1
  have hstart : mmu.Consistent table.entries
      { old := s.pageTable.entries, mappings := s.mappings } := by
    rw [hs.mappings]
    exact consistent_tracked hs.placed hchanges
  obtain ⟨u, hu⟩ : ∃ u, u = mmu.bothPasses table.size table.entries
      { old := s.pageTable.entries, mappings := s.mappings } := ⟨_, rfl⟩
  rw [pageTableUpdated_eq (hsize.trans htable.symm) hmod hu]
  rw [htable] at hu
  obtain ⟨hlast, htracked, hequal⟩ := bothPasses_invariant hstart hplaced rfl rfl
  rw [← hu] at hlast htracked hequal
  have hbacked := updateHost_backed htracked hs.backed
  refine ⟨⟨hlast.placed, ?_, hbacked⟩, hsize, hequal⟩
  exact (hlast.mappings_eq hequal).trans (tracked_congr hequal).symm

theorem pageTableUpdated_of_size (h : s.pageTable.size ≠ table.size) :
    mmu.pageTableUpdated table s =
      mmu.pageTableUpdated table { pageTable := { size := table.size } } := by
  unfold pageTableUpdated
  rw [if_pos h, if_neg (not_not.2 rfl)]

theorem changesRead_zero (new : Entries) : mmu.ChangesRead (fun _ => Pte.zero) new :=
  fun _ _ _ hv => absurd hv nofun

theorem follows_pageTableUpdated (hs : s.pageTable.size = mmu.pageTableSize → mmu.Follows s)
    (htable : table.size = mmu.pageTableSize)
    (hchanges : s.pageTable.size = mmu.pageTableSize →
      mmu.ChangesRead s.pageTable.entries table.entries)
    (hplaced : mmu.Placed table.entries) :
    mmu.Follows (mmu.pageTableUpdated table s) ∧
      ∀ slot ∈ mmu.slots mmu.pageTableSize,
        (mmu.pageTableUpdated table s).pageTable.entries slot = table.entries slot := by
  by_cases hsize : s.pageTable.size = mmu.pageTableSize
  · obtain ⟨hfollows, -, hequal⟩ :=
      follows_update (hs hsize) hsize htable (hchanges hsize) hplaced
    exact ⟨hfollows, hequal⟩
  · rw [← htable] at hsize
    rw [pageTableUpdated_of_size hsize]
    obtain ⟨hfollows, -, hequal⟩ := follows_update (follows_empty table.size) htable htable
      (changesRead_zero _) hplaced
    exact ⟨hfollows, hequal⟩

theorem pageTable_size_of_updated (h : (mmu.pageTableUpdated table s).pageTable.size ≠ 0) :
    (mmu.pageTableUpdated table s).pageTable.size = table.size := by
  unfold pageTableUpdated at h ⊢
  split at h
  case isTrue => exact absurd rfl h
  case isFalse hmod =>
    rw [if_neg hmod]
    dsimp only
    split
    case isTrue => rfl
    case isFalse hsize => exact not_not.1 hsize

theorem follows_reloadPageTable
    (hplaced : s.pageTable.size = mmu.pageTableSize → mmu.Placed s.pageTable.entries)
    (hsize : (mmu.reloadPageTable s).pageTable.size = mmu.pageTableSize) :
    mmu.Follows (mmu.reloadPageTable s) ∧
      ∀ slot ∈ mmu.slots mmu.pageTableSize,
        (mmu.reloadPageTable s).pageTable.entries slot = s.pageTable.entries slot := by
  have hpos := mmu.pageTableSize_pos
  have htable : s.pageTable.size = mmu.pageTableSize := by
    rw [← hsize]
    refine (pageTable_size_of_updated ?_).symm
    change (mmu.reloadPageTable s).pageTable.size ≠ 0
    omega
  refine follows_pageTableUpdated ?_ htable ?_ (hplaced htable)
  · intro hzero
    change 0 = mmu.pageTableSize at hzero
    omega
  · intro hzero
    change 0 = mmu.pageTableSize at hzero
    omega

theorem reloadPageTable_mappings (htable : table.size = mmu.pageTableSize)
    (hplaced : mmu.Placed table.entries) :
    (mmu.reloadPageTable { s with pageTable := table }).mappings = mmu.tracked table.entries := by
  have hpos := mmu.pageTableSize_pos
  have hzero : ({} : PageTable).size ≠ mmu.pageTableSize := by
    change 0 ≠ mmu.pageTableSize
    omega
  obtain ⟨hfollows, hequal⟩ := follows_pageTableUpdated
    (s := { s with pageTable := {}, mappings := fun _ => none })
    (fun h => absurd h hzero) htable (fun h => absurd h hzero) hplaced
  exact hfollows.mappings.trans (tracked_congr hequal)

theorem bothPasses_of_unread {size : Nat} {new : Entries} {u : Update}
    (hunread : ∀ slot ∈ mmu.slots size, u.old slot = new slot ∨
      (u.old slot).lo.v = true ∧ mmu.getPageIndex (u.old slot).lo slot.pteg = none)
    (hpass2 : u.runPass2 = false) : mmu.bothPasses size new u = u := by
  have hvisit : ∀ slot ∈ mmu.slots size, mmu.visit1 new u slot = u := by
    intro slot hslot
    unfold visit1
    split
    case isTrue => rfl
    case isFalse hne =>
      obtain ⟨hvalid, hindex⟩ := (hunread slot hslot).resolve_left hne
      rw [removeMappings, if_pos hvalid, hindex, Option.map_none]
  have hpass : mmu.pass (mmu.visit1 new) size new u = u := by
    refine List.foldlRecOn (motive := fun v => v = u) _ _ rfl fun v hv pteg hpteg => ?_
    rw [hv, visitPteg]
    split
    case isTrue => rfl
    case isFalse =>
      refine List.foldlRecOn (motive := fun v => v = u) _ _ rfl fun v hv place _ => ?_
      rw [hv]
      exact hvisit ⟨pteg, place⟩ (mmu.mem_slots.2 hpteg)
  rw [bothPasses, hpass, hpass2, if_neg Bool.false_ne_true]

/-- What the host maps and the mappings are those of a table. -/
structure Agrees (mmu : Mmu) (table : PageTable) (s : State) : Prop where
  host : ∀ page rpn writeable, mmu.hostMapping s.memory page = some (rpn, writeable) →
    ∃ p hi, mmu.translatePageAddress table.entries page = some (p, hi) ∧
      (∃ slot lo, table.entries slot = ⟨lo, hi⟩ ∧ lo.v = true) ∧
      hi.rpn = rpn ∧ hi.r = true ∧ (writeable = true → hi.c = true)
  mappings : s.mappings = (mmu.reloadPageTable { s with pageTable := table }).mappings

theorem Follows.agrees (hs : mmu.Follows s)
    (hequal : ∀ slot ∈ mmu.slots mmu.pageTableSize, s.pageTable.entries slot = table.entries slot)
    (htable : table.size = mmu.pageTableSize) (hplaced : mmu.Placed table.entries) :
    mmu.Agrees table s where
  mappings := by
    rw [reloadPageTable_mappings htable hplaced, hs.mappings]
    exact tracked_congr hequal
  host := by
    intro page rpn writeable hmapped
    obtain ⟨⟨first, w⟩, hmem, hx⟩ := Option.map_eq_some_iff.1 hmapped
    obtain ⟨rfl, rfl⟩ := Prod.mk.inj hx
    have hi := Nat.mod_lt page.number (Nat.two_pow_pos mmu.hostPageBits)
    obtain ⟨c, ⟨page', hn, hhost⟩, hc⟩ := hs.backed.mapped _ _ _ hmem _ hi
    have hself : mmu.hostPage page.number * 2 ^ mmu.hostPageBits +
        page.number % 2 ^ mmu.hostPageBits = page.number := by
      rw [hostPage, Nat.mul_comm]
      exact Nat.div_add_mod ..
    rw [hself] at hn
    obtain rfl := number_injective hn
    -- The mapping that is on the host, of the entry with priority.
    unfold Mmu.host at hhost
    obtain ⟨m, hm, hbits⟩ := Option.bind_eq_some_iff.1 hhost
    change s.mappings page' = some m at hm
    rw [hs.mappings, tracked_congr hequal] at hm
    unfold tracked at hm
    split at hm
    case isTrue => cases hm
    case isFalse ht =>
      obtain ⟨p, hp, rfl⟩ := Option.map_eq_some_iff.1 hm
      obtain ⟨hlt, hstands, hfirst⟩ := firstStanding_eq_some.1 hp
      have hentry : s.pageTable.entries (mmu.slotOf page' p) = table.entries (mmu.slotOf page' p) :=
        hequal _ (mmu.slotOf_mem_slots page' p)
      change (if (mmu.mappingOf (table.entries (mmu.slotOf page' p)).hi page' p).hostMapping &&
          (s.pageTable.entries (mmu.slotOf page' p)).hi.r then
        some ((s.pageTable.entries (mmu.slotOf page' p)).hi.rpn,
          (s.pageTable.entries (mmu.slotOf page' p)).hi.c) else none) = _ at hbits
      rw [hentry] at hbits
      split at hbits
      case isFalse => cases hbits
      case isTrue hr =>
        obtain ⟨hrpn, rfl⟩ := Prod.mk.inj (Option.some.inj hbits)
        refine ⟨p, _, mmu.translatePageAddress_eq_some (Bool.eq_false_iff.2 ht) hlt hstands hfirst,
          ⟨mmu.slotOf page' p, _, rfl, ?_⟩, hrpn, (Bool.and_eq_true_iff.1 hr).2, hc⟩
        rw [hstands]
        rfl

/-! ### Calls -/

inductive Call where
  | reload
  | updated (table : PageTable)

structure Session where
  state : State
  last : Option PageTable

/-- `ReloadPageTable` first, then it and `PageTableUpdated` with tables of the size that the MMU
    reads. -/
def calls (mmu : Mmu) : System Session Call where
  init s := s.last = none
  step
    | s, .reload => some ⟨mmu.reloadPageTable s.state, some s.state.pageTable⟩
    | s, .updated table =>
      if s.last.isSome ∧ table.size = mmu.pageTableSize then
        some ⟨mmu.pageTableUpdated table s.state, some table⟩
      else none

/-- What a call has to meet: the table has its entries in PTEGs of their pages, and what changes
    does not contradict its place. -/
def CallOk (mmu : Mmu) (s : Session) : Call → Prop
  | .reload => s.state.pageTable.size = mmu.pageTableSize → mmu.Placed s.state.pageTable.entries
  | .updated table => mmu.Placed table.entries ∧
      (s.state.pageTable.size = mmu.pageTableSize →
        mmu.ChangesRead s.state.pageTable.entries table.entries)

structure CallsInvariant (mmu : Mmu) (s : Session) : Prop where
  follows : s.last ≠ none → s.state.pageTable.size = mmu.pageTableSize → mmu.Follows s.state
  copied : ∀ table, s.last = some table → table.size = mmu.pageTableSize →
    ∀ slot ∈ mmu.slots mmu.pageTableSize, s.state.pageTable.entries slot = table.entries slot
  agrees : ∀ table, s.last = some table → table.size = mmu.pageTableSize →
    mmu.Agrees table s.state

theorem step_updated {s : Session} {table : PageTable} (hlast : s.last.isSome = true)
    (htable : table.size = mmu.pageTableSize) : mmu.calls.step s (.updated table) =
      some ⟨mmu.pageTableUpdated table s.state, some table⟩ := by
  change (if s.last.isSome ∧ table.size = mmu.pageTableSize then _ else none) = _
  exact if_pos ⟨hlast, htable⟩

theorem step_invariant {s s' : Session} {call : Call} (hs : mmu.CallsInvariant s)
    (hok : mmu.CallOk s call) (hstep : (mmu.calls).step s call = some s') :
    mmu.CallsInvariant s' := by
  cases call with
  | reload =>
    cases hstep
    have hzero : ({} : PageTable).size ≠ mmu.pageTableSize := Nat.ne_of_lt mmu.pageTableSize_pos
    have hreloaded := fun htable : s.state.pageTable.size = mmu.pageTableSize =>
      follows_pageTableUpdated (s := { s.state with pageTable := {}, mappings := fun _ => none })
        (fun h => absurd h hzero) htable (fun h => absurd h hzero) (hok htable)
    refine ⟨fun _ hsize => (follows_reloadPageTable hok hsize).1, fun table hlast htable => ?_,
      fun table hlast htable => ?_⟩
    · cases hlast
      exact (hreloaded htable).2
    · cases hlast
      exact (hreloaded htable).1.agrees (hreloaded htable).2 htable (hok htable)
  | updated table =>
    obtain ⟨hplaced, hchanges⟩ := hok
    change (if s.last.isSome ∧ table.size = mmu.pageTableSize then
      some (⟨mmu.pageTableUpdated table s.state, some table⟩ : Session) else none) = some s' at hstep
    split at hstep
    case isFalse => cases hstep
    case isTrue hcall =>
      cases hstep
      obtain ⟨hlast, htable⟩ := hcall
      obtain ⟨hfollows, hequal⟩ := follows_pageTableUpdated
        (hs.follows (Option.isSome_iff_ne_none.1 hlast)) htable hchanges hplaced
      refine ⟨fun _ _ => hfollows, fun table' hlast' htable' => ?_, fun table' hlast' htable' => ?_⟩
      · cases hlast'
        exact hequal
      · cases hlast'
        exact hfollows.agrees hequal htable' hplaced

theorem invariant_of_reachable {s : Session} (hs : (mmu.calls).ReachableBy mmu.CallOk s) :
    mmu.CallsInvariant s := by
  apply hs.invariant
  · intro s hinit
    have hnone : ∀ table, s.last ≠ some table := fun table hlast =>
      absurd (hlast.symm.trans hinit) nofun
    exact ⟨fun hne => absurd hinit hne, fun table hlast => absurd hlast (hnone table),
      fun table hlast => absurd hlast (hnone table)⟩
  · exact fun s call s' hs hok hstep => step_invariant hs hok hstep

theorem callOk_updated {s : Session} {table next : PageTable}
    (hs : (mmu.calls).ReachableBy mmu.CallOk s) (hlast : s.last = some table)
    (htable : table.size = mmu.pageTableSize) (hplaced : mmu.Placed next.entries)
    (hchanges : mmu.ChangesRead table.entries next.entries) :
    mmu.CallOk s (.updated next) := by
  refine ⟨hplaced, fun _ slot hslot => ?_⟩
  rw [(invariant_of_reachable hs).copied table hlast htable slot hslot]
  exact hchanges slot hslot

/-- After every call of a run whose calls meet the condition, the host and the mappings agree
    with the table of the call. -/
theorem calls_agree (mmu : Mmu) (s : Session) (table : PageTable)
    (hs : (mmu.calls).ReachableBy mmu.CallOk s) (hlast : s.last = some table)
    (htable : table.size = mmu.pageTableSize) : mmu.Agrees table s.state :=
  (invariant_of_reachable hs).agrees table hlast htable

/-- A table of 2048 PTEGs, so that the hash decides a bit of the API, and segments all alike. -/
def wideHash : Mmu where
  htaborg := 0
  htabmask := 1
  sr := fun _ => ⟨0, false⟩
  dbatMapped := fun _ => false
  overlapsMemcheck := fun _ => false
  fastmem := true
  hostPageBits := 0
  hostPageBits_le := by decide
  backed := fun _ => true

theorem placed_wideHash (table : PageTable) : wideHash.Placed table.entries :=
  fun _ hslot _ hreads => wideHash.placed_of_small (by decide) wideHash.pageTableSize_spec.2.2
    (wideHash.mem_slots.1 hslot) hreads

def tableOf (rows : List (Slot × Pte)) : PageTable where
  size := 0x20000
  entries := fun slot => (rows.lookup slot).getD Pte.zero

theorem size_tableOf (rows : List (Slot × Pte)) : (tableOf rows).size = wideHash.pageTableSize := by
  show 0x20000 = _
  decide +kernel

theorem changesRead_tableOf {rows : List (Slot × Pte)}
    (h : ∀ row ∈ rows, wideHash.getPageIndex row.2.lo row.1.pteg ≠ none) (new : Entries) :
    wideHash.ChangesRead (tableOf rows).entries new := by
  intro slot _ _ hvalid
  change ((rows.lookup slot).getD Pte.zero).lo.v = true at hvalid
  change wideHash.getPageIndex ((rows.lookup slot).getD Pte.zero).lo slot.pteg ≠ none
  cases hlookup : rows.lookup slot with
  | none =>
    rw [hlookup] at hvalid
    cases hvalid
  | some pte =>
    obtain ⟨before, after, hrows, -⟩ := List.lookup_eq_some_iff.1 hlookup
    exact h (slot, pte) (hrows ▸ List.mem_append_right _ List.mem_cons_self)

/-- A valid entry of the first API that maps a page of the memory, written to or not. -/
def entry (changed : Bool) (rpn : BitVec 20) : Pte :=
  ⟨⟨0, false, 0, true⟩, ⟨0, false, 0, changed, true, 0, rpn⟩⟩

/-- The place at an offset in the table. -/
def slotAt (offset : BitVec 32) : Slot :=
  ⟨offset / 64, offset.toNat % 64 / 8, Nat.div_lt_of_lt_mul (Nat.mod_lt _ (by decide))⟩

def firstRows : List (Slot × Pte) := [(slotAt 0, entry true 5)]

/-- The entry maps another page, in front of one for the same page, and there is one of another
    PTEG. -/
def shadowingRows : List (Slot × Pte) :=
  [(slotAt 0, entry false 7), (slotAt 8, entry true 9), (slotAt 0xD0, entry true 11)]

def unshadowedRows : List (Slot × Pte) :=
  [(slotAt 8, entry true 9), (slotAt 0xD0, entry true 12)]

/-- From an empty table on, an entry that is changed, and then one that is removed from in front
    of another: the page has the mapping of that. -/
theorem calls_agree_unshadowed : ∃ s, wideHash.calls.ReachableBy wideHash.CallOk s ∧
    s.last = some (tableOf unshadowedRows) ∧ wideHash.Agrees (tableOf unshadowedRows) s.state ∧
      s.state.mappings ⟨0, 0⟩ = some ⟨9, true, 1⟩ ∧
      s.state.mappings ⟨5, 3⟩ = some ⟨12, true, 2⟩ := by
  have hzero : ({} : PageTable).size ≠ wideHash.pageTableSize :=
    Nat.ne_of_lt wideHash.pageTableSize_pos
  let start : Session := ⟨{}, none⟩
  have hreload : wideHash.calls.ReachableBy wideHash.CallOk
      ⟨wideHash.reloadPageTable start.state, some start.state.pageTable⟩ :=
    .step (a := .reload) (.init (show start.last = none from rfl)) (fun h => absurd h hzero) rfl
  have hok : wideHash.CallOk ⟨wideHash.reloadPageTable start.state, some start.state.pageTable⟩
      (.updated (tableOf firstRows)) :=
    ⟨placed_wideHash _, fun h => absurd h hzero⟩
  have hfirst := hreload.step hok (step_updated rfl (size_tableOf _))
  have hshadowing := hfirst.step (callOk_updated hfirst rfl (size_tableOf _)
    (placed_wideHash (tableOf shadowingRows)) (changesRead_tableOf (by decide +kernel) _))
    (step_updated rfl (size_tableOf _))
  have hs := hshadowing.step (callOk_updated hshadowing rfl (size_tableOf _)
    (placed_wideHash (tableOf unshadowedRows)) (changesRead_tableOf (by decide +kernel) _))
    (step_updated rfl (size_tableOf _))
  have hagrees := calls_agree wideHash _ _ hs rfl (size_tableOf _)
  have hmappings := hagrees.mappings
  rw [reloadPageTable_mappings (size_tableOf _) (placed_wideHash _)] at hmappings
  refine ⟨_, hs, rfl, hagrees, ?_, ?_⟩
  · exact (congrFun hmappings _).trans (by decide +kernel)
  · exact (congrFun hmappings _).trans (by decide +kernel)

/-- A table with one valid entry, the first one. -/
def single (api : BitVec 6) : PageTable where
  size := 0x20000
  entries := fun slot =>
    if slot.pteg = 0 ∧ slot.place.val = 0 then
      ⟨⟨api, false, 0, true⟩, ⟨0, false, 0, true, true, 0, 5⟩⟩
    else Pte.zero

theorem size_single (api : BitVec 6) : (single api).size = wideHash.pageTableSize := by
  show 0x20000 = _
  decide +kernel

/-- An entry that contradicts its place and is then replaced by one that does not: the page of the
    new one is not mapped. -/
theorem single_not_agrees : ¬ ∀ (mmu : Mmu) (s : Session) (table : PageTable),
    mmu.calls.Reachable s → s.last = some table → table.size = mmu.pageTableSize →
      mmu.Agrees table s.state := by
  intro h
  let start : Session := ⟨{ pageTable := single 1 }, none⟩
  obtain ⟨s, hs⟩ : ∃ s, s = wideHash.reloadPageTable start.state := ⟨_, rfl⟩
  have hne : ({} : PageTable).size ≠ (single 1).size := by decide
  have hempty : wideHash.Follows { pageTable := { size := (single 1).size } } := follows_empty _
  obtain ⟨hfollows, hsize, hequal⟩ := follows_update hempty (size_single 1) (size_single 1)
    (changesRead_zero _) (placed_wideHash (single 1))
  have hreload : s = wideHash.pageTableUpdated (single 1)
      { pageTable := { size := (single 1).size } } :=
    hs.trans (pageTableUpdated_of_size hne)
  rw [← hreload] at hfollows hsize hequal
  -- The update leaves the mappings as they are.
  have hunread : ∀ slot ∈ wideHash.slots (single 0).size,
      s.pageTable.entries slot = (single 0).entries slot ∨
        (s.pageTable.entries slot).lo.v = true ∧
          wideHash.getPageIndex (s.pageTable.entries slot).lo slot.pteg = none := by
    intro slot hslot
    rw [hequal slot (size_single 0 ▸ hslot)]
    by_cases hfirst : slot.pteg = 0 ∧ slot.place.val = 0
    · have hentry : (single 1).entries slot =
          ⟨⟨1, false, 0, true⟩, ⟨0, false, 0, true, true, 0, 5⟩⟩ := if_pos hfirst
      rw [hentry, hfirst.1]
      exact .inr (by decide +kernel)
    · exact .inl ((if_neg hfirst).trans (if_neg hfirst).symm)
  have hmappings : (wideHash.pageTableUpdated (single 0) s).mappings =
      wideHash.tracked (single 1).entries := by
    rw [pageTableUpdated_eq (hsize.trans (size_single 0).symm) (by decide +kernel) rfl,
      bothPasses_of_unread hunread rfl]
    exact hfollows.mappings.trans (tracked_congr hequal)
  have hreach : wideHash.calls.Reachable
      ⟨wideHash.pageTableUpdated (single 0) s, some (single 0)⟩ := by
    have hfirst : wideHash.calls.Reachable ⟨s, some (single 1)⟩ :=
      .step (a := .reload) (.init (show start.last = none from rfl)) (by rw [hs]; rfl)
    exact hfirst.step (a := .updated (single 0)) (step_updated rfl (size_single 0))
  have hagrees := (h wideHash _ (single 0) hreach rfl (size_single 0)).mappings
  rw [reloadPageTable_mappings (size_single 0) (placed_wideHash _)] at hagrees
  have hpage := congrFun (hmappings.symm.trans hagrees) ⟨0, 0⟩
  have hnone : wideHash.tracked (single 1).entries ⟨0, 0⟩ = none := by decide +kernel
  have hsome : wideHash.tracked (single 0).entries ⟨0, 0⟩ ≠ none := by decide +kernel
  exact hsome (hpage.symm.trans hnone)

end Mmu
end DolphinXR.PowerPC
