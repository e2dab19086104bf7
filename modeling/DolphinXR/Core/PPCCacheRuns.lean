import DolphinXR.Core.PPCCacheAccess

/- The operations on whole lines and on the whole cache. `Store` and `Flush` clean and evict the way
   of a line; after `FlushAll` memory has every byte that a program finds; a saved state that is
   loaded over any other has the lookup tables that it was saved with, on the lines of the regions.

   A program over the cache is a run of its operations, with the states that were saved and the
   bytes that the program wrote last. The cache does not see that a copy failed: what is written
   behind the real end of RAM is lost when its line leaves the cache. -/
namespace DolphinXR.PowerPC
open Lib

namespace Cached
variable {mm : MemoryManager} {s : Cached} {addr b x set way : Nat}

theorem Found.place {r : Cached × Nat × Nat} (h : Found mm addr s r) (hway : r.2.2 ≠ noWay) :
    r.2.2 < 8 ∧ r.1.isValid r.2.1 r.2.2 ∧ r.1.addrs r.2.1 r.2.2 = lineOf addr := by
  have hholds := h.way.resolve_left fun hnone => hway hnone.1
  have hset : r.2.1 = setOf (lineOf addr) := by rw [h.set, setOf_lineOf]
  rw [hset]
  exact ⟨hholds.lt, hholds.valid, hholds.addr⟩

theorem Consistent.store (h : s.Consistent mm) (hr : InRegion mm addr) :
    (store mm addr s).Consistent mm ∧ SameContents mm s (store mm addr s) := by
  have hfound := h.getCache hr true
  by_cases hway : (Cached.getCache mm addr true s).2.2 = noWay
  · simp only [Cached.store, hway, if_true]
    exact ⟨hfound.consistent, hfound.same⟩
  · obtain ⟨hlt, hvalid, haddr⟩ := hfound.place hway
    obtain ⟨hclean, hsame⟩ := hfound.consistent.cleanWay hlt hvalid
    simp only [Cached.store, hway, hvalid, if_true, if_false, ← haddr]
    exact ⟨hclean, hfound.same.trans hsame⟩

theorem Consistent.flush (h : s.Consistent mm) (hr : InRegion mm addr) :
    (flush mm addr s).Consistent mm ∧ SameContents mm s (flush mm addr s) := by
  have hfound := h.getCache hr true
  by_cases hway : (Cached.getCache mm addr true s).2.2 = noWay
  · simp only [Cached.flush, hway, if_true]
    exact ⟨hfound.consistent, hfound.same⟩
  · obtain ⟨hlt, hvalid, haddr⟩ := hfound.place hway
    obtain ⟨hevict, hsame, -⟩ := hfound.consistent.evictWay hlt hvalid
    rw [evictWay_eq] at hevict hsame
    simp only [Cached.flush, hway, hvalid, if_true, if_false, ← haddr]
    exact ⟨hevict, hfound.same.trans hsame⟩

theorem Consistent.touch (h : s.Consistent mm) (hr : InRegion mm addr) :
    (touch mm addr s).Consistent mm ∧ SameContents mm s (touch mm addr s) :=
  ⟨(h.getCache hr false).consistent, (h.getCache hr false).same⟩

/-! ### All lines -/

theorem mem_places : (set, way) ∈ places ↔ set < 128 ∧ way < 8 := by
  simp [places, cacheSets, cacheWays]

theorem Holds.mem_places (h : s.Holds b way) : (setOf b, way) ∈ places := by
  rw [Cached.mem_places, setOf_eq]
  exact ⟨Nat.mod_lt _ (by decide), h.lt⟩

theorem Consistent.writeBack (h : s.Consistent mm) (hway : way < 8) (hvalid : s.isValid set way) :
    (writeBack mm (s.addrs set way) set way s).Consistent mm ∧
      SameContents mm s (writeBack mm (s.addrs set way) set way s) := by
  obtain ⟨hclean, hsame⟩ := h.cleanWay hway hvalid
  obtain ⟨memory, hmemory⟩ := writeBack_eq mm (s.addrs set way) set way s
  simp only [Cached.cleanWay, hmemory] at hclean hsame
  rw [hmemory]
  refine ⟨⟨h.names, h.lines, ?_, h.dirty⟩, hsame⟩
  intro set' way' hway' hvalid' hnot
  refine hclean.clean set' way' hway' hvalid' fun hm => hnot ?_
  have hbit : (Function.update s.modified set _ set').getLsbD way' = true := hm
  rw [getLsbD_clear set hway s.modified set' way', Bool.and_eq_true] at hbit
  exact hbit.1

def Settled (mm : MemoryManager) (s : Cached) (x : Nat) : Prop :=
  byteAt s.memory x = s.contents mm x

theorem Consistent.settled_writeBack (h : s.Consistent mm) (hway : way < 8)
    (hvalid : s.isValid set way) (hx : InRegion mm x) (hc : Copyable mm x)
    (hsettled : s.Settled mm x ∨ lineOf x = s.addrs set way) :
    (Cached.writeBack mm (s.addrs set way) set way s).Settled mm x := by
  obtain ⟨-, hsame⟩ := h.writeBack hway hvalid
  have hset := (h.lines set way hway hvalid).2
  unfold Settled
  rw [hsame x hx hc, h.byteAt_writeBack hway hvalid]
  by_cases hline : lineOf x = s.addrs set way
  · have hholds : s.Holds (lineOf x) way := hline ▸ h.holds hway hvalid
    have hset' : setOf x = set := by rw [← setOf_lineOf, hline, hset]
    by_cases hmodified : s.isModified set way
    · rw [if_pos ⟨hmodified, hline⟩, h.contents_of_holds hx hholds, hset']
    · rw [if_neg fun hin => hmodified hin.1]
      exact (h.contents_of_clean hx hc hholds (hset' ▸ hmodified)).symm
  · rw [if_neg fun hin => hline hin.2]
    exact hsettled.resolve_right hline

/-- The turn of the loop of `FlushAll` over a set and a way. -/
def flushPlace (mm : MemoryManager) (s : Cached) (p : Nat × Nat) : Cached :=
  if s.isValid p.1 p.2 then Cached.writeBack mm (s.addrs p.1 p.2) p.1 p.2 s else s

theorem flushPlace_eq (mm : MemoryManager) (s : Cached) (p : Nat × Nat) :
    ∃ memory, flushPlace mm s p = { s with memory } := by
  unfold flushPlace
  split
  · exact writeBack_eq ..
  · exact ⟨s.memory, rfl⟩

theorem flushAll_eq (mm : MemoryManager) (s : Cached) :
    flushAll mm s = reset (places.foldl (flushPlace mm) s) := rfl

@[simp] theorem memory_reset (s : Cached) : (reset s).memory = s.memory := rfl

theorem Consistent.flushPlaces (h : s.Consistent mm) {l : List (Nat × Nat)}
    (hl : ∀ p ∈ l, p.2 < 8) :
    (l.foldl (flushPlace mm) s).Consistent mm ∧ SameContents mm s (l.foldl (flushPlace mm) s) ∧
      ∀ x, InRegion mm x → Copyable mm x →
        (s.Settled mm x ∨ ∃ p ∈ l, s.isValid p.1 p.2 ∧ lineOf x = s.addrs p.1 p.2) →
        (l.foldl (flushPlace mm) s).Settled mm x := by
  induction l generalizing s with
  | nil => exact ⟨h, fun _ _ _ => rfl, fun x _ _ hx => hx.resolve_right (by simp)⟩
  | cons p rest ih =>
    have hp := hl p (List.mem_cons_self ..)
    have hrest := fun q hq => hl q (List.mem_cons_of_mem _ hq)
    obtain ⟨memory, hmemory⟩ := flushPlace_eq mm s p
    rw [List.foldl_cons]
    have hturn : (flushPlace mm s p).Consistent mm ∧ SameContents mm s (flushPlace mm s p) ∧
        ∀ x, InRegion mm x → Copyable mm x →
          (s.Settled mm x ∨ s.isValid p.1 p.2 ∧ lineOf x = s.addrs p.1 p.2) →
          (flushPlace mm s p).Settled mm x := by
      unfold flushPlace
      by_cases hvalid : s.isValid p.1 p.2
      · simp only [hvalid, if_true, true_and]
        obtain ⟨hback, hsame⟩ := h.writeBack hp hvalid
        exact ⟨hback, hsame, fun x hx hc => h.settled_writeBack hp hvalid hx hc⟩
      · rw [if_neg hvalid]
        exact ⟨h, fun _ _ _ => rfl, fun x _ _ hx => hx.resolve_right fun hin => hvalid hin.1⟩
    obtain ⟨hturn, hsame, hsettled⟩ := hturn
    obtain ⟨hend, hsame', hsettled'⟩ := ih hturn hrest
    refine ⟨hend, hsame.trans hsame', fun x hx hc hor => hsettled' x hx hc ?_⟩
    rw [hmemory] at hsettled ⊢
    rcases hor with hbefore | ⟨q, hq, hvalid, hline⟩
    · exact .inl (hsettled x hx hc (.inl hbefore))
    · rcases List.mem_cons.1 hq with rfl | hq
      · exact .inl (hsettled x hx hc (.inr ⟨hvalid, hline⟩))
      · exact .inr ⟨q, hq, hvalid, hline⟩

theorem Consistent.reset (s : Cached) : (reset s).Consistent mm := by
  have hnone : ∀ set way, ¬ (Cached.reset s).isValid set way := fun set way => by
    simp [isValid, Cached.reset]
  refine ⟨fun a _ way hway => ?_, ?_, ?_, ?_⟩
  · exact iff_of_false (Ne.symm hway) fun hholds => hnone _ _ hholds.valid
  · exact fun set way _ hvalid => absurd hvalid (hnone set way)
  · exact fun set way _ hvalid => absurd hvalid (hnone set way)
  · exact fun set way _ hvalid => absurd hvalid (hnone set way)

theorem Consistent.new (memory : Memory) : ({ memory } : Cached).Consistent mm :=
  Consistent.reset { memory }

theorem Consistent.byteAt_flushAll (h : s.Consistent mm) (hx : InRegion mm x)
    (hc : Copyable mm x) : byteAt (flushAll mm s).memory x = s.contents mm x := by
  have hplaces : ∀ p ∈ places, p.2 < 8 := fun p hp => (Cached.mem_places.1 hp).2
  obtain ⟨-, hsame, hsettled⟩ := h.flushPlaces hplaces
  rw [← hsame x hx hc, flushAll_eq, memory_reset]
  apply hsettled x hx hc
  by_cases hnone : s.lookupOf mm (lineOf x) = noWay
  · exact .inl (contents_of_absent hnone).symm
  · have hholds := (h.names _ hx.isLine _ hnone).1 rfl
    exact .inr ⟨_, hholds.mem_places, hholds.valid, hholds.addr.symm⟩

theorem Consistent.flushAll (h : s.Consistent mm) :
    (flushAll mm s).Consistent mm ∧ SameContents mm s (flushAll mm s) := by
  refine ⟨Consistent.reset _, fun x hx hc => ?_⟩
  rw [← h.byteAt_flushAll hx hc, flushAll_eq]
  exact contents_of_absent rfl

/-! ### Saved states -/

/-- The turn of the loops of `DoState` over a set and a way. -/
def setEntry (mm : MemoryManager) (entry : Nat → Nat) (s : Cached) (p : Nat × Nat) : Cached :=
  if s.isValid p.1 p.2 then setLookup mm (s.addrs p.1 p.2) (entry p.2) s else s

theorem setEntry_eq (mm : MemoryManager) (entry : Nat → Nat) (s : Cached) (p : Nat × Nat) :
    ∃ lookup, setEntry mm entry s p = { s with lookup } := by
  unfold setEntry
  split
  · exact ⟨_, rfl⟩
  · exact ⟨s.lookup, rfl⟩

theorem setEntries_eq (mm : MemoryManager) (entry : Nat → Nat) (s : Cached) :
    setEntries mm entry s = places.foldl (setEntry mm entry) s := rfl

theorem foldl_setEntry_eq (mm : MemoryManager) (entry : Nat → Nat) (l : List (Nat × Nat))
    (s : Cached) : ∃ lookup, l.foldl (setEntry mm entry) s = { s with lookup } := by
  induction l generalizing s with
  | nil => exact ⟨s.lookup, rfl⟩
  | cons p rest ih =>
    obtain ⟨lookup, hp⟩ := setEntry_eq mm entry s p
    obtain ⟨lookup', hrest⟩ := ih { s with lookup }
    exact ⟨lookup', by rw [List.foldl_cons, hp, hrest]⟩

theorem lookupOf_setEntry {entry : Nat → Nat} {l : List (Nat × Nat)} {e : Nat}
    (hb : IsLine mm b) (hlines : ∀ p ∈ l, s.isValid p.1 p.2 → IsLine mm (s.addrs p.1 p.2))
    (hentry : ∀ p ∈ l, s.isValid p.1 p.2 → s.addrs p.1 p.2 = b → entry p.2 = e)
    (hsome : s.lookupOf mm b = e ∨ ∃ p ∈ l, s.isValid p.1 p.2 ∧ s.addrs p.1 p.2 = b) :
    (l.foldl (setEntry mm entry) s).lookupOf mm b = e := by
  induction l generalizing s with
  | nil => exact hsome.resolve_right (by simp)
  | cons p rest ih =>
    have hturn : (setEntry mm entry s p).lookupOf mm b =
        if s.isValid p.1 p.2 ∧ s.addrs p.1 p.2 = b then entry p.2 else s.lookupOf mm b := by
      unfold setEntry
      by_cases hvalid : s.isValid p.1 p.2
      · rw [if_pos hvalid, lookupOf_setLookup (hlines p (List.mem_cons_self ..) hvalid) hb]
        exact if_congr ⟨fun heq => ⟨hvalid, heq.symm⟩, fun hin => hin.2.symm⟩ rfl rfl
      · rw [if_neg hvalid, if_neg fun hin => hvalid hin.1]
    obtain ⟨lookup, hp⟩ := setEntry_eq mm entry s p
    rw [hp] at hturn
    rw [List.foldl_cons, hp]
    apply ih
    · exact fun q hq => hlines q (List.mem_cons_of_mem _ hq)
    · exact fun q hq => hentry q (List.mem_cons_of_mem _ hq)
    · by_cases hholds : s.isValid p.1 p.2 ∧ s.addrs p.1 p.2 = b
      · rw [if_pos hholds, hentry p (List.mem_cons_self ..) hholds.1 hholds.2] at hturn
        exact .inl hturn
      · rw [if_neg hholds] at hturn
        rcases hsome with hthere | ⟨q, hq, hin⟩
        · exact .inl (hturn.trans hthere)
        · refine .inr ⟨q, (List.mem_cons.1 hq).resolve_left ?_, hin⟩
          rintro rfl
          exact hholds hin

theorem Consistent.line_of_place (h : s.Consistent mm) {p : Nat × Nat} (hp : p ∈ places)
    (hvalid : s.isValid p.1 p.2) : IsLine mm (s.addrs p.1 p.2) :=
  (h.lines p.1 p.2 (Cached.mem_places.1 hp).2 hvalid).1

theorem lookupOf_with (mm : MemoryManager) (b : Nat) (s t : Cached) :
    ({ s with lookup := t.lookup } : Cached).lookupOf mm b = t.lookupOf mm b := rfl

theorem Consistent.lookupOf_setEntries (h : s.Consistent mm) {entry : Nat → Nat}
    {lookup : Table → Nat → Nat} {e : Nat} (hb : IsLine mm b)
    (hholds : ∀ way, s.Holds b way → entry way = e)
    (hnone : s.lookupOf mm b = noWay → ({ s with lookup } : Cached).lookupOf mm b = e) :
    (setEntries mm entry { s with lookup }).lookupOf mm b = e := by
  rw [setEntries_eq]
  apply lookupOf_setEntry hb
  · exact fun p hp hvalid => h.line_of_place hp hvalid
  · intro p hp hvalid haddr
    exact hholds p.2 (haddr ▸ h.holds (Cached.mem_places.1 hp).2 hvalid)
  · by_cases habsent : s.lookupOf mm b = noWay
    · exact .inl (hnone habsent)
    · have hway := (h.names b hb _ habsent).1 rfl
      exact .inr ⟨_, hway.mem_places, hway.valid, hway.addr⟩

theorem Consistent.lookupOf_loadState {saved : Cached} (hsaved : saved.Consistent mm)
    (h : s.Consistent mm) (hb : IsLine mm b) :
    (loadState mm saved s).lookupOf mm b = saved.lookupOf mm b := by
  have hclear : (setEntries mm (fun _ => noWay) s).lookupOf mm b = noWay := by
    have hcleared : ∀ way, s.Holds b way → (fun _ : Nat => noWay) way = noWay := fun _ _ => rfl
    exact h.lookupOf_setEntries hb hcleared id
  apply hsaved.lookupOf_setEntries hb
  · exact fun way hway => (hsaved.lookupOf_eq hb hway).symm
  · intro hnone
    rw [lookupOf_with, hclear, hnone]

theorem Consistent.loadState {saved : Cached} (hsaved : saved.Consistent mm)
    (h : s.Consistent mm) :
    (loadState mm saved s).Consistent mm ∧ SameContents mm saved (loadState mm saved s) := by
  have hlookup := fun b (hb : IsLine mm b) => hsaved.lookupOf_loadState h hb
  obtain ⟨lookup, hload⟩ := foldl_setEntry_eq mm id places
    { saved with lookup := (setEntries mm (fun _ => noWay) s).lookup }
  have hloaded : Cached.loadState mm saved s = { saved with lookup } := hload
  rw [hloaded] at hlookup ⊢
  refine ⟨⟨fun b hb way hway => ?_, hsaved.lines, hsaved.clean, hsaved.dirty⟩, fun x hx _ => ?_⟩
  · rw [hlookup b hb]
    exact hsaved.names b hb way hway
  · rw [contents, contents, hlookup _ hx.isLine]

end Cached

/-! ### Programs over the cache -/

open Cached

/-- A cache, what the program wrote last to each address, and the states that were saved with what
    it had written by then. -/
structure Session where
  cached : Cached
  written : Nat → UInt8
  saved : List (Cached × (Nat → UInt8)) := []

inductive Action where
  | read (addr : Nat) (buffer : Bytes) (locked : Bool)
  | write (addr : Nat) (value : Bytes) (locked : Bool)
  | touch (addr : Nat)
  | store (addr : Nat)
  | flush (addr : Nat)
  | flushAll
  | save
  | load (index : Nat)

def InRange (mm : MemoryManager) (addr len : Nat) : Prop :=
  ∀ i, i < len → InRegion mm (addr + i)

instance (mm : MemoryManager) (addr len : Nat) : Decidable (InRange mm addr len) :=
  inferInstanceAs (Decidable (∀ i, i < len → _))

instance (mm : MemoryManager) (addr len : Nat) : Decidable (Accessible mm addr len) :=
  inferInstanceAs (Decidable (∀ i, i < len → _))

def overwrite (written : Nat → UInt8) (addr : Nat) (value : Bytes) : Nat → UInt8 := fun x =>
  if addr ≤ x ∧ x < addr + value.length then value.getD (x - addr) 0 else written x

def bytesFrom (written : Nat → UInt8) (addr len : Nat) : Bytes :=
  (List.range len).map fun i => written (addr + i)

def Session.new (memory : Memory) : Session := { cached := { memory }, written := byteAt memory }

def Session.step (mm : MemoryManager) (s : Session) : Action → Option Session
  | .read addr buffer locked =>
    if InRange mm addr buffer.length then
      some { s with cached := (s.cached.read mm addr buffer locked).2 }
    else none
  | .write addr value locked =>
    if InRange mm addr value.length then
      some { s with
        cached := s.cached.write mm addr value locked
        written := overwrite s.written addr value }
    else none
  | .touch addr =>
    if InRegion mm addr then some { s with cached := s.cached.touch mm addr } else none
  | .store addr =>
    if InRegion mm addr then some { s with cached := s.cached.store mm addr } else none
  | .flush addr =>
    if InRegion mm addr then some { s with cached := s.cached.flush mm addr } else none
  | .flushAll => some { s with cached := s.cached.flushAll mm }
  | .save => some { s with saved := s.saved ++ [(s.cached, s.written)] }
  | .load index =>
    s.saved[index]?.map fun (saved, written) =>
      { s with cached := Cached.loadState mm saved s.cached, written }

def session (mm : MemoryManager) : System Session Action where
  init s := ∃ memory, s = Session.new memory
  step := Session.step mm

/-- The lines that are read and written are ones that the memory manager has. -/
def Reaches (mm : MemoryManager) : Action → Prop
  | .read addr buffer _ => Accessible mm addr buffer.length
  | .write addr value _ => Accessible mm addr value.length
  | _ => True

structure Shows (mm : MemoryManager) (cached : Cached) (written : Nat → UInt8) : Prop where
  consistent : cached.Consistent mm
  contents : ∀ x, InRegion mm x → Copyable mm x → cached.contents mm x = written x

structure Session.Valid (mm : MemoryManager) (s : Session) : Prop where
  shows : Shows mm s.cached s.written
  saved : ∀ p ∈ s.saved, Shows mm p.1 p.2

variable {mm : MemoryManager} {s s' : Session}

theorem Shows.keep {cached cached' : Cached} {written : Nat → UInt8} (h : Shows mm cached written)
    (hkeep : cached'.Consistent mm ∧ Cached.SameContents mm cached cached') :
    Shows mm cached' written :=
  ⟨hkeep.1, fun x hx hc => (hkeep.2 x hx hc).trans (h.contents x hx hc)⟩

theorem Shows.write {cached : Cached} {written : Nat → UInt8} (h : Shows mm cached written)
    {addr : Nat} {value : Bytes} (hreach : Accessible mm addr value.length) (locked : Bool) :
    Shows mm (cached.write mm addr value locked) (overwrite written addr value) := by
  obtain ⟨hconsistent, hwrote⟩ := h.consistent.write hreach locked
  refine ⟨hconsistent, fun x hx hc => ?_⟩
  rw [hwrote x hx hc, h.contents x hx hc]
  rfl

theorem Shows.load {cached saved : Cached} {written written' : Nat → UInt8}
    (h : Shows mm cached written) (hsaved : Shows mm saved written') :
    Shows mm (Cached.loadState mm saved cached) written' :=
  hsaved.keep (hsaved.consistent.loadState h.consistent)

theorem Shows.new (memory : Memory) : Shows mm { memory } (byteAt memory) :=
  ⟨Cached.Consistent.new memory, fun _ _ _ => Cached.contents_of_absent rfl⟩

theorem Shows.read {cached : Cached} {written : Nat → UInt8} (h : Shows mm cached written)
    {addr : Nat} {buffer : Bytes} (hreach : Accessible mm addr buffer.length) (locked : Bool) :
    (cached.read mm addr buffer locked).1 = bytesFrom written addr buffer.length := by
  rw [(h.consistent.read hreach locked).1]
  apply List.map_congr_left
  intro i hi
  obtain ⟨hr, hc⟩ := hreach i (List.mem_range.1 hi)
  exact h.contents _ hr hc

theorem Session.Valid.replace (h : s.Valid mm) {cached : Cached} {written : Nat → UInt8}
    (hshows : Shows mm cached written) : ({ s with cached, written } : Session).Valid mm :=
  ⟨hshows, h.saved⟩

theorem Session.Valid.keep (h : s.Valid mm) {cached : Cached}
    (hkeep : cached.Consistent mm ∧ SameContents mm s.cached cached) :
    ({ s with cached } : Session).Valid mm := h.replace (h.shows.keep hkeep)

theorem Session.Valid.step (h : s.Valid mm) {action : Action} (hreach : Reaches mm action)
    (hstep : s.step mm action = some s') : s'.Valid mm := by
  have hconsistent := h.shows.consistent
  cases action with
  | read addr buffer locked =>
    simp only [Session.step, Option.ite_none_right_eq_some, Option.some.injEq] at hstep
    obtain ⟨-, rfl⟩ := hstep
    exact h.keep (hconsistent.read hreach locked).2
  | write addr value locked =>
    simp only [Session.step, Option.ite_none_right_eq_some, Option.some.injEq] at hstep
    obtain ⟨-, rfl⟩ := hstep
    exact h.replace (h.shows.write hreach locked)
  | touch addr =>
    simp only [Session.step, Option.ite_none_right_eq_some, Option.some.injEq] at hstep
    obtain ⟨hr, rfl⟩ := hstep
    exact h.keep (hconsistent.touch hr)
  | store addr =>
    simp only [Session.step, Option.ite_none_right_eq_some, Option.some.injEq] at hstep
    obtain ⟨hr, rfl⟩ := hstep
    exact h.keep (hconsistent.store hr)
  | flush addr =>
    simp only [Session.step, Option.ite_none_right_eq_some, Option.some.injEq] at hstep
    obtain ⟨hr, rfl⟩ := hstep
    exact h.keep (hconsistent.flush hr)
  | flushAll =>
    simp only [Session.step, Option.some.injEq] at hstep
    subst hstep
    exact h.keep hconsistent.flushAll
  | save =>
    obtain rfl := Option.some.inj hstep
    refine ⟨h.shows, fun p hp => ?_⟩
    rcases List.mem_append.1 hp with hp | hp
    · exact h.saved p hp
    · obtain rfl := List.mem_singleton.1 hp
      exact h.shows
  | load index =>
    simp only [Session.step, Option.map_eq_some_iff] at hstep
    obtain ⟨⟨saved, written⟩, hsaved, rfl⟩ := hstep
    have hthen : Shows mm saved written := h.saved _ (List.mem_of_getElem? hsaved)
    exact h.replace (h.shows.load hthen)

theorem Session.Valid.of_run (h : (session mm).ReachableBy (fun _ a => Reaches mm a) s) :
    s.Valid mm := by
  refine System.ReachableBy.invariant (P := Session.Valid mm) ?_ ?_ h
  · rintro - ⟨memory, rfl⟩
    exact ⟨Shows.new memory, fun p hp => absurd hp List.not_mem_nil⟩
  · exact fun s action s' hvalid hreach hstep => hvalid.step hreach hstep

/-- While the lines that are read and written are ones that the memory manager has, the cache is
    transparent. -/
theorem transparent (h : (session mm).ReachableBy (fun _ a => Reaches mm a) s) :
    (∀ addr (buffer : Bytes) locked, Accessible mm addr buffer.length →
      (s.cached.read mm addr buffer locked).1 = bytesFrom s.written addr buffer.length) ∧
    (∀ a, IsLine mm a → ∀ way, way ≠ noWay →
      (s.cached.lookupOf mm a = way ↔ s.cached.Holds a way)) ∧
    ∀ x, InRegion mm x → Copyable mm x →
      byteAt (s.cached.flushAll mm).memory x = s.written x := by
  have hshows := (Session.Valid.of_run h).shows
  refine ⟨fun addr buffer locked hreach => hshows.read hreach locked,
    hshows.consistent.names, fun x hx hc => ?_⟩
  rw [hshows.consistent.byteAt_flushAll hx hc, hshows.contents x hx hc]

/-- A console with 24 MiB of RAM and no EXRAM. -/
def gameCube : MemoryManager where
  ramSizeReal := 0x1800000
  ramBits := 25
  haveExRam := false
  exRamSizeReal := 0
  exRamBits := 26
  ram_le := by decide
  ramBits_le := by decide
  exRam_le := by decide
  exRamBits_le := by decide

/-- A write over the end of a line, and a flush of the line. -/
theorem transparent_straddle : ∃ s : Session,
    (session gameCube).run (Session.new fun _ _ => 0)
      [.write 31 [1, 2] false, .flush 31] = some s ∧
    (s.cached.read gameCube 31 [0, 0] true).1 = [1, 2] := by
  have hreach : Accessible gameCube 31 2 := by decide
  have hok : ∀ a ∈ [Action.write 31 [1, 2] false, .flush 31], ∀ _ : Session,
      Reaches gameCube a := by
    simp [Reaches, hreach]
  have hinit : (session gameCube).ReachableBy (fun _ a => Reaches gameCube a)
    (Session.new fun _ _ => 0) := .init ⟨_, rfl⟩
  obtain ⟨s, hrun⟩ := Option.isSome_iff_exists.1 (show ((session gameCube).run
    (Session.new fun _ _ => 0) [.write 31 [1, 2] false, .flush 31]).isSome by decide +kernel)
  have hwritten := System.run_eval hrun (fun s => bytesFrom s.written 31 2)
    (b := [1, 2]) (by decide +kernel)
  exact ⟨s, hrun, ((transparent (hinit.run hok hrun)).1 31 [0, 0] true hreach).trans hwritten⟩

/-- What is written behind the 24 MiB, at an address of the 32 MiB that RAM is addressed by, is lost
    when its line is flushed. -/
theorem pastRam_not_transparent :
    ¬ ∀ s, (session gameCube).Reachable s → ∀ addr (buffer : Bytes) locked,
      InRange gameCube addr buffer.length →
      (s.cached.read gameCube addr buffer locked).1 =
        bytesFrom s.written addr buffer.length := by
  intro h
  have hrange : InRange gameCube 0x1800000 1 := by decide
  have hinit : (session gameCube).Reachable (Session.new fun _ _ => 0) := .init ⟨_, rfl⟩
  obtain ⟨s, hrun⟩ := Option.isSome_iff_exists.1 (show ((session gameCube).run
    (Session.new fun _ _ => 0) [.write 0x1800000 [5] false, .flush 0x1800000]).isSome
    by decide +kernel)
  have hread := System.run_eval hrun (fun s =>
    ((s.cached.read gameCube 0x1800000 [0] true).1, bytesFrom s.written 0x1800000 1))
    (b := ([0], [5])) (by decide +kernel)
  obtain ⟨hread, hwritten⟩ := Prod.mk.inj hread
  have htransparent := h s (hinit.run hrun) 0x1800000 [0] true hrange
  rw [hread] at htransparent
  exact absurd (htransparent.trans hwritten) (by decide)

end DolphinXR.PowerPC
