import DolphinXR.Core.GCMemcardBlocks

/- What `ImportFile` and `RemoveFile` do to a card whose number of free blocks is right:
   the new directory and BAT, and how the entries of the BAT have changed. A save that
   `ReadSavefile` returns has at least the blocks that its entry counts. -/
namespace DolphinXR.GCMemcard
open Lib

namespace TwoCopies
variable {α : Type}

@[simp] theorem current_update (t : TwoCopies α) (a : α) : (t.update a).current = a := by
  unfold update current
  split <;> rfl

@[simp] theorem current_map (f : α → α) (t : TwoCopies α) : (t.map f).current = f t.current := by
  unfold map current
  split <;> rfl

end TwoCopies

/-! ### Entries of the directory -/

namespace DEntry

theorem firstBlock_setFirstBlock (e : DEntry) {block : Nat} (h : block < 65536) :
    (e.setFirstBlock block).firstBlock = block := by
  simp only [setFirstBlock, firstBlock, Vector.getElem_set, Nat.reduceEqDiff, ↓reduceIte,
    UInt8.toNat_ofNat']
  omega

theorem blockCount_setBlockCount (e : DEntry) {count : Nat} (h : count < 65536) :
    (e.setBlockCount count).blockCount = count := by
  simp only [setBlockCount, blockCount, Vector.getElem_set, Nat.reduceEqDiff, ↓reduceIte,
    UInt8.toNat_ofNat']
  omega

@[simp] theorem blockCount_setFirstBlock (e : DEntry) (block : Nat) :
    (e.setFirstBlock block).blockCount = e.blockCount := by
  simp [setFirstBlock, blockCount]

@[simp] theorem inUse_setFirstBlock (e : DEntry) (block : Nat) :
    (e.setFirstBlock block).inUse = e.inUse := by
  simp [setFirstBlock, inUse, gamecode]

@[simp] theorem firstBlock_incrementCopyCounter (e : DEntry) :
    e.incrementCopyCounter.firstBlock = e.firstBlock := by
  simp [incrementCopyCounter, firstBlock]

@[simp] theorem blockCount_incrementCopyCounter (e : DEntry) :
    e.incrementCopyCounter.blockCount = e.blockCount := by
  simp [incrementCopyCounter, blockCount]

@[simp] theorem inUse_incrementCopyCounter (e : DEntry) :
    e.incrementCopyCounter.inUse = e.inUse := by
  simp [incrementCopyCounter, inUse, gamecode]

theorem inUse_empty : empty.inUse = false := by decide +kernel

theorem firstBlock_empty : empty.firstBlock = 0xFFFF := by decide +kernel

theorem blockCount_empty : empty.blockCount = 0xFFFF := by decide +kernel

end DEntry

def Directory.entry (d : Directory) (index : Nat) : DEntry := d.dirEntries.toList.getD index .empty

@[simp] theorem Directory.entry_fixChecksums (d : Directory) (index : Nat) :
    d.fixChecksums.entry index = d.entry index := rfl

theorem Card.entry_eq (c : Card) (index : Nat) :
    c.entry index = c.directories.current.entry index := rfl

theorem insertEntry_eq (e : DEntry) (l : List DEntry) (h : l.countP DEntry.inUse < l.length) :
    ∃ k, k < l.length ∧ (l.getD k .empty).inUse = false ∧ insertEntry e l = l.set k e := by
  induction l with
  | nil => cases h
  | cons old rest ih =>
    cases hold : old.inUse with
    | false => exact ⟨0, Nat.succ_pos _, hold, by simp [insertEntry, hold]⟩
    | true =>
      rw [List.countP_cons_of_pos hold, List.length_cons] at h
      obtain ⟨k, hk, hfree, heq⟩ := ih (Nat.lt_of_succ_lt_succ h)
      refine ⟨k + 1, Nat.succ_lt_succ hk, ?_, ?_⟩
      · simpa using hfree
      · simp [insertEntry, hold, heq]

theorem getD_set {l : List DEntry} {k : Nat} (hk : k < l.length) (e : DEntry) (i : Nat) :
    (l.set k e).getD i .empty = if i = k then e else l.getD i .empty := by
  simp only [List.getD_eq_getElem?_getD, List.getElem?_set]
  by_cases h : i = k
  · rw [if_pos h.symm, if_pos h, if_pos hk]
    rfl
  · rw [if_neg (Ne.symm h), if_neg h]

theorem Directory.insert_entry (d : Directory) (e : DEntry)
    (h : d.dirEntries.toList.countP DEntry.inUse < dirlen) :
    ∃ k, k < dirlen ∧ (d.entry k).inUse = false ∧
      ∀ i, (d.insert e).entry i = if i = k then e else d.entry i := by
  have hlength : d.dirEntries.toList.length = dirlen := Vector.length_toList
  obtain ⟨k, hk, hfree, heq⟩ := insertEntry_eq e d.dirEntries.toList (hlength ▸ h)
  refine ⟨k, hlength ▸ hk, hfree, fun i => ?_⟩
  have hlist : (d.insert e).dirEntries.toList = d.dirEntries.toList.set k e := heq
  rw [entry, hlist, getD_set hk]
  rfl

theorem Directory.erase_entry (d : Directory) {index : Nat} (h : index < dirlen) (i : Nat) :
    (d.erase index).entry i = if i = index then .empty else d.entry i := by
  have hlength : d.dirEntries.toList.length = dirlen := Vector.length_toList
  have hlist : (d.erase index).dirEntries.toList = d.dirEntries.toList.set index .empty := by
    rw [erase, Vector.toList_setIfInBounds]
  rw [entry, hlist, getD_set (hlength ▸ h)]
  rfl

/-! ### Save files -/

theorem bind_eq_ok {ε α β : Type} {x : Except ε α} {f : α → Except ε β} {b : β}
    (h : (x >>= f) = .ok b) : ∃ a, x = .ok a ∧ f a = .ok b := by
  cases x with
  | error e => cases h
  | ok a => exact ⟨a, rfl, h⟩

theorem length_readBlocks {n : Nat} {file : List UInt8} {blocks : List Block}
    (h : readBlocks n file = .ok blocks) : blocks.length = n := by
  induction n generalizing file blocks with
  | zero =>
    cases h
    rfl
  | succ n ih =>
    unfold readBlocks at h
    obtain ⟨block, -, h⟩ := bind_eq_ok h
    obtain ⟨rest, hrest, h⟩ := bind_eq_ok h
    cases h
    rw [List.length_cons, ih hrest]

theorem blockCount_of_readSavefileGCI {file : List UInt8} {s : Savefile}
    (h : readSavefileGCI file = .ok s) : s.blocks.length = s.dirEntry.blockCount := by
  obtain ⟨e, -, h⟩ := bind_eq_ok h
  dsimp only at h
  split at h
  · cases h
  · obtain ⟨blocks, hblocks, h⟩ := bind_eq_ok h
    rw [← Except.ok.inj h]
    exact length_readBlocks hblocks

theorem blockCount_of_readSavefileSAV {file : List UInt8} {s : Savefile}
    (h : readSavefileSAV file = .ok s) : s.blocks.length = s.dirEntry.blockCount := by
  obtain ⟨header, -, h⟩ := bind_eq_ok h
  split at h
  · cases h
  · obtain ⟨e, -, h⟩ := bind_eq_ok h
    dsimp only at h
    split at h
    · cases h
    · obtain ⟨blocks, hblocks, h⟩ := bind_eq_ok h
      rw [← Except.ok.inj h]
      exact length_readBlocks hblocks

theorem blockCount_of_readSavefileGCS {file : List UInt8} {s : Savefile}
    (h : readSavefileGCS file = .ok s) : s.dirEntry.blockCount = s.blocks.length % 65536 := by
  obtain ⟨header, -, h⟩ := bind_eq_ok h
  split at h
  · cases h
  · split at h
    · cases h
    · obtain ⟨e, -, h⟩ := bind_eq_ok h
      obtain ⟨blocks, hblocks, h⟩ := bind_eq_ok h
      rw [← Except.ok.inj h]
      dsimp only
      rw [DEntry.blockCount_setBlockCount _ (Nat.mod_lt _ (by decide)), length_readBlocks hblocks]

theorem blockCount_le_of_readSavefile {file : List UInt8} {s : Savefile}
    (h : readSavefile file = .ok s) : s.dirEntry.blockCount ≤ s.blocks.length := by
  unfold readSavefile at h
  split at h
  · exact Nat.le_of_eq (blockCount_of_readSavefileGCI h).symm
  · split at h
    · rw [blockCount_of_readSavefileGCS h]
      exact Nat.mod_le _ _
    · split at h
      · exact Nat.le_of_eq (blockCount_of_readSavefileSAV h).symm
      · cases h

theorem length_fzerogxMakeSaveGameValid (header : Header) (e : DEntry) (blocks : List Block) :
    (fzerogxMakeSaveGameValid header e blocks).length = blocks.length := by
  unfold fzerogxMakeSaveGameValid
  split
  · rfl
  · split
    · simp only [List.length_cons, List.length_nil]
    · rfl

def Savefile.PsoBlocks (s : Savefile) : Prop := isPso s.dirEntry = true → 2 ≤ s.blocks.length

theorem psoMakeSaveGameValid_spec (header : Header) (e : DEntry) (blocks : List Block)
    (h : isPso e = true → 2 ≤ blocks.length) :
    ∃ blocks', psoMakeSaveGameValid header e blocks = .ok blocks' ∧
      blocks'.length = blocks.length := by
  unfold psoMakeSaveGameValid
  by_cases hpso : isPso e = true
  · rw [if_neg (not_not.2 hpso), fileBlock_eq (show 1 < blocks.length from h hpso)]
    exact ⟨_, rfl, List.length_set⟩
  · exact ⟨blocks, if_pos hpso, rfl⟩

/-! ### Cards -/

/-- A card of a valid size whose number of free blocks is right. -/
structure Sized (c : Card) : Prop where
  valid : c.valid = true
  megabits : c.sizeMb ∈ validMegabits
  sizeBlocks : c.sizeBlocks = c.sizeMb * mbitToBlocks
  dataBlocks : c.dataBlocks.length = c.sizeBlocks - 5
  free : c.bats.current.freeBlocks = (c.bats.current.freeSet c.sizeBlocks).card

theorem megabits_range {mb : Nat} (h : mb ∈ validMegabits) :
    5 ≤ mb * mbitToBlocks ∧ mb * mbitToBlocks ≤ 2048 := by
  simp only [validMegabits, List.mem_cons, List.not_mem_nil, or_false] at h
  unfold mbitToBlocks
  omega

theorem Sized.range {c : Card} (h : Sized c) : 5 ≤ c.sizeBlocks ∧ c.sizeBlocks ≤ 2048 := by
  rw [h.sizeBlocks]
  exact megabits_range h.megabits

theorem Sized.free_le {c : Card} (h : Sized c) : c.bats.current.freeBlocks ≤ 2048 := by
  rw [h.free]
  calc (c.bats.current.freeSet c.sizeBlocks).card
      ≤ (Finset.Ico 5 c.sizeBlocks).card := Finset.card_filter_le _ _
    _ = c.sizeBlocks - 5 := Nat.card_Ico _ _
    _ ≤ 2048 := by
      have hrange := h.range
      omega

/-- The checks of `ImportFile` before it writes anything. -/
def Accepted (c : Card) (s : Savefile) : Prop :=
  getNumFiles c < dirlen ∧ s.dirEntry.blockCount ≤ c.bats.current.freeBlocks ∧
    titlePresent c s.dirEntry = false ∧ c.bats.current.freeBlocks ≠ 0

def importedEntry (s : Savefile) (first : Nat) : DEntry :=
  (s.dirEntry.setFirstBlock first).incrementCopyCounter

/-- `c'` is `c` with the save at a chain of free blocks. -/
structure Imported (c : Card) (s : Savefile) (first : Nat) (chain : List Nat) (bat : BlockAlloc)
    (c' : Card) : Prop where
  valid : c'.valid = c.valid
  sizeBlocks : c'.sizeBlocks = c.sizeBlocks
  sizeMb : c'.sizeMb = c.sizeMb
  header : c'.header = c.header.fixChecksums
  dataBlocks : c'.dataBlocks.length = c.dataBlocks.length
  directories : c'.directories =
    (c.directories.update (c.directories.current.insert (importedEntry s first))).map
      Directory.fixChecksums
  bats : c'.bats = (c.bats.update bat).map BlockAlloc.fixChecksums
  counter : bat.updateCounter = nextCounter c.bats.current.updateCounter
  first_mem : first ∈ c.bats.current.freeSet c.sizeBlocks
  chain_mem : ∀ x ∈ chain, x ∈ c.bats.current.freeSet c.sizeBlocks
  length : chain.length = s.dirEntry.blockCount
  value : ∀ x, 5 ≤ x → x ∉ chain → bat.value x = c.bats.current.value x
  written : ∀ blocks, psoMakeSaveGameValid c.header s.dirEntry
      (fzerogxMakeSaveGameValid c.header s.dirEntry s.blocks) = .ok blocks →
    chain.map (blockAt c'.dataBlocks) = blocks.take s.dirEntry.blockCount
  kept : ∀ x, 5 ≤ x → x ∉ chain → blockAt c'.dataBlocks x = blockAt c.dataBlocks x
  chain : s.dirEntry.blockCount ≠ 0 → bat.Chain first chain 0xFFFF
  free : bat.freeBlocks + s.dirEntry.blockCount = c.bats.current.freeBlocks
  card : (bat.freeSet c.sizeBlocks).card + s.dirEntry.blockCount =
    (c.bats.current.freeSet c.sizeBlocks).card

theorem importAt_spec {c : Card} (h : Sized c) {s : Savefile} {first : Nat}
    (hblocks : s.dirEntry.blockCount ≤ s.blocks.length) (hpso : s.PsoBlocks)
    (haccepted : Accepted c s) (hfirst : first ∈ c.bats.current.freeSet c.sizeBlocks) :
    ∃ chain bat c', importAt c s first = .ok c' ∧ Imported c s first chain bat c' := by
  obtain ⟨-, hcount, -, hfree⟩ := haccepted
  have hfzero := length_fzerogxMakeSaveGameValid c.header s.dirEntry s.blocks
  obtain ⟨blocks, hpsoeq, hlength⟩ := psoMakeSaveGameValid_spec c.header s.dirEntry
    (fzerogxMakeSaveGameValid c.header s.dirEntry s.blocks) (fun h => by rw [hfzero]; exact hpso h)
  have hloop : ∃ m last data chain,
      importLoop c.sizeBlocks blocks s.dirEntry.blockCount 0 first c.bats.current c.dataBlocks =
        .ok ({ c.bats.current with map := m, lastAllocatedBlock := last }, data) ∧
      data.length = c.dataBlocks.length ∧ chain.length = s.dirEntry.blockCount ∧
      (∀ x ∈ chain, x ∈ c.bats.current.freeSet c.sizeBlocks) ∧
      (∀ x, 5 ≤ x → x ∉ chain →
        BlockAlloc.value { c.bats.current with map := m } x = c.bats.current.value x) ∧
      (s.dirEntry.blockCount ≠ 0 →
        BlockAlloc.Chain { c.bats.current with map := m } first chain 0xFFFF) ∧
      (BlockAlloc.freeSet { c.bats.current with map := m } c.sizeBlocks).card +
        s.dirEntry.blockCount = (c.bats.current.freeSet c.sizeBlocks).card ∧
      chain.map (blockAt data) = blocks.take s.dirEntry.blockCount ∧
      ∀ x, 5 ≤ x → x ∉ chain → blockAt data x = blockAt c.dataBlocks x := by
    by_cases hzero : s.dirEntry.blockCount = 0
    · rw [hzero]
      exact ⟨c.bats.current.map, c.bats.current.lastAllocatedBlock, c.dataBlocks, [], rfl, rfl, rfl,
        fun x hx => absurd hx List.not_mem_nil, fun x _ _ => rfl, fun hne => absurd rfl hne, rfl,
        rfl, fun x _ _ => rfl⟩
    · obtain ⟨m, last, data, chain, heq, hdata, hlen, hmem, hvalue, hchain, hcard, hwritten, hkept⟩ :=
        importLoop_spec h.range blocks s.dirEntry.blockCount 0 first c.bats.current c.dataBlocks
          (by rw [hlength, hfzero, Nat.zero_add]; exact hblocks) h.dataBlocks
          (fun hz => absurd hz hzero) (fun _ => hfirst) (h.free ▸ hcount) fun _ => hfree
      exact ⟨m, last, data, chain, heq, hdata, hlen, hmem, hvalue, fun _ => hchain, hcard, hwritten,
        hkept⟩
  obtain ⟨m, last, data, chain, heq, hdata, hlen, hmem, hvalue, hchain, hcard, hwritten, hkept⟩ :=
    hloop
  let bat : BlockAlloc :=
    { c.bats.current with
      map := m
      lastAllocatedBlock := last
      freeBlocks := (c.bats.current.freeBlocks + (65536 - s.dirEntry.blockCount)) % 65536
      updateCounter := nextCounter c.bats.current.updateCounter }
  refine ⟨chain, bat, Card.fixChecksums
    { c with
      directories := c.directories.update (c.directories.current.insert (importedEntry s first))
      bats := c.bats.update bat
      dataBlocks := data }, ?_, ⟨rfl, rfl, rfl, rfl, hdata, rfl, rfl, rfl, hfirst, hmem, hlen, hvalue,
    ?_, hkept, hchain, ?_, hcard⟩⟩
  · simp only [importAt, hpsoeq, heq, bind, Except.bind]
    rfl
  · intro blocks' hblocks'
    obtain rfl := Except.ok.inj (hpsoeq.symm.trans hblocks')
    exact hwritten
  · have hle := h.free_le
    dsimp only [bat]
    omega

theorem importFile_spec {c : Card} (h : Sized c) {s : Savefile}
    (hblocks : s.dirEntry.blockCount ≤ s.blocks.length) (hpso : Accepted c s → s.PsoBlocks) :
    (¬Accepted c s ∧ ∃ r, r ≠ .success ∧ importFile c s = .ok (r, c)) ∨
    (Accepted c s ∧ ∃ first chain bat c', importFile c s = .ok (.success, c') ∧
      Imported c s first chain bat c') := by
  unfold importFile
  rw [if_neg (not_not.2 h.valid)]
  by_cases hfiles : dirlen ≤ getNumFiles c
  · exact .inl ⟨fun haccepted => absurd haccepted.1 (Nat.not_lt.2 hfiles), .outOfDirEntries,
      by decide, if_pos hfiles⟩
  rw [if_neg hfiles]
  by_cases hcount : c.bats.current.freeBlocks < s.dirEntry.blockCount
  · exact .inl ⟨fun haccepted => absurd haccepted.2.1 (Nat.not_le.2 hcount), .outOfBlocks,
      by decide, if_pos hcount⟩
  rw [if_neg hcount]
  cases htitle : titlePresent c s.dirEntry with
  | true =>
    refine .inl ⟨fun haccepted => ?_, .titlePresent, by decide, rfl⟩
    have hnone := haccepted.2.2.1
    rw [htitle] at hnone
    cases hnone
  | false =>
    rw [if_neg Bool.false_ne_true]
    by_cases hfree : c.bats.current.freeBlocks = 0
    · refine .inl ⟨fun haccepted => haccepted.2.2.2 hfree, .outOfBlocks, by decide, ?_⟩
      have hnone : c.bats.current.nextFreeBlock c.sizeBlocks c.bats.current.lastAllocatedBlock =
          .ok 0xFFFF := if_pos hfree
      simp only [hnone, bind, Except.bind]
      rfl
    · have haccepted : Accepted c s := ⟨Nat.not_le.1 hfiles, Nat.not_lt.1 hcount, htitle, hfree⟩
      have hnonempty : (c.bats.current.freeSet c.sizeBlocks).Nonempty := by
        rw [← Finset.card_pos, ← h.free]
        omega
      have hrange := h.range
      obtain ⟨first, hfirst, hnext, -⟩ := c.bats.current.nextFreeBlock_spec
        c.bats.current.lastAllocatedBlock ⟨hrange.1, by omega⟩ hfree hnonempty
      obtain ⟨chain, bat, c', himport, himported⟩ :=
        importAt_spec h hblocks (hpso haccepted) haccepted hfirst
      refine .inr ⟨haccepted, first, chain, bat, c', ?_, himported⟩
      have hne : first ≠ 0xFFFF := by
        have hlt := (BlockAlloc.mem_freeSet.1 hfirst).1.2
        omega
      simp only [hnext, bind, Except.bind, if_neg hne, himport]

/-- `c'` is `c` without the file at an index, whose blocks are free again. -/
structure Removed (c : Card) (index : Nat) (l : List Nat) (bat : BlockAlloc) (c' : Card) : Prop where
  valid : c'.valid = c.valid
  sizeBlocks : c'.sizeBlocks = c.sizeBlocks
  sizeMb : c'.sizeMb = c.sizeMb
  header : c'.header = c.header.fixChecksums
  dataBlocks : c'.dataBlocks = c.dataBlocks
  directories : c'.directories =
    (c.directories.update (c.directories.current.erase index)).map Directory.fixChecksums
  bats : c'.bats = (c.bats.update bat).map BlockAlloc.fixChecksums
  counter : bat.updateCounter = nextCounter c.bats.current.updateCounter
  value : ∀ x, 5 ≤ x → bat.value x = if x ∈ l then 0 else c.bats.current.value x
  free : bat.freeBlocks = c.bats.current.freeBlocks + l.length
  card : (bat.freeSet c.sizeBlocks).card =
    (c.bats.current.freeSet c.sizeBlocks).card + l.length

/-- The chain of an entry has as many blocks as the entry counts and ends with 0xFFFF. -/
def Removable (e : DEntry) (l : List Nat) (last : Nat) : Prop := last = 0xFFFF ∧ l.length = e.blockCount

theorem removeFile_spec {c : Card} (h : Sized c) {index : Nat} (hindex : index < dirlen)
    {l : List Nat} {last : Nat} (hchain : c.bats.current.Chain (c.entry index).firstBlock l last)
    (hcard : Removable (c.entry index) l last → ∀ x ∈ l, 5 ≤ x ∧ x < c.sizeBlocks) {fuel : Nat}
    (hfuel : l.length < fuel) :
    (¬Removable (c.entry index) l last ∧ removeFile c fuel index = .ok (.deleteFail, c)) ∨
    (Removable (c.entry index) l last ∧ ∃ bat c', removeFile c fuel index = .ok (.success, c') ∧
      Removed c index l bat c') := by
  have hrange := h.range
  have hclear := BlockAlloc.clearBlocks_spec (show c.sizeBlocks ≤ 4096 by omega) hchain
    (fun hlast hlength => hcard ⟨hlast, hlength⟩) hfuel
  unfold removeFile
  rw [if_neg (not_not.2 h.valid), if_neg (Nat.not_le.2 hindex)]
  rcases hclear with ⟨hnot, heq⟩ | ⟨hlast, hlength, m, heq, hvalue, hcount⟩
  · refine .inl ⟨hnot, ?_⟩
    simp only [heq, bind, Except.bind]
  · let bat : BlockAlloc :=
      { c.bats.current with
        map := m
        freeBlocks := (c.bats.current.freeBlocks + (c.entry index).blockCount) % 65536
        updateCounter := nextCounter c.bats.current.updateCounter }
    refine .inr ⟨⟨hlast, hlength⟩, bat, Card.fixChecksums
      { c with
        bats := c.bats.update bat
        directories := c.directories.update (c.directories.current.erase index) }, ?_,
      ⟨rfl, rfl, rfl, rfl, rfl, rfl, rfl, rfl, hvalue, ?_, hlength ▸ hcount⟩⟩
    · simp only [heq, bind, Except.bind]
      rfl
    · have hle := h.free_le
      have hnew : (BlockAlloc.freeSet { c.bats.current with map := m } c.sizeBlocks).card ≤ 2048 := by
        refine (Finset.card_filter_le _ _).trans ?_
        rw [Nat.card_Ico]
        omega
      have hfree := h.free
      rw [hcount] at hnew
      rw [hlength]
      dsimp only [bat]
      omega

end DolphinXR.GCMemcard
