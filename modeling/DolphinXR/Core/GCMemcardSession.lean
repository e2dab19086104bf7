import DolphinXR.Core.GCMemcardOpening

/- A memory card in use: it is formatted, saves are imported and removed, and it is saved and
   opened again. A save is `Importable` if it counts no blocks exactly where its game code is
   that of an entry not in use, and a PSO system file has the block with the number of its
   card; the checks of `ImportFile` require neither. A session of such imports keeps the card
   `Consistent`. -/
namespace DolphinXR.GCMemcard
open Lib

/-- The card and the file it is saved to, and how often the directory has been updated. -/
structure Session where
  card : Card
  file : Image
  updates : Nat

inductive Action where
  | importFile (bytes : List UInt8)
  | removeFile (index : Nat)
  | save
  | reopen

def chainFuel : Nat := 4096

def step (s : Session) : Action → Option Session
  | .importFile bytes =>
    match readSavefile bytes with
    | .error _ => some s
    | .ok file =>
      match importFile s.card file with
      | .ok (.success, card) => some { s with card, updates := s.updates + 1 }
      | .ok (_, card) => some { s with card }
      | .error _ => none
  | .removeFile index =>
    match removeFile s.card chainFuel index with
    | .ok (.success, card) => some { s with card, updates := s.updates + 1 }
    | .ok (_, card) => some { s with card }
    | .error _ => none
  | .save => some { s with file := save s.card }
  | .reopen => (openCard s.file).2.map fun card => { s with card }

/-- `Format` saves the card, too. -/
def formatted (f : FormatInput) : Session := ⟨formatCard f, save (formatCard f), 0⟩

def sessions : System Session Action where
  init s := ∃ f : FormatInput, f.sizeMbits ∈ validMegabits ∧ s = formatted f
  step := step

/-- A save whose entry counts no blocks exactly if it is not in use, and that has the block that is
    changed in a PSO system file. -/
def Savefile.Fits (s : Savefile) : Prop :=
  (s.dirEntry.blockCount = 0 ↔ s.dirEntry.inUse = false) ∧ s.PsoBlocks

/-- The saves that pass the checks of `ImportFile` fit. -/
def Importable (s : Session) : Action → Prop
  | .importFile bytes => ∀ file, readSavefile bytes = .ok file → Accepted s.card file → file.Fits
  | _ => True

/-! ### The invariant -/

/-- A card after at most `n` updates. -/
structure Stored (c : Card) (n : Nat) : Prop where
  opened : Opened c
  directoryCounted : c.directories.Counted Directory.updateCounter n
  batCounted : c.bats.Counted BlockAlloc.updateCounter n
  linked : ∃ chains, Linked c.directories.current c.bats.current c.sizeBlocks chains

theorem Opened.sized {c : Card} (h : Opened c) : Sized c :=
  ⟨h.valid, h.megabits, h.sizeBlocks, h.dataBlocks, h.bats.current.2⟩

theorem Linked.chainsMatch {d : Directory} {b : BlockAlloc} {size : Nat} {chains : Nat → List Nat}
    (h : Linked d b size chains) : ChainsMatch d b := fun i hi huse =>
  ⟨chains i, h.chain i hi huse, h.length i hi huse, h.count i hi huse⟩

theorem Linked.fixChecksums {d : Directory} {b : BlockAlloc} {size : Nat} {chains : Nat → List Nat}
    (h : Linked d b size chains) : Linked d.fixChecksums b.fixChecksums size chains :=
  ⟨h.chain, h.length, h.count, h.card, h.disjoint, h.covered, h.spare⟩

theorem Stored.mono {c : Card} {n k : Nat} (h : Stored c n) (hle : n ≤ k) : Stored c k :=
  ⟨h.opened, h.directoryCounted.mono hle, h.batCounted.mono hle, h.linked⟩

theorem Stored.openCard_save {c : Card} {n : Nat} (h : Stored c n) :
    (openCard (save c)).2 = some c := by
  have hactive : ∀ {α : Type} {counter : α → Int} {t : TwoCopies α}, t.Counted counter n →
      t.active = decide (counter t.block0 < counter t.block1) := by
    intro α counter t ht
    rw [Bool.eq_iff_iff, decide_eq_true_iff]
    exact ht.order
  exact GCMemcard.openCard_save h.opened (hactive h.directoryCounted) (hactive h.batCounted)

theorem Stored.consistent {c : Card} {n : Nat} (h : Stored c n) : Consistent c := by
  obtain ⟨chains, hlinked⟩ := h.linked
  refine ⟨fun i hi huse => ?_, fun i hi j hj hne huse huse' l l' hl hl' x hx hx' => ?_,
    fun x hfive hlt hused => ?_, h.opened.bats.current.2, h.opened.directories.current,
    h.opened.bats.current.1, h.openCard_save⟩
  · have hchain := hlinked.chain i hi huse
    exact ⟨chains i, hchain, hlinked.length i hi huse, hchain.nodup, hlinked.card i hi huse⟩
  · rw [((hlinked.chain i hi huse).unique hl).1.symm] at hx
    rw [((hlinked.chain j hj huse').unique hl').1.symm] at hx'
    exact hlinked.disjoint i hi j hj hne huse huse' x hx hx'
  · obtain ⟨i, hi, huse, hmem⟩ := hlinked.covered x hfive hlt hused
    exact ⟨i, hi, huse, chains i, hlinked.chain i hi huse, hmem⟩

theorem right_fixChecksums {b : BlockAlloc} {size : Nat} (h : b.freeBlocks = (b.freeSet size).card) :
    b.fixChecksums.Right size := ⟨rfl, h⟩

theorem Header.right_fixChecksums {h : Header} {mb : Nat} (hsize : h.sizeMb = mb) :
    h.fixChecksums.Right mb := ⟨hsize, rfl⟩

/-! ### Importing -/

@[simp] theorem firstBlock_importedEntry (s : Savefile) {first : Nat} (h : first < 65536) :
    (importedEntry s first).firstBlock = first := by
  rw [importedEntry, DEntry.firstBlock_incrementCopyCounter, DEntry.firstBlock_setFirstBlock _ h]

@[simp] theorem blockCount_importedEntry (s : Savefile) (first : Nat) :
    (importedEntry s first).blockCount = s.dirEntry.blockCount := by
  rw [importedEntry, DEntry.blockCount_incrementCopyCounter, DEntry.blockCount_setFirstBlock]

@[simp] theorem inUse_importedEntry (s : Savefile) (first : Nat) :
    (importedEntry s first).inUse = s.dirEntry.inUse := by
  rw [importedEntry, DEntry.inUse_incrementCopyCounter, DEntry.inUse_setFirstBlock]

theorem Accepted.room {c : Card} {s : Savefile} (hvalid : c.valid = true) (h : Accepted c s) :
    c.directories.current.dirEntries.toList.countP DEntry.inUse < dirlen := by
  have hfiles := h.1
  rwa [getNumFiles, if_pos hvalid] at hfiles

theorem Imported.current {c c' : Card} {s : Savefile} {first : Nat} {chain : List Nat}
    {bat : BlockAlloc} (h : Imported c s first chain bat c') :
    c'.directories.current =
      (c.directories.current.insert (importedEntry s first)).fixChecksums ∧
    c'.bats.current = bat.fixChecksums := by
  rw [h.directories, h.bats]
  simp only [TwoCopies.current_map, TwoCopies.current_update, and_self]

theorem Imported.exists_entry {c c' : Card} {s : Savefile} {first : Nat} {chain : List Nat}
    {bat : BlockAlloc} (h : Imported c s first chain bat c') (hvalid : c.valid = true)
    (haccepted : Accepted c s) : ∃ k < dirlen, (c.entry k).inUse = false ∧
      ∀ i, c'.entry i = if i = k then importedEntry s first else c.entry i := by
  obtain ⟨k, hk, hspare, hentry⟩ := c.directories.current.insert_entry (importedEntry s first)
    (haccepted.room hvalid)
  refine ⟨k, hk, hspare, fun i => ?_⟩
  rw [Card.entry_eq, h.current.1, Directory.entry_fixChecksums, hentry]
  rfl

theorem Sized.imported {c c' : Card} (h : Sized c) {s : Savefile} {first : Nat} {chain : List Nat}
    {bat : BlockAlloc} (himported : Imported c s first chain bat c') : Sized c' := by
  refine ⟨?_, ?_, ?_, ?_, ?_⟩
  · rw [himported.valid, h.valid]
  · rw [himported.sizeMb]
    exact h.megabits
  · rw [himported.sizeBlocks, himported.sizeMb, h.sizeBlocks]
  · rw [himported.dataBlocks, himported.sizeBlocks, h.dataBlocks]
  · have hbefore := h.free
    have hcount := himported.free
    have hcard := himported.card
    rw [himported.current.2, himported.sizeBlocks]
    have hfree : bat.freeBlocks = (bat.freeSet c.sizeBlocks).card := by omega
    exact hfree

theorem Stored.imported {c c' : Card} {n : Nat} (h : Stored c n) (hn : n < 32767) {s : Savefile}
    {first : Nat} {chain : List Nat} {bat : BlockAlloc} (haccepted : Accepted c s) (hfits : s.Fits)
    (himported : Imported c s first chain bat c') : Stored c' (n + 1) := by
  obtain ⟨chains, hlinked⟩ := h.linked
  obtain ⟨k, hk, hspare, hentry⟩ := c.directories.current.insert_entry (importedEntry s first)
    (haccepted.room h.opened.valid)
  obtain ⟨hrange, -⟩ := BlockAlloc.mem_freeSet.1 himported.first_mem
  have hsize := h.opened.sized.range
  have hfirst := firstBlock_importedEntry s (show first < 65536 by omega)
  obtain ⟨hdirectory, hbat⟩ := himported.current
  have hnew : Linked c'.directories.current c'.bats.current c'.sizeBlocks
      (Function.update chains k chain) := by
    rw [hdirectory, hbat, himported.sizeBlocks]
    refine (hlinked.insert hspare hentry himported.chain_mem himported.value ?_ hk
      (fun huse => ?_) fun huse => ?_).fixChecksums
    · rw [blockCount_importedEntry, himported.length]
    · rw [inUse_importedEntry] at huse
      have hcount : s.dirEntry.blockCount ≠ 0 := by
        intro hzero
        rw [hfits.1.1 hzero] at huse
        cases huse
      rw [blockCount_importedEntry, hfirst]
      exact ⟨hcount, himported.chain hcount⟩
    · rw [inUse_importedEntry] at huse
      have hcount := hfits.1.2 huse
      rw [blockCount_importedEntry, Spare, blockCount_importedEntry, hfirst]
      exact ⟨.inr ⟨hcount, hrange.1, by omega⟩, hcount⟩
  have hsized := h.opened.sized.imported himported
  have hfree : bat.freeBlocks = (bat.freeSet c.sizeBlocks).card := by
    have hnewfree := hsized.free
    rw [hbat, himported.sizeBlocks] at hnewfree
    exact hnewfree
  refine ⟨⟨hsized.valid, hsized.megabits, hsized.sizeBlocks, hsized.dataBlocks, ?_, ?_, ?_,
    hnew.chainsMatch⟩, ?_, ?_, _, hnew⟩
  · rw [himported.header, himported.sizeMb]
    exact Header.right_fixChecksums h.opened.header.1
  · rw [himported.directories]
    exact TwoCopies.all_map _ fun _ => rfl
  · rw [himported.bats, himported.sizeBlocks]
    have hall : c.bats.All fun b => b.freeBlocks = (b.freeSet c.sizeBlocks).card :=
      ⟨h.opened.bats.1.2, h.opened.bats.2.2⟩
    exact (hall.update hfree).map fun b => right_fixChecksums
  · rw [himported.directories]
    exact (h.directoryCounted.update hn rfl).map fun _ => rfl
  · rw [himported.bats]
    exact (h.batCounted.update hn himported.counter).map fun _ => rfl

theorem Removed.current {c c' : Card} {index : Nat} {l : List Nat} {bat : BlockAlloc}
    (h : Removed c index l bat c') :
    c'.directories.current = (c.directories.current.erase index).fixChecksums ∧
    c'.bats.current = bat.fixChecksums := by
  rw [h.directories, h.bats]
  simp only [TwoCopies.current_map, TwoCopies.current_update, and_self]

theorem Removed.entry {c c' : Card} {index : Nat} {l : List Nat} {bat : BlockAlloc}
    (h : Removed c index l bat c') (hindex : index < dirlen) (i : Nat) :
    c'.entry i = if i = index then .empty else c.entry i := by
  rw [Card.entry_eq, h.current.1, Directory.entry_fixChecksums,
    c.directories.current.erase_entry hindex]
  rfl

theorem Sized.removed {c c' : Card} (h : Sized c) {index : Nat} {freed : List Nat}
    {bat : BlockAlloc} (hremoved : Removed c index freed bat c') : Sized c' := by
  refine ⟨?_, ?_, ?_, ?_, ?_⟩
  · rw [hremoved.valid, h.valid]
  · rw [hremoved.sizeMb]
    exact h.megabits
  · rw [hremoved.sizeBlocks, hremoved.sizeMb, h.sizeBlocks]
  · rw [hremoved.dataBlocks, hremoved.sizeBlocks, h.dataBlocks]
  · rw [hremoved.current.2, hremoved.sizeBlocks]
    have hfree : bat.freeBlocks = (bat.freeSet c.sizeBlocks).card := by
      rw [hremoved.free, hremoved.card, h.free]
    exact hfree

theorem Stored.removed {c c' : Card} {n : Nat} (h : Stored c n) (hn : n < 32767) {index : Nat}
    (hindex : index < dirlen) {l : List Nat} {last : Nat}
    (hchain : c.bats.current.Chain (c.entry index).firstBlock l last)
    (hremovable : Removable (c.entry index) l last) {bat : BlockAlloc}
    (hremoved : Removed c index l bat c') : Stored c' (n + 1) := by
  obtain ⟨chains, hlinked⟩ := h.linked
  have huse : (c.entry index).inUse = true := by
    cases huse : (c.entry index).inUse with
    | true => rfl
    | false =>
      exact absurd hremovable (Linked.not_removable_of_spare (hlinked.spare index hindex huse) hchain)
  have hl : l = chains index := (hchain.unique (hlinked.chain index hindex huse)).1
  subst hl
  obtain ⟨hdirectory, hbat⟩ := hremoved.current
  have hnew : Linked c'.directories.current c'.bats.current c'.sizeBlocks chains := by
    rw [hdirectory, hbat, hremoved.sizeBlocks]
    exact (hlinked.erase hindex huse (c.directories.current.erase_entry hindex)
      hremoved.value).fixChecksums
  have hsized := h.opened.sized.removed hremoved
  have hfree : bat.freeBlocks = (bat.freeSet c.sizeBlocks).card := by
    have hnewfree := hsized.free
    rw [hbat, hremoved.sizeBlocks] at hnewfree
    exact hnewfree
  refine ⟨⟨hsized.valid, hsized.megabits, hsized.sizeBlocks, hsized.dataBlocks, ?_, ?_, ?_,
    hnew.chainsMatch⟩, ?_, ?_, _, hnew⟩
  · rw [hremoved.header, hremoved.sizeMb]
    exact Header.right_fixChecksums h.opened.header.1
  · rw [hremoved.directories]
    exact TwoCopies.all_map _ fun _ => rfl
  · rw [hremoved.bats, hremoved.sizeBlocks]
    have hall : c.bats.All fun b => b.freeBlocks = (b.freeSet c.sizeBlocks).card :=
      ⟨h.opened.bats.1.2, h.opened.bats.2.2⟩
    exact (hall.update hfree).map fun b => right_fixChecksums
  · rw [hremoved.directories]
    exact (h.directoryCounted.update hn rfl).map fun _ => rfl
  · rw [hremoved.bats]
    exact (h.batCounted.update hn hremoved.counter).map fun _ => rfl

/-! ### Formatting -/

theorem length_formatSerial (flashId : List UInt8) (rand : Nat) :
    (formatSerial flashId rand).length = flashId.length := by
  induction flashId generalizing rand with
  | nil => rfl
  | cons id rest ih =>
    rw [formatSerial, List.length_cons, ih, List.length_cons]

theorem sizeMb_initializeHeaderData (f : FormatInput) (hsize : f.sizeMbits ∈ validMegabits) :
    (Header.mk (initializeHeaderData f) (Vector.replicate 468 0xFF) (Vector.replicate 2 0xFF) 0 0
      (Vector.replicate 7680 0xFF)).sizeMb = f.sizeMbits := by
  have hserial : (formatSerial f.flashId.toList f.formatTime).length = 12 := by
    rw [length_formatSerial, Vector.length_toList]
  simp only [Header.sizeMb, initializeHeaderData, Vector.getElem_ofFn]
  generalize formatSerial f.flashId.toList f.formatTime = serial at hserial
  have hbefore : (serial ++ be 8 f.formatTime ++ (be 4 f.rtcBias).reverse ++ be 4 f.sramLanguage ++
      be 4 0 ++ be 2 0).length = 34 := by
    simp [hserial]
  rw [List.append_assoc _ (be 2 f.sizeMbits)]
  generalize serial ++ be 8 f.formatTime ++ (be 4 f.rtcBias).reverse ++ be 4 f.sramLanguage ++
      be 4 0 ++ be 2 0 = before at hbefore
  have hat : ∀ k < 2, (before ++ (be 2 f.sizeMbits ++ be 2 (if f.shiftJis = true then 1 else 0))).getD
      (34 + k) 0 = (be 2 f.sizeMbits).getD k 0 := by
    intro k hk
    rw [List.getD_eq_getElem?_getD, List.getD_eq_getElem?_getD,
      List.getElem?_append_right (by omega), hbefore, Nat.add_sub_cancel_left,
      List.getElem?_append_left (by simpa using hk)]
  rw [hat 0 (by decide), hat 1 (by decide)]
  simp only [validMegabits, List.mem_cons, List.not_mem_nil, or_false] at hsize
  rcases hsize with h | h | h | h | h | h
  all_goals
    rw [h]
    rfl

theorem entry_empty (i : Nat) : Directory.empty.entry i = .empty := by
  rw [Directory.entry, Directory.empty, Vector.toList_replicate, List.getD_eq_getElem?_getD,
    List.getElem?_replicate]
  split
  · rfl
  · rfl

theorem value_empty (mb x : Nat) : (BlockAlloc.empty mb).value x = 0 := by
  rw [BlockAlloc.value, BlockAlloc.empty, BlockAlloc.fixChecksums]
  dsimp only
  rw [Vector.toList_replicate, List.getD_eq_getElem?_getD, List.getElem?_replicate]
  split
  · rfl
  · rfl

theorem right_empty (mb : Nat) : (BlockAlloc.empty mb).Right (mb * mbitToBlocks) := by
  have hall : (BlockAlloc.empty mb).freeSet (mb * mbitToBlocks) = Finset.Ico 5 (mb * mbitToBlocks) :=
    Finset.filter_true_of_mem fun x _ => value_empty mb x
  have hfree : (BlockAlloc.empty mb).freeBlocks =
      ((BlockAlloc.empty mb).freeSet (mb * mbitToBlocks)).card := by
    rw [hall, Nat.card_Ico, BlockAlloc.empty, BlockAlloc.fixChecksums, mcFstBlocks]
  rw [BlockAlloc.empty] at hfree ⊢
  exact right_fixChecksums hfree

theorem words_ffff (n : Nat) : words (List.replicate (2 * n) 0xFF) = List.replicate n 0xFFFF := by
  induction n with
  | zero => rfl
  | succ n ih => rw [Nat.mul_succ, List.replicate_succ, List.replicate_succ, words, ih]; rfl

theorem foldl_sum_replicate (f : Nat → Nat) (n d csum : Nat) (h : csum < 65536) :
    (List.replicate n d).foldl (fun csum d => (csum + f d) % 65536) csum =
      (csum + n * f d) % 65536 := by
  induction n generalizing csum with
  | zero => rw [Nat.zero_mul, Nat.add_zero, Nat.mod_eq_of_lt h]; rfl
  | succ n ih =>
    rw [List.replicate_succ, List.foldl_cons, ih _ (Nat.mod_lt _ (by decide)), Nat.mod_add_mod,
      Nat.add_assoc, Nat.succ_mul, Nat.add_comm (f d)]

theorem Directory.right_empty : Directory.empty.Right := by
  have hbytes : Directory.empty.dirEntries.toList.flatMap (·.toList) ++
      Directory.empty.padding.toList = List.replicate (2 * 4093) 0xFF := by
    rw [Directory.empty, Vector.toList_replicate, Vector.toList_replicate, List.flatMap_replicate,
      DEntry.empty, Vector.toList_replicate, List.flatten_replicate_replicate,
      List.replicate_append_replicate]
  rw [Right, calculateChecksums, hbytes, words_ffff, calculateMemcardChecksums, List.foldl_append,
    List.foldl_append, foldl_sum_replicate (fun d => d) _ _ _ (by decide),
    foldl_sum_replicate (· ^^^ 0xFFFF) _ _ _ (by decide)]
  decide +kernel

theorem linked_empty (mb : Nat) : Linked .empty (.empty mb) (mb * mbitToBlocks) fun _ => [] := by
  have hnone : ∀ i, (Directory.empty.entry i).inUse ≠ true := by
    intro i huse
    rw [entry_empty, DEntry.inUse_empty] at huse
    cases huse
  refine ⟨fun i _ huse => absurd huse (hnone i), fun i _ huse => absurd huse (hnone i),
    fun i _ huse => absurd huse (hnone i), fun i _ huse => absurd huse (hnone i),
    fun i _ _ _ _ huse => absurd huse (hnone i), fun x _ _ hused => absurd (value_empty mb x) hused,
    fun i _ _ => ?_⟩
  rw [entry_empty]
  exact Linked.spare_empty

theorem stored_formatCard {f : FormatInput} (hsize : f.sizeMbits ∈ validMegabits) :
    Stored (formatCard f) 0 := by
  have hlinked := linked_empty f.sizeMbits
  refine ⟨⟨rfl, hsize, rfl, List.length_replicate,
    Header.right_fixChecksums (sizeMb_initializeHeaderData f hsize),
    ⟨Directory.right_empty, Directory.right_empty⟩, ⟨right_empty _, right_empty _⟩,
    hlinked.chainsMatch⟩, ?_, ?_, _, hlinked⟩
  · exact ⟨iff_of_false Bool.false_ne_true (Int.lt_irrefl _), Int.le_refl _, Int.le_refl _⟩
  · exact ⟨iff_of_false Bool.false_ne_true (Int.lt_irrefl _), Int.le_refl _, Int.le_refl _⟩

/-! ### Sessions -/

def Held (s : Session) : Prop :=
  Stored s.card s.updates ∧ ∃ c, s.file = save c ∧ Stored c s.updates

theorem step_spec {s : Session} (h : Held s) (hn : s.updates < 32767) {a : Action}
    (hok : Importable s a) : ∃ s', step s a = some s' ∧ Held s' := by
  obtain ⟨hcard, c, hfile, hc⟩ := h
  cases a with
  | importFile bytes =>
    cases hread : readSavefile bytes with
    | error e =>
      refine ⟨s, ?_, hcard, c, hfile, hc⟩
      simp only [step, hread]
    | ok file =>
      have hfits := hok file hread
      rcases importFile_spec hcard.opened.sized (blockCount_le_of_readSavefile hread)
        (fun haccepted => (hfits haccepted).2) with
        ⟨-, r, hr, heq⟩ | ⟨haccepted, first, chain, bat, c', heq, himported⟩
      · refine ⟨s, ?_, hcard, c, hfile, hc⟩
        cases r with
        | success => exact absurd rfl hr
        | _ => simp only [step, hread, heq]
      · refine ⟨{ s with card := c', updates := s.updates + 1 }, ?_,
          hcard.imported hn haccepted (hfits haccepted) himported, c, hfile, hc.mono (Nat.le_succ _)⟩
        simp only [step, hread, heq]
  | removeFile index =>
    by_cases hindex : index < dirlen
    · obtain ⟨chains, hlinked⟩ := hcard.linked
      obtain ⟨l, last, hchain, hlength⟩ := hlinked.exists_chain (s.card.entry index).firstBlock
      have hrange := hcard.opened.sized.range
      have hon : Removable (s.card.entry index) l last → ∀ x ∈ l, 5 ≤ x ∧ x < s.card.sizeBlocks := by
        intro hremovable
        cases huse : (s.card.entry index).inUse with
        | true =>
          rw [(hchain.unique (hlinked.chain index hindex huse)).1]
          exact hlinked.card index hindex huse
        | false =>
          exact absurd hremovable
            (Linked.not_removable_of_spare (hlinked.spare index hindex huse) hchain)
      rcases removeFile_spec hcard.opened.sized hindex hchain hon
        (show l.length < chainFuel by unfold chainFuel; omega) with
        ⟨-, heq⟩ | ⟨hremovable, bat, c', heq, hremoved⟩
      · refine ⟨s, ?_, hcard, c, hfile, hc⟩
        simp only [step, heq]
      · refine ⟨{ s with card := c', updates := s.updates + 1 }, ?_,
          hcard.removed hn hindex hchain hremovable hremoved, c, hfile, hc.mono (Nat.le_succ _)⟩
        simp only [step, heq]
    · have heq : removeFile s.card chainFuel index = .ok (.deleteFail, s.card) := by
        unfold removeFile
        rw [if_neg (not_not.2 hcard.opened.valid), if_pos (Nat.not_lt.1 hindex)]
      refine ⟨s, ?_, hcard, c, hfile, hc⟩
      simp only [step, heq]
  | save => exact ⟨{ s with file := save s.card }, rfl, hcard, s.card, rfl, hcard⟩
  | reopen =>
    refine ⟨{ s with card := c }, ?_, hc, c, hfile, hc⟩
    simp only [step, hfile, hc.openCard_save, Option.map_some]

theorem updates_le {s s' : Session} {a : Action} (h : step s a = some s') :
    s.updates ≤ s'.updates := by
  unfold step at h
  split at h
  · split at h
    · rw [← Option.some.inj h]
    · split at h
      · rw [← Option.some.inj h]
        exact Nat.le_succ _
      · rw [← Option.some.inj h]
      · cases h
  · split at h
    · rw [← Option.some.inj h]
      exact Nat.le_succ _
    · rw [← Option.some.inj h]
    · cases h
  · rw [← Option.some.inj h]
  · obtain ⟨c, -, hs⟩ := Option.map_eq_some_iff.1 h
    rw [← hs]

theorem held_of_reachable {s : Session} (h : sessions.ReachableBy Importable s)
    (hn : s.updates < 32767) : Held s := by
  refine h.invariant (P := fun s => s.updates < 32767 → Held s) ?_ ?_ hn
  · rintro s ⟨f, hsize, rfl⟩ -
    have hstored := stored_formatCard hsize
    exact ⟨hstored, formatCard f, rfl, hstored⟩
  · intro s a s' hs hok hstep hn'
    have hn := Nat.lt_of_le_of_lt (updates_le hstep) hn'
    obtain ⟨t, ht, hheld⟩ := step_spec (hs hn) hn hok
    rwa [Option.some.inj (hstep.symm.trans ht)]

/-- The card is consistent after every session of imports that fit, removals, saves and reopenings,
    and each next one of these is carried out. -/
theorem session_consistent {s : Session} (h : sessions.ReachableBy Importable s)
    (hupdates : s.updates < 32767) :
    Consistent s.card ∧ ∀ a, Importable s a → ∃ s', step s a = some s' := by
  have hheld := held_of_reachable h hupdates
  refine ⟨hheld.1.consistent, fun a hok => ?_⟩
  obtain ⟨s', hstep, -⟩ := step_spec hheld hupdates hok
  exact ⟨s', hstep⟩

/-- A card of 59 blocks. -/
def card59 : FormatInput := ⟨Vector.replicate 12 0, 4, false, 0, 0, 0⟩

def gciFile (byte blocks : UInt8) : List UInt8 :=
  List.replicate 4 byte ++ List.replicate 53 0 ++ [blocks] ++ List.replicate 6 0 ++
    List.replicate (blocks.toNat * 0x2000) byte

def twoSaves : List Action :=
  [.importFile (gciFile 0x30 1), .importFile (gciFile 0x31 2), .save, .removeFile 0]

theorem fits_gciFile {byte blocks : UInt8} (h : byte = 0x30 ∧ blocks = 1 ∨ byte = 0x31 ∧ blocks = 2)
    {file : Savefile} (hread : readSavefile (gciFile byte blocks) = .ok file) : file.Fits := by
  have hfile : ((readSavefile (gciFile byte blocks)).toOption.all fun file =>
      file.dirEntry.inUse && file.dirEntry.blockCount != 0 && !isPso file.dirEntry) = true := by
    rcases h with ⟨rfl, rfl⟩ | ⟨rfl, rfl⟩
    all_goals decide +kernel
  rw [hread] at hfile
  simp only [Except.toOption, Option.all_some, Bool.and_eq_true, Bool.not_eq_true',
    bne_iff_ne] at hfile
  obtain ⟨⟨huse, hcount⟩, hpso⟩ := hfile
  refine ⟨iff_of_false hcount (by rw [huse]; decide), fun h => ?_⟩
  exact absurd (hpso.symm.trans h) (by decide)

theorem importable_twoSaves : ∀ a ∈ twoSaves, ∀ s, Importable s a := by
  intro a ha s
  rcases List.mem_cons.1 ha with rfl | ha
  · exact fun file hread _ => fits_gciFile (.inl ⟨rfl, rfl⟩) hread
  rcases List.mem_cons.1 ha with rfl | ha
  · exact fun file hread _ => fits_gciFile (.inr ⟨rfl, rfl⟩) hread
  rcases List.mem_cons.1 ha with rfl | ha
  · trivial
  · cases List.mem_singleton.1 ha
    trivial

theorem run_twoSaves : ∃ s, sessions.run (formatted card59) twoSaves = some s ∧ s.updates = 3 ∧
    sessions.ReachableBy Importable s := by
  have hupdates : (sessions.run (formatted card59) twoSaves).map (·.updates) = some 3 := by
    decide +kernel
  obtain ⟨s, hrun, hs⟩ := Option.map_eq_some_iff.1 hupdates
  have hstart : sessions.ReachableBy Importable (formatted card59) := .init ⟨card59, by decide, rfl⟩
  exact ⟨s, hrun, hs, hstart.run importable_twoSaves hrun⟩

/-- Both saves are imported and the first is removed. The card is consistent then, and when it is
    opened again with both. -/
theorem session_consistent_twoSaves : ∃ s s', sessions.run (formatted card59) twoSaves = some s ∧
    s.updates = 3 ∧ step s .reopen = some s' ∧ Consistent s.card ∧ Consistent s'.card := by
  obtain ⟨s, hrun, hs, hreach⟩ := run_twoSaves
  obtain ⟨hconsistent, hnext⟩ := session_consistent hreach (hs ▸ by decide)
  obtain ⟨s', hstep⟩ := hnext .reopen trivial
  have hs' : s'.updates = s.updates := by
    obtain ⟨c, -, rfl⟩ := Option.map_eq_some_iff.1 hstep
    rfl
  have hok : Importable s .reopen := trivial
  have hreach' := hreach.step hok hstep
  exact ⟨s, s', hrun, hs, hstep, hconsistent,
    (session_consistent hreach' (by rw [hs', hs]; decide)).1⟩

/-- A save of 64 zeros, which counts no blocks. -/
def emptySave : List UInt8 := List.replicate 64 0

/-- It is imported, too, but `Open` then finds no chain for its entry. -/
theorem emptySave_not_consistent :
    ∃ s, step (formatted card59) (.importFile emptySave) = some s ∧ s.updates = 1 ∧
      (openCard (save s.card)).2 ≠ some s.card ∧ ¬Consistent s.card := by
  let file : Savefile := ⟨Vector.replicate 64 0, []⟩
  have hread : readSavefile emptySave = .ok file := by decide +kernel
  have huse : file.dirEntry.inUse = true := by decide +kernel
  have hpso : isPso file.dirEntry = false := by decide +kernel
  have hcount : file.dirEntry.blockCount = 0 := by decide +kernel
  have haccepted : Accepted (formatCard card59) file := by
    unfold Accepted
    decide +kernel
  have hstored := stored_formatCard (f := card59) (by decide)
  rcases importFile_spec hstored.opened.sized (blockCount_le_of_readSavefile hread)
    (fun _ h => absurd (hpso.symm.trans h) Bool.false_ne_true) with
    ⟨hnot, -⟩ | ⟨-, first, chain, bat, c, heq, himported⟩
  · exact absurd haccepted hnot
  · obtain ⟨k, hk, -, hentry⟩ := (formatCard card59).directories.current.insert_entry
      (importedEntry file first) (haccepted.room rfl)
    have hnew : c.directories.current.entry k = importedEntry file first := by
      rw [himported.current.1, Directory.entry_fixChecksums, hentry, if_pos rfl]
    have hreject : (openCard (save c)).2 ≠ some c := by
      intro hopen
      obtain ⟨-, -, -, hne⟩ := (openCard_opened hopen).chains k hk
        (by rw [hnew, inUse_importedEntry, huse])
      rw [hnew, blockCount_importedEntry, hcount] at hne
      exact hne rfl
    refine ⟨⟨c, save (formatCard card59), 1⟩, ?_, rfl, hreject, fun h => hreject h.reopened⟩
    simp only [step, formatted, hread, heq]

end DolphinXR.GCMemcard
