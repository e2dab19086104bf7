import DolphinXR.Core.GCMemcardSafety

/- A save that is imported and exported again. What `ExportFile` returns of a file is its entry and
   what the blocks of its chain hold; `ImportFile` writes to blocks that have been free, and
   `RemoveFile` frees the same blocks. A save with the game code of an entry that is not in use is
   imported, too, but there is no file then: import and export are inverse exactly for the other
   saves. -/
namespace DolphinXR.GCMemcard
open Lib

structure Filed (c : Card) (index : Nat) (l : List Nat) : Prop where
  inUse : (c.entry index).inUse = true
  chain : c.bats.current.Chain (c.entry index).firstBlock l 0xFFFF
  length : l.length = (c.entry index).blockCount
  card : ∀ x ∈ l, 5 ≤ x ∧ x < c.sizeBlocks
  ne_nil : l ≠ []

/-! ### Exporting -/

section
variable {c c' : Card} {index : Nat} {l : List Nat}

theorem lt_of_inUse (h : (c.entry index).inUse = true) : index < dirlen := by
  by_contra hge
  have hlength : c.directories.current.dirEntries.toList.length = dirlen := Vector.length_toList
  rw [Card.entry, List.getD_eq_getElem?_getD, List.getElem?_eq_none (by omega), Option.getD_none,
    DEntry.inUse_empty] at h
  cases h

theorem exportFile_of_not_inUse (h : (c.entry index).inUse = false) :
    exportFile c index = .ok none := by
  unfold exportFile
  split
  · rfl
  · rw [h]
    rfl

theorem dataBlock_blockAt (h : Sized c) {block : Nat} (hblock : 5 ≤ block ∧ block < c.sizeBlocks) :
    dataBlock c.dataBlocks block = .ok (blockAt c.dataBlocks block) := by
  have hlength := h.dataBlocks
  have hindex : block - 5 < c.dataBlocks.length := by omega
  rw [dataBlock, if_neg (show ¬block < mcFstBlocks from Nat.not_lt.2 hblock.1), mcFstBlocks,
    blockAt, List.getD_eq_getElem?_getD, List.getElem?_eq_getElem hindex]
  rfl

theorem saveDataLoop_eq (h : Sized c) {first : Nat}
    (hchain : c.bats.current.Chain first l 0xFFFF) (hcard : ∀ x ∈ l, 5 ≤ x ∧ x < c.sizeBlocks) :
    saveDataLoop c l.length first = .ok (some (l.map (blockAt c.dataBlocks))) := by
  induction l generalizing first with
  | nil => rfl
  | cons block l ih =>
    obtain ⟨hblock, hcard⟩ := List.forall_mem_cons.1 hcard
    cases hchain with
    | cons hnot hrest =>
      have hcond : ¬(block = 0 ∨ block = 0xFFFF) := fun hor => hnot (Or.symm hor)
      simp only [List.length_cons, saveDataLoop, if_neg hcond, dataBlock_blockAt h hblock,
        ih hrest hcard, bind, Except.bind, Option.map_some, List.map_cons]

theorem Filed.firstBlock_mem (h : Filed c index l) : (c.entry index).firstBlock ∈ l := by
  have hchain := h.chain
  have hne := h.ne_nil
  generalize (c.entry index).firstBlock = first at hchain ⊢
  cases hchain with
  | nil => exact absurd rfl hne
  | cons => exact List.mem_cons_self

theorem Filed.exportFile_eq (h : Filed c index l) (hsized : Sized c) :
    exportFile c index = .ok (some ⟨c.entry index, l.map (blockAt c.dataBlocks)⟩) := by
  have hindex : ¬(¬c.valid = true ∨ dirlen ≤ index) :=
    not_or.2 ⟨not_not.2 hsized.valid, Nat.not_le.2 (lt_of_inUse h.inUse)⟩
  have hrange := hsized.range
  have hfirst := h.card _ h.firstBlock_mem
  have hlength := BlockAlloc.length_chain_le h.chain h.card
  have hdEntryFirst : dEntryFirstBlock c index = (c.entry index).firstBlock := by
    rw [dEntryFirstBlock, if_neg hindex, if_neg (by omega)]
  have hdEntryCount : dEntryBlockCount c index = l.length := by
    rw [dEntryBlockCount, if_neg hindex, ← h.length, if_neg (by omega)]
  have hdata : getSaveData c index = .ok (some (l.map (blockAt c.dataBlocks))) := by
    rw [getSaveData, if_neg (not_not.2 hsized.valid), hdEntryFirst, hdEntryCount,
      if_neg (by omega), saveDataLoop_eq hsized h.chain h.card]
  rw [exportFile, if_neg hindex, if_neg (not_not.2 h.inUse), hdata]
  rfl

theorem Filed.congr (h : Filed c index l) (hentry : c'.entry index = c.entry index)
    (hsize : c'.sizeBlocks = c.sizeBlocks)
    (hvalue : ∀ x ∈ l, c'.bats.current.value x = c.bats.current.value x) : Filed c' index l := by
  refine ⟨hentry ▸ h.inUse, ?_, hentry ▸ h.length, hsize ▸ h.card, h.ne_nil⟩
  rw [hentry]
  exact h.chain.congr fun x hx => BlockAlloc.getNextBlock_congr fun _ => hvalue x hx

theorem Filed.exportFile_congr (h : Filed c index l) (hsized : Sized c) (hsized' : Sized c')
    (hentry : c'.entry index = c.entry index) (hsize : c'.sizeBlocks = c.sizeBlocks)
    (hvalue : ∀ x ∈ l, c'.bats.current.value x = c.bats.current.value x)
    (hblock : ∀ x ∈ l, blockAt c'.dataBlocks x = blockAt c.dataBlocks x) :
    exportFile c' index = exportFile c index := by
  rw [(h.congr hentry hsize hvalue).exportFile_eq hsized', h.exportFile_eq hsized, hentry,
    List.map_congr_left hblock]

theorem Consistent.sized (h : Consistent c) : Sized c := (openCard_opened h.reopened).sized

theorem Consistent.filed (h : Consistent c) (huse : (c.entry index).inUse = true) :
    ∃ l, Filed c index l := by
  have hindex := lt_of_inUse huse
  obtain ⟨l, hchain, hlength, -, hcard⟩ := h.chain index hindex huse
  obtain ⟨-, -, -, hcount⟩ := (openCard_opened h.reopened).chains index hindex huse
  refine ⟨l, huse, hchain, hlength, hcard, ?_⟩
  rintro rfl
  exact hcount hlength.symm

end

/-! ### Importing and removing -/

section
variable {c c' : Card} {s : Savefile} {first index : Nat} {chain : List Nat} {bat : BlockAlloc}

theorem Filed.not_mem_of_free {l : List Nat} (h : Filed c index l)
    (hfree : ∀ x ∈ chain, x ∈ c.bats.current.freeSet c.sizeBlocks) : ∀ x ∈ l, x ∉ chain := by
  intro x hx hmem
  exact BlockAlloc.value_ne_zero_of_chain h.chain x hx (BlockAlloc.mem_freeSet.1 (hfree x hmem)).2

theorem Imported.value_eq (h : Imported c s first chain bat c') {x : Nat} (hx : 5 ≤ x)
    (hnot : x ∉ chain) : c'.bats.current.value x = c.bats.current.value x := by
  rw [h.current.2]
  exact h.value x hx hnot

theorem Removed.value_eq (h : Removed c index chain bat c') {x : Nat} (hx : 5 ≤ x)
    (hnot : x ∉ chain) : c'.bats.current.value x = c.bats.current.value x := by
  have hvalue := h.value x hx
  rw [if_neg hnot] at hvalue
  rw [h.current.2]
  exact hvalue

theorem Imported.filed (h : Imported c s first chain bat c') (hsized : Sized c)
    (hcount : s.dirEntry.blockCount ≠ 0) (huse : s.dirEntry.inUse = true) {k : Nat}
    (hentry : c'.entry k = importedEntry s first) : Filed c' k chain := by
  have hrange := (BlockAlloc.mem_freeSet.1 h.first_mem).1
  have hsize := hsized.range
  refine ⟨?_, ?_, ?_, fun x hx => ?_, ?_⟩
  · rw [hentry, inUse_importedEntry]
    exact huse
  · rw [hentry, firstBlock_importedEntry s (show first < 65536 by omega), h.current.2]
    exact h.chain hcount
  · rw [hentry, blockCount_importedEntry]
    exact h.length
  · rw [h.sizeBlocks]
    exact (BlockAlloc.mem_freeSet.1 (h.chain_mem x hx)).1
  · rintro rfl
    exact hcount h.length.symm

end

/-- Every import of the save can be exported and undone: it makes a file of the same blocks and of the
    same entry but for the first block and the copy counter, every other file is exported as before,
    and after the file has been removed, all are and as many blocks are free. -/
def ImportInverse (c : Card) (s : Savefile) : Prop :=
  ∀ c', importFile c s = .ok (.success, c') → ∃ k < dirlen, (c.entry k).inUse = false ∧
    (∃ first, exportFile c' k =
      .ok (some ⟨(s.dirEntry.setFirstBlock first).incrementCopyCounter, s.blocks⟩)) ∧
    (∀ i, i ≠ k → exportFile c' i = exportFile c i) ∧
    ∃ c'', removeFile c' chainFuel k = .ok (.success, c'') ∧
      (∀ i, exportFile c'' i = exportFile c i) ∧
      c''.bats.current.freeBlocks = c.bats.current.freeBlocks

section
variable {c c' : Card} {s : Savefile} {first : Nat} {chain : List Nat} {bat : BlockAlloc}

theorem Imported.blocks_eq (h : Imported c s first chain bat c')
    (hlength : s.blocks.length = s.dirEntry.blockCount)
    (hfzero : s.dirEntry.nameIs fZeroName = false) (hpso : isPso s.dirEntry = false) :
    chain.map (blockAt c'.dataBlocks) = s.blocks := by
  have hblocks : psoMakeSaveGameValid c.header s.dirEntry
      (fzerogxMakeSaveGameValid c.header s.dirEntry s.blocks) = .ok s.blocks := by
    have hsame : fzerogxMakeSaveGameValid c.header s.dirEntry s.blocks = s.blocks :=
      if_pos (by rw [hfzero]; exact Bool.false_ne_true)
    rw [hsame]
    exact if_pos (by rw [hpso]; exact Bool.false_ne_true)
  rw [h.written s.blocks hblocks, ← hlength, List.take_length]

theorem Imported.exportFile_eq (h : Imported c s first chain bat c') (hcard : Consistent c) {i : Nat}
    (hentry : c'.entry i = c.entry i) : exportFile c' i = exportFile c i := by
  cases huse : (c.entry i).inUse with
  | false => rw [exportFile_of_not_inUse huse, exportFile_of_not_inUse (hentry ▸ huse)]
  | true =>
    obtain ⟨l, hfiled⟩ := hcard.filed huse
    have hapart := hfiled.not_mem_of_free h.chain_mem
    refine hfiled.exportFile_congr hcard.sized (hcard.sized.imported h) hentry h.sizeBlocks ?_ ?_
    · exact fun x hx => h.value_eq (hfiled.card x hx).1 (hapart x hx)
    · exact fun x hx => h.kept x (hfiled.card x hx).1 (hapart x hx)

theorem Removed.exportFile_eq {c'' : Card} {bat' : BlockAlloc} {k i : Nat} (hcard : Consistent c)
    (himported : Imported c s first chain bat c') (h : Removed c' k chain bat' c'')
    (hentry : c'.entry i = c.entry i) (hentry' : c''.entry i = c'.entry i) :
    exportFile c'' i = exportFile c i := by
  rw [← himported.exportFile_eq hcard hentry]
  cases huse : (c.entry i).inUse with
  | false =>
    have huse' : (c'.entry i).inUse = false := hentry ▸ huse
    rw [exportFile_of_not_inUse huse', exportFile_of_not_inUse (hentry' ▸ huse')]
  | true =>
    obtain ⟨l, hfiled⟩ := hcard.filed huse
    have hapart := hfiled.not_mem_of_free himported.chain_mem
    have hfiled' := hfiled.congr hentry himported.sizeBlocks fun x hx =>
      himported.value_eq (hfiled.card x hx).1 (hapart x hx)
    have hsized' := hcard.sized.imported himported
    refine hfiled'.exportFile_congr hsized' (hsized'.removed h) hentry' h.sizeBlocks ?_ ?_
    · exact fun x hx => h.value_eq (hfiled.card x hx).1 (hapart x hx)
    · exact fun x _ => congrArg (blockAt · x) h.dataBlocks

theorem Imported.inverse (h : Imported c s first chain bat c') (hcard : Consistent c)
    (haccepted : Accepted c s) (hlength : s.blocks.length = s.dirEntry.blockCount)
    (hcount : 1 ≤ s.dirEntry.blockCount) (hfzero : s.dirEntry.nameIs fZeroName = false)
    (hpso : isPso s.dirEntry = false) (huse : s.dirEntry.inUse = true) :
    ∃ k < dirlen, (c.entry k).inUse = false ∧
      (∃ first, exportFile c' k =
        .ok (some ⟨(s.dirEntry.setFirstBlock first).incrementCopyCounter, s.blocks⟩)) ∧
      (∀ i, i ≠ k → exportFile c' i = exportFile c i) ∧
      ∃ c'', removeFile c' chainFuel k = .ok (.success, c'') ∧
        (∀ i, exportFile c'' i = exportFile c i) ∧
        c''.bats.current.freeBlocks = c.bats.current.freeBlocks := by
  have hsized := hcard.sized
  have hsized' := hsized.imported h
  obtain ⟨k, hk, hspare, hentry⟩ := h.exists_entry hsized.valid haccepted
  have hnew : c'.entry k = importedEntry s first := by rw [hentry, if_pos rfl]
  have hother : ∀ i, i ≠ k → c'.entry i = c.entry i := fun i hi => by rw [hentry, if_neg hi]
  have hfiled := h.filed hsized (Nat.ne_of_gt hcount) huse hnew
  refine ⟨k, hk, hspare, ⟨first, ?_⟩, fun i hi => h.exportFile_eq hcard (hother i hi), ?_⟩
  · rw [hfiled.exportFile_eq hsized', h.blocks_eq hlength hfzero hpso, hnew]
    rfl
  · rcases removeFile_spec hsized' hk hfiled.chain (fun _ => hfiled.card)
      (length_chain_lt hfiled.chain) with ⟨hnot, -⟩ | ⟨-, bat', c'', heq, hremoved⟩
    · exact absurd ⟨rfl, hfiled.length⟩ hnot
    · refine ⟨c'', heq, fun i => ?_, ?_⟩
      · by_cases hi : i = k
        · subst hi
          have hempty : (c''.entry i).inUse = false := by
            rw [hremoved.entry hk, if_pos rfl, DEntry.inUse_empty]
          rw [exportFile_of_not_inUse hempty, exportFile_of_not_inUse hspare]
        · have hentry' : c''.entry i = c'.entry i := by rw [hremoved.entry hk, if_neg hi]
          exact hremoved.exportFile_eq hcard h (hother i hi) hentry'
      · calc c''.bats.current.freeBlocks
            = bat'.freeBlocks := by rw [hremoved.current.2]; rfl
          _ = c'.bats.current.freeBlocks + chain.length := hremoved.free
          _ = bat.freeBlocks + chain.length := by rw [h.current.2]; rfl
          _ = c.bats.current.freeBlocks := by rw [h.length, h.free]

theorem not_importInverse (hsized : Sized c)
    (hlength : s.blocks.length = s.dirEntry.blockCount) (hpso : isPso s.dirEntry = false)
    (haccepted : Accepted c s) (huse : s.dirEntry.inUse = false) : ¬ImportInverse c s := by
  intro hinverse
  rcases importFile_spec hsized (Nat.le_of_eq hlength.symm) (fun _ h => absurd (hpso.symm.trans h)
    Bool.false_ne_true) with ⟨hnot, -⟩ | ⟨-, first, chain, bat, c', heq, himported⟩
  · exact hnot haccepted
  · obtain ⟨k, -, hspare, ⟨first', hexport⟩, -⟩ := hinverse c' heq
    obtain ⟨k', -, -, hentry⟩ := himported.exists_entry hsized.valid haccepted
    have hnone : (c'.entry k).inUse = false := by
      rw [hentry]
      split
      · rw [inUse_importedEntry, huse]
      · exact hspare
    rw [exportFile_of_not_inUse hnone] at hexport
    cases hexport

/-- Import and export are inverse, except for a save that has the game code of an entry not in use. -/
theorem importInverse_iff (hcard : Consistent c)
    (hlength : s.blocks.length = s.dirEntry.blockCount) (hcount : 1 ≤ s.dirEntry.blockCount)
    (hfzero : s.dirEntry.nameIs fZeroName = false) (hpso : isPso s.dirEntry = false) :
    ImportInverse c s ↔ (Accepted c s → s.dirEntry.inUse = true) := by
  constructor
  · intro hinverse haccepted
    cases huse : s.dirEntry.inUse with
    | true => rfl
    | false =>
      exact absurd hinverse (not_importInverse hcard.sized hlength hpso haccepted huse)
  · intro huse c' heq
    rcases importFile_spec hcard.sized (Nat.le_of_eq hlength.symm) (fun _ h => absurd
      (hpso.symm.trans h) Bool.false_ne_true) with
      ⟨-, r, hr, heq'⟩ | ⟨haccepted, first, chain, bat, c'', heq', himported⟩
    · rw [heq] at heq'
      cases heq'
      exact absurd rfl hr
    · rw [heq] at heq'
      cases heq'
      exact himported.inverse hcard haccepted hlength hcount hfzero hpso (huse haccepted)

def oneBlock (gamecode : UInt8) : DEntry :=
  DEntry.setBlockCount
    ((List.range 4).foldl (fun e i => e.setIfInBounds i gamecode) (Vector.replicate 64 0)) 1

def oneBlockSave (gamecode : UInt8) : Savefile := ⟨oneBlock gamecode, [Vector.replicate 0x2000 0]⟩

/-- A save of the game 0000. -/
theorem oneBlockSave_importInverse : ImportInverse (formatCard card59) (oneBlockSave 0x30) :=
  (importInverse_iff (stored_formatCard (f := card59) (by decide)).consistent (by decide +kernel)
    (by decide +kernel) (by decide +kernel) (by decide +kernel)).2 fun _ => by decide +kernel

/-- The game code FFFFFFFF is that of an entry not in use. -/
theorem oneBlockSave_not_importInverse : Consistent (formatCard card59) ∧
    (oneBlockSave 0xFF).blocks.length = (oneBlockSave 0xFF).dirEntry.blockCount ∧
    1 ≤ (oneBlockSave 0xFF).dirEntry.blockCount ∧
    (oneBlockSave 0xFF).dirEntry.nameIs fZeroName = false ∧
    isPso (oneBlockSave 0xFF).dirEntry = false ∧
    ¬ImportInverse (formatCard card59) (oneBlockSave 0xFF) := by
  have hstored := stored_formatCard (f := card59) (by decide)
  have hlength : (oneBlockSave 0xFF).blocks.length = (oneBlockSave 0xFF).dirEntry.blockCount := by
    decide +kernel
  have hpso : isPso (oneBlockSave 0xFF).dirEntry = false := by decide +kernel
  have haccepted : Accepted (formatCard card59) (oneBlockSave 0xFF) := by
    unfold Accepted
    decide +kernel
  refine ⟨hstored.consistent, hlength, by decide +kernel, by decide +kernel, hpso, ?_⟩
  exact not_importInverse hstored.opened.sized hlength hpso haccepted (by decide +kernel)

end
end DolphinXR.GCMemcard
