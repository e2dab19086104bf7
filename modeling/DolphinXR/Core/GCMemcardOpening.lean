import DolphinXR.Core.GCMemcardConsistency

/- What `Open` checks. An issue other than data in an unused area is critical; a card without
   critical issues has the right checksums, numbers of free blocks and chains of the entries
   in use, and one for which all this is right in both copies is opened as it is. -/
namespace DolphinXR.GCMemcard
open Lib

theorem hasCriticalErrors_append {code code' : ErrorCode} :
    hasCriticalErrors (code ++ code') = false ↔
      hasCriticalErrors code = false ∧ hasCriticalErrors code' = false := by
  rw [hasCriticalErrors, List.any_append, Bool.or_eq_false_iff]
  rfl

theorem hasCriticalErrors_issueIf {p : Prop} [Decidable p] {i : ValidityIssue} :
    hasCriticalErrors (issueIf p i) = false ↔ (p → i = .dataInUnusedArea) := by
  unfold issueIf hasCriticalErrors
  by_cases h : p
  · simp [h]
  · simp [h]

/-! ### The blocks -/

def Header.Right (h : Header) (mb : Nat) : Prop :=
  h.sizeMb = mb ∧ h.calculateChecksums = (h.checksum, h.checksumInv)

def Directory.Right (d : Directory) : Prop := d.calculateChecksums = (d.checksum, d.checksumInv)

def BlockAlloc.Right (size : Nat) (b : BlockAlloc) : Prop :=
  b.calculateChecksums = (b.checksum, b.checksumInv) ∧ b.freeBlocks = (b.freeSet size).card

theorem Header.right_iff {h : Header} {mb : Nat} :
    hasCriticalErrors (h.checkForErrors mb) = false ↔ h.Right mb := by
  simp [checkForErrors, Right, hasCriticalErrors_append, hasCriticalErrors_issueIf]

theorem Directory.right_iff {d : Directory} : hasCriticalErrors d.checkForErrors = false ↔ d.Right := by
  simp [checkForErrors, Right, hasCriticalErrors_append, hasCriticalErrors_issueIf]

theorem BlockAlloc.right_iff {b : BlockAlloc} {mb : Nat} (hmb : mb ∈ validMegabits) :
    hasCriticalErrors (b.checkForErrors mb) = false ↔ b.Right (mb * mbitToBlocks) := by
  have hrange := megabits_range hmb
  have hcount := countP_cardMap b (show mb * mbitToBlocks - 5 ≤ 4091 by omega)
  rw [Nat.sub_add_cancel hrange.1] at hcount
  have hsize : 0 < mb ∧ mb ≤ 256 := by
    unfold mbitToBlocks at hrange
    omega
  have hfree : mb * mbitToBlocks - mcFstBlocks - (b.cardMap mb).countP (· != 0) =
      (b.freeSet (mb * mbitToBlocks)).card := by
    unfold cardMap mcFstBlocks
    omega
  unfold checkForErrors
  rw [if_pos hsize]
  dsimp only
  rw [hfree, hasCriticalErrors_append, hasCriticalErrors_append, hasCriticalErrors_issueIf,
    hasCriticalErrors_issueIf, hasCriticalErrors_issueIf]
  simp only [reduceCtorEq, imp_false, not_not, implies_true, and_true, ne_eq]
  exact Iff.and Iff.rfl eq_comm

theorem Directory.forall_mem_iff {d : Directory} {P : DEntry → Prop} :
    (∀ e ∈ d.dirEntries.toList, P e) ↔ ∀ i < dirlen, P (d.entry i) := by
  have hlength : d.dirEntries.toList.length = dirlen := Vector.length_toList
  constructor
  · intro h i hi
    rw [entry, List.getD_eq_getElem?_getD, List.getElem?_eq_getElem (hlength ▸ hi)]
    exact h _ (List.getElem_mem _)
  · intro h e he
    obtain ⟨i, hi, rfl⟩ := List.mem_iff_getElem.1 he
    have hentry := h i (hlength ▸ hi)
    rwa [entry, List.getD_eq_getElem?_getD, List.getElem?_eq_getElem hi] at hentry

def ChainsMatch (d : Directory) (b : BlockAlloc) : Prop :=
  ∀ i < dirlen, (d.entry i).inUse = true → ∃ l, b.Chain (d.entry i).firstBlock l 0xFFFF ∧
    l.length = (d.entry i).blockCount ∧ (d.entry i).blockCount ≠ 0

theorem Directory.chainsMatch_iff {d : Directory} {b : BlockAlloc} :
    hasCriticalErrors (d.checkForErrorsWithBat b) = false ↔ ChainsMatch d b := by
  have hall : hasCriticalErrors (d.checkForErrorsWithBat b) = false ↔
      ∀ e ∈ d.dirEntries.toList, e.inUse = true →
        chainMatches b e.blockCount e.firstBlock = true := by
    rw [checkForErrorsWithBat, hasCriticalErrors_issueIf]
    simp only [reduceCtorEq, imp_false, Bool.not_eq_true, List.any_eq_false, Bool.and_eq_true,
      Bool.not_eq_eq_eq_not, not_and, Bool.not_true, Bool.not_eq_false]
  rw [hall, forall_mem_iff]
  simp only [chainMatches_iff]
  rfl

theorem repair_errors {α : Type} (check : α → ErrorCode) (fix : α → α) (single : Bool)
    (block0 block1 : α) :
    (repair check fix single block0 block1).errors0 =
      check (repair check fix single block0 block1).block0 ∧
    (repair check fix single block0 block1).errors1 =
      check (repair check fix single block0 block1).block1 := by
  unfold repair
  split
  · exact ⟨rfl, rfl⟩
  · split
    · exact ⟨rfl, rfl⟩
    · exact ⟨rfl, rfl⟩

/-! ### The card -/

theorem dataBlocks_of_megabits {i : Image} (h : bytesToMegabits i.filesize ∈ validMegabits) :
    i.dataBlocks.length = bytesToMegabits i.filesize * mbitToBlocks - 5 := by
  have hpos := (megabits_range h).1
  unfold bytesToMegabits Image.filesize blockSize mcFstBlocks mbitToBlocks at *
  split at hpos
  · omega
  · rename_i hmod
    rw [if_neg hmod]
    omega

/-- What is true of a card that `Open` returns. -/
structure Opened (c : Card) : Prop where
  valid : c.valid = true
  megabits : c.sizeMb ∈ validMegabits
  sizeBlocks : c.sizeBlocks = c.sizeMb * mbitToBlocks
  dataBlocks : c.dataBlocks.length = c.sizeBlocks - 5
  header : c.header.Right c.sizeMb
  directories : c.directories.All Directory.Right
  bats : c.bats.All (BlockAlloc.Right c.sizeBlocks)
  chains : ChainsMatch c.directories.current c.bats.current

theorem openCard_opened {i : Image} {c : Card} (h : (openCard i).2 = some c) : Opened c := by
  unfold openCard at h
  dsimp only at h
  split at h
  · cases h
  rename_i hmb
  have hmb := not_not.1 hmb
  split at h
  · cases h
  rename_i hheader
  split at h
  · cases h
  dsimp only at h
  split at h
  · cases h
  rename_i hcritical
  rw [← Option.some.inj h]
  obtain ⟨hd0, hd1⟩ := repair_errors Directory.checkForErrors fixDirectory _ i.directory0 i.directory1
  obtain ⟨hb0, hb1⟩ :=
    repair_errors (·.checkForErrors (bytesToMegabits i.filesize)) fixBat _ i.bat0 i.bat1
  rw [hd0, hd1, hb0, hb1] at hcritical
  simp only [Bool.not_eq_true, hasCriticalErrors_append] at hcritical
  obtain ⟨⟨⟨⟨⟨hright, hd0⟩, hd1⟩, hb0⟩, hb1⟩, hchains⟩ := hcritical
  exact
    { valid := rfl
      megabits := hmb
      sizeBlocks := rfl
      dataBlocks := dataBlocks_of_megabits hmb
      header := Header.right_iff.1 hright
      directories := ⟨Directory.right_iff.1 hd0, Directory.right_iff.1 hd1⟩
      bats := ⟨(BlockAlloc.right_iff hmb).1 hb0, (BlockAlloc.right_iff hmb).1 hb1⟩
      chains := Directory.chainsMatch_iff.1 hchains }

/-- A card with nothing wrong in it, whose active blocks are those with the higher counters, is
    opened as it has been saved. -/
theorem openCard_save {c : Card} (h : Opened c)
    (hdirectory : c.directories.active =
      decide (c.directories.block0.updateCounter < c.directories.block1.updateCounter))
    (hbat : c.bats.active = decide (c.bats.block0.updateCounter < c.bats.block1.updateCounter)) :
    (openCard (save c)).2 = some c := by
  have hsave : save c = ⟨c.header, c.directories.block0, c.directories.block1, c.bats.block0,
      c.bats.block1, c.dataBlocks⟩ := by
    have hall : c.dataBlocks.take (c.sizeBlocks - mcFstBlocks) = c.dataBlocks :=
      List.take_of_length_le (Nat.le_of_eq h.dataBlocks)
    rw [save, hall]
  have hmb : bytesToMegabits (Image.filesize ⟨c.header, c.directories.block0, c.directories.block1,
      c.bats.block0, c.bats.block1, c.dataBlocks⟩) = c.sizeMb := by
    have hrange := megabits_range h.megabits
    have hlength := h.dataBlocks
    have hsize := h.sizeBlocks
    unfold bytesToMegabits Image.filesize blockSize mcFstBlocks mbitToBlocks at *
    dsimp only
    rw [hlength]
    split <;> omega
  have hd0 := Directory.right_iff.2 h.directories.1
  have hd1 := Directory.right_iff.2 h.directories.2
  have hb0 := (BlockAlloc.right_iff h.megabits).2 (h.sizeBlocks ▸ h.bats.1)
  have hb1 := (BlockAlloc.right_iff h.megabits).2 (h.sizeBlocks ▸ h.bats.2)
  have hheader := Header.right_iff.2 h.header
  have hchains := Directory.chainsMatch_iff.2 h.chains
  have hcorrupted : corruptedBlocks [c.directories.block0.checkForErrors,
      c.directories.block1.checkForErrors, c.bats.block0.checkForErrors c.sizeMb,
      c.bats.block1.checkForErrors c.sizeMb] = 0 := by
    simp [corruptedBlocks, hd0, hd1, hb0, hb1]
  have hrepair : ∀ {α : Type} (check : α → ErrorCode) (fix : α → α) (block0 block1 : α),
      repair check fix false block0 block1 = ⟨block0, block1, check block0, check block1⟩ :=
    fun _ _ _ _ => rfl
  have hdirectories : (⟨c.directories.block0, c.directories.block1, decide
      (c.directories.block0.updateCounter < c.directories.block1.updateCounter)⟩ :
      TwoCopies Directory) = c.directories := by
    rw [← hdirectory]
  have hbats : (⟨c.bats.block0, c.bats.block1, decide
      (c.bats.block0.updateCounter < c.bats.block1.updateCounter)⟩ : TwoCopies BlockAlloc) =
      c.bats := by
    rw [← hbat]
  have herrors : hasCriticalErrors (c.header.checkForErrors c.sizeMb ++
      c.directories.block0.checkForErrors ++ c.directories.block1.checkForErrors ++
      c.bats.block0.checkForErrors c.sizeMb ++ c.bats.block1.checkForErrors c.sizeMb ++
      c.directories.current.checkForErrorsWithBat c.bats.current) = false := by
    simp only [hasCriticalErrors_append]
    exact ⟨⟨⟨⟨⟨hheader, hd0⟩, hd1⟩, hb0⟩, hb1⟩, hchains⟩
  rw [hsave]
  unfold openCard
  dsimp only
  rw [hmb, if_neg (not_not.2 h.megabits), if_neg (Bool.eq_false_iff.1 hheader), hcorrupted,
    show decide (0 = 1) = false from rfl, hrepair, hrepair, if_neg (by decide)]
  dsimp only
  rw [hdirectories, hbats]
  refine (if_neg (Bool.eq_false_iff.1 herrors)).trans ?_
  rw [← h.sizeBlocks, ← h.valid]

end DolphinXR.GCMemcard
