import DolphinXR.Common.Align
import DolphinXR.DiscIO.CachedBlob

/- The scrubber of discs (DiscIO/DiscScrubber.cpp). It walks through what a disc uses and marks the
   clusters of 0x8000 bytes that hold it; what is not marked may be replaced by zeros.

   A range in a partition with hashes is rounded to blocks of 0x7C00 bytes of data, which take up
   0x8000 bytes of the disc, and moved by the offset of the partition's data before it is rounded to
   clusters. Two things are missed: of the apploader the last 0x20 bytes, as its header is not
   counted, and in a partition with hashes whose data begins at 0 everything, as `MarkAsUsedE` takes
   that offset for no partition. They are kept just where something else that is marked reaches
   their clusters.

   Offsets are natural numbers. The words that are read from the disc and the tree of its files are
   taken from `Volume`. What a failed parse has marked is left out: nothing is scrubbed after it. -/
namespace DolphinXR.DiscIO.DiscScrubber
open Common

inductive FileInfo where
  | file (offset size : Nat)
  | directory (entries : List FileInfo)

/-- Partitions are known by their offsets, `none` is `PARTITION_NONE`. Offsets that are read from a
    disc are shifted by `getOffsetShift`, which is 0 for GameCube discs and 2 for Wii discs. -/
structure Volume where
  isDisc : Bool
  getDataSize : Nat
  getOffsetShift : Nat
  hasWiiHashes : Bool
  getPartitions : List Nat
  readSwapped : Nat → Option Nat → Option (BitVec 32)
  getFileSystem : Option Nat → Option FileInfo

namespace Volume

variable (volume : Volume) (partition : Option Nat)

def readSwappedAndShifted (offset : Nat) : Option Nat :=
  (volume.readSwapped offset partition).map (·.toNat <<< volume.getOffsetShift)

def getBootDOLOffset : Option Nat :=
  if !volume.isDisc then none
  else
    -- Discs that do not use the offset have 0 there.
    (volume.readSwappedAndShifted partition 0x420).filter (· ≠ 0)

/-- Of the apploader with its header, which is 0x20 bytes long. -/
def getApploaderSize : Option Nat := do
  let apploaderSize ← volume.readSwapped (0x2440 + 0x14) partition
  let trailerSize ← volume.readSwapped (0x2440 + 0x18) partition
  some (0x20 + apploaderSize.toNat + trailerSize.toNat)

/-- One of the two loops of `GetBootDOLSize`. -/
def sizeOfSegments (offsets sizes count dolSize : Nat) : Option Nat :=
  (List.range count).foldlM (fun dolSize i => do
    let offset ← volume.readSwapped (offsets + i * 4) partition
    let size ← volume.readSwapped (sizes + i * 4) partition
    some (max (offset + size).toNat dolSize)) dolSize

def getBootDOLSize (dolOffset : Nat) : Option Nat :=
  if !volume.isDisc then none
  else do
    let dolSize ← volume.sizeOfSegments partition (dolOffset + 0x00) (dolOffset + 0x90) 7 0
    volume.sizeOfSegments partition (dolOffset + 0x1c) (dolOffset + 0xac) 11 dolSize

def getFSTOffset : Option Nat :=
  if !volume.isDisc then none else volume.readSwappedAndShifted partition 0x424

def getFSTSize : Option Nat :=
  if !volume.isDisc then none else volume.readSwappedAndShifted partition 0x428

end Volume

/-- A call of `MarkAsUsed`, or one of `MarkAsUsedE` for a partition. -/
inductive Mark where
  | used (offset size : Nat)
  | usedE (partition : Option Nat) (partitionDataOffset offset size : Nat)

mutual

def parseEntry (partition : Option Nat) (partitionDataOffset : Nat) : FileInfo → List Mark
  | .file offset size => [.usedE partition partitionDataOffset offset size]
  | .directory entries => parseFileSystemData partition partitionDataOffset entries

/-- `ParseFileSystemData` on the entries of a directory. -/
def parseFileSystemData (partition : Option Nat) (partitionDataOffset : Nat) :
    List FileInfo → List Mark
  | [] => []
  | entry :: entries => parseEntry partition partitionDataOffset entry ++
      parseFileSystemData partition partitionDataOffset entries

end

def partitionDataOffset (disc : Volume) : Option Nat → Option Nat
  | none => some 0
  | some offset => (disc.readSwappedAndShifted none (offset + 0x2b8)).map (offset + ·)

def parsePartitionData (disc : Volume) (partition : Option Nat) : Option (List Mark) := do
  let root ← disc.getFileSystem partition
  let dataOffset ← partitionDataOffset disc partition
  let apploaderSize ← disc.readSwapped (0x2440 + 0x14) partition
  let apploaderTrailerSize ← disc.readSwapped (0x2440 + 0x18) partition
  let dolOffset ← disc.getBootDOLOffset partition
  let dolSize ← disc.getBootDOLSize partition dolOffset
  let fstOffset ← disc.getFSTOffset partition
  let fstSize ← disc.getFSTSize partition
  -- The three sizes are added as 32-bit words.
  some ([.usedE partition dataOffset 0 (0x2440 + apploaderSize + apploaderTrailerSize).toNat,
    .usedE partition dataOffset dolOffset dolSize,
    .usedE partition dataOffset fstOffset fstSize] ++ parseEntry partition dataOffset root)

/-- What `ParseDisc` does for a partition of a Wii disc. -/
def parsePartition (disc : Volume) (offset : Nat) : Option (List Mark) := do
  let tmdSize ← disc.readSwapped (offset + 0x2a4) none
  let tmdOffset ← disc.readSwappedAndShifted none (offset + 0x2a8)
  let certChainSize ← disc.readSwapped (offset + 0x2ac) none
  let certChainOffset ← disc.readSwappedAndShifted none (offset + 0x2b0)
  let h3Offset ← disc.readSwappedAndShifted none (offset + 0x2b4)
  let marks ← parsePartitionData disc (some offset)
  some ([.used offset 0x2c0, .used (offset + tmdOffset) tmdSize.toNat,
    .used (offset + certChainOffset) certChainSize.toNat, .used (offset + h3Offset) 0x18000] ++
      marks)

def parseDisc (disc : Volume) : Option (List Mark) :=
  if disc.getPartitions = [] then parsePartitionData disc none
  else (disc.getPartitions.mapM (parsePartition disc)).map fun marks =>
    .used 0 0x50000 :: marks.flatten

/-- `m_free_table`, true for what is free. -/
abbrev FreeTable := List Bool

def markLoop (fileSize endOffset currentOffset : Nat) (table : FreeTable) : FreeTable :=
  if currentOffset < endOffset ∧ currentOffset < fileSize then
    markLoop fileSize endOffset (currentOffset + clusterSize)
      (table.set (currentOffset / clusterSize) false)
  else table
termination_by endOffset - currentOffset
decreasing_by
  unfold clusterSize
  omega

def markAsUsed (fileSize offset size : Nat) (table : FreeTable) : FreeTable :=
  markLoop fileSize (offset + size) (alignDown offset clusterSize) table

def toClusterOffset (hasWiiHashes : Bool) (offset : Nat) : Nat :=
  if hasWiiHashes then offset / 0x7c00 * clusterSize else alignDown offset clusterSize

def markAsUsedE (fileSize : Nat) (hasWiiHashes : Bool) (partitionDataOffset offset size : Nat)
    (table : FreeTable) : FreeTable :=
  if partitionDataOffset = 0 then markAsUsed fileSize offset size table
  else
    let firstClusterStart := toClusterOffset hasWiiHashes offset + partitionDataOffset
    let lastClusterEnd :=
      if size = 0 then firstClusterStart
      else toClusterOffset hasWiiHashes (offset + size - 1) + clusterSize + partitionDataOffset
    markAsUsed fileSize firstClusterStart (lastClusterEnd - firstClusterStart) table

def Mark.perform (fileSize : Nat) (hasWiiHashes : Bool) (table : FreeTable) : Mark → FreeTable
  | used offset size => markAsUsed fileSize offset size table
  | usedE _ partitionDataOffset offset size =>
    markAsUsedE fileSize hasWiiHashes partitionDataOffset offset size table

def setupScrub (disc : Volume) : DiscScrubber :=
  let numClusters := (disc.getDataSize + clusterSize - 1) / clusterSize
  let freeTable := List.replicate numClusters true
  match parseDisc disc with
  | none => ⟨freeTable, false⟩
  | some marks =>
    ⟨marks.foldl (Mark.perform disc.getDataSize disc.hasWiiHashes) freeTable, true⟩

/-! ### What is marked -/

def Spans (extent : Nat × Nat) (i : Nat) : Prop :=
  extent.1 / clusterSize ≤ i ∧ i * clusterSize < extent.2

theorem markLoop_spec (fileSize endOffset currentOffset : Nat) (table : FreeTable)
    (haligned : clusterSize ∣ currentOffset) :
    (markLoop fileSize endOffset currentOffset table).length = table.length ∧
    ∀ i : Nat, (markLoop fileSize endOffset currentOffset table)[i]? = some false ↔
      table[i]? = some false ∨ i < table.length ∧ currentOffset ≤ i * clusterSize ∧
        i * clusterSize < endOffset ∧ i * clusterSize < fileSize := by
  fun_induction markLoop fileSize endOffset currentOffset table with
  | case1 current table hgo ih =>
    obtain ⟨k, rfl⟩ := haligned
    have hk : clusterSize * k / clusterSize = k := Nat.mul_div_cancel_left k (by decide)
    obtain ⟨hlength, hmarked⟩ := ih ⟨k + 1, rfl⟩
    rw [hk] at hlength hmarked ⊢
    refine ⟨hlength.trans List.length_set, fun i => (hmarked i).trans ?_⟩
    rw [List.length_set]
    by_cases heq : k = i
    · subst heq
      by_cases hlt : k < table.length
      · rw [List.getElem?_set_self hlt]
        exact iff_of_true (.inl rfl) (.inr ⟨hlt, by rw [Nat.mul_comm], Nat.mul_comm k _ ▸ hgo.1,
          Nat.mul_comm k _ ▸ hgo.2⟩)
      · rw [List.getElem?_eq_none (by rw [List.length_set]; omega),
          List.getElem?_eq_none (by omega)]
        exact or_congr_right (by simp [hlt])
    · rw [List.getElem?_set_ne heq]
      refine or_congr_right (and_congr_right' (and_congr_left' ?_))
      unfold clusterSize
      omega
  | case2 current table hstop =>
    refine ⟨rfl, fun i => ⟨.inl, ?_⟩⟩
    rintro (hi | ⟨-, hle, hend, hfile⟩)
    · exact hi
    · exact absurd ⟨by omega, by omega⟩ hstop

theorem markAsUsed_spec (fileSize offset size : Nat) (table : FreeTable) :
    (markAsUsed fileSize offset size table).length = table.length ∧
    ∀ i : Nat, (markAsUsed fileSize offset size table)[i]? = some false ↔
      table[i]? = some false ∨ i < table.length ∧ Spans (offset, offset + size) i ∧
        i * clusterSize < fileSize := by
  obtain ⟨hlength, hmarked⟩ := markLoop_spec fileSize (offset + size)
    (alignDown offset clusterSize) table (dvd_alignDown _ _)
  refine ⟨hlength, fun i => (hmarked i).trans (or_congr_right (and_congr_right' ?_))⟩
  rw [Spans, and_assoc]
  refine and_congr_left' ?_
  rw [alignDown_eq, Nat.mul_comm]
  exact Nat.mul_le_mul_right_iff (by decide)

/-- Where `MarkAsUsedE` has a range marked. -/
def rangeExtent (hasWiiHashes : Bool) (partitionDataOffset offset size : Nat) : Nat × Nat :=
  if partitionDataOffset = 0 then (offset, offset + size)
  else
    (toClusterOffset hasWiiHashes offset + partitionDataOffset,
      if size = 0 then toClusterOffset hasWiiHashes offset + partitionDataOffset
      else toClusterOffset hasWiiHashes (offset + size - 1) + clusterSize + partitionDataOffset)

theorem toClusterOffset_mono (hasWiiHashes : Bool) {a b : Nat} (h : a ≤ b) :
    toClusterOffset hasWiiHashes a ≤ toClusterOffset hasWiiHashes b := by
  unfold toClusterOffset
  split
  · exact Nat.mul_le_mul_right _ (Nat.div_le_div_right h)
  · rw [alignDown_eq, alignDown_eq]
    exact Nat.mul_le_mul_left _ (Nat.div_le_div_right h)

theorem markAsUsedE_spec (fileSize : Nat) (hasWiiHashes : Bool) (dataOffset offset size : Nat)
    (table : FreeTable) :
    (markAsUsedE fileSize hasWiiHashes dataOffset offset size table).length = table.length ∧
    ∀ i : Nat, (markAsUsedE fileSize hasWiiHashes dataOffset offset size table)[i]? = some false ↔
      table[i]? = some false ∨ i < table.length ∧
        Spans (rangeExtent hasWiiHashes dataOffset offset size) i ∧ i * clusterSize < fileSize := by
  unfold markAsUsedE rangeExtent
  by_cases hzero : dataOffset = 0
  · rw [if_pos hzero, if_pos hzero]
    exact markAsUsed_spec fileSize offset size table
  · rw [if_neg hzero, if_neg hzero]
    dsimp only
    by_cases hempty : size = 0
    · rw [if_pos hempty, Nat.sub_self]
      exact markAsUsed_spec ..
    · rw [if_neg hempty]
      have hmono := toClusterOffset_mono hasWiiHashes (show offset ≤ offset + size - 1 by omega)
      have hspec := markAsUsed_spec fileSize (toClusterOffset hasWiiHashes offset + dataOffset)
        (toClusterOffset hasWiiHashes (offset + size - 1) + clusterSize + dataOffset -
          (toClusterOffset hasWiiHashes offset + dataOffset)) table
      rwa [Nat.add_sub_cancel' (by omega)] at hspec

def Mark.extent (hasWiiHashes : Bool) : Mark → Nat × Nat
  | used offset size => (offset, offset + size)
  | usedE _ partitionDataOffset offset size =>
    rangeExtent hasWiiHashes partitionDataOffset offset size

theorem perform_spec (fileSize : Nat) (hasWiiHashes : Bool) (m : Mark) (table : FreeTable) :
    (m.perform fileSize hasWiiHashes table).length = table.length ∧
    ∀ i : Nat, (m.perform fileSize hasWiiHashes table)[i]? = some false ↔
      table[i]? = some false ∨ i < table.length ∧ Spans (m.extent hasWiiHashes) i ∧
        i * clusterSize < fileSize := by
  cases m with
  | used offset size => exact markAsUsed_spec fileSize offset size table
  | usedE partition dataOffset offset size =>
    exact markAsUsedE_spec fileSize hasWiiHashes dataOffset offset size table

theorem foldl_perform_spec (fileSize : Nat) (hasWiiHashes : Bool) (marks : List Mark)
    (table : FreeTable) (i : Nat) (hlt : i < table.length) (hfile : i * clusterSize < fileSize) :
    (marks.foldl (Mark.perform fileSize hasWiiHashes) table)[i]? = some false ↔
      table[i]? = some false ∨ ∃ m ∈ marks, Spans (m.extent hasWiiHashes) i := by
  induction marks generalizing table with
  | nil => simp
  | cons first marks ih =>
    obtain ⟨hlength, hmarked⟩ := perform_spec fileSize hasWiiHashes first table
    rw [List.foldl_cons, ih _ (hlength ▸ hlt), hmarked, or_assoc, List.exists_mem_cons_iff]
    simp only [hlt, hfile, true_and, and_true]

theorem canBlockBeScrubbed_eq_false_iff {disc : Volume} {marks : List Mark} {raw : Nat}
    (hparse : parseDisc disc = some marks) (hraw : raw < disc.getDataSize) :
    canBlockBeScrubbed (setupScrub disc) raw = false ↔
      ∃ m ∈ marks, Spans (m.extent disc.hasWiiHashes) (raw / clusterSize) := by
  have hlt : raw / clusterSize < ((disc.getDataSize + clusterSize - 1) / clusterSize) := by
    unfold clusterSize
    omega
  have hfile : raw / clusterSize * clusterSize < disc.getDataSize :=
    Nat.lt_of_le_of_lt (Nat.div_mul_le_self _ _) hraw
  have hmarked := foldl_perform_spec disc.getDataSize disc.hasWiiHashes marks
    (List.replicate ((disc.getDataSize + clusterSize - 1) / clusterSize) true) (raw / clusterSize)
    (by rwa [List.length_replicate]) hfile
  rw [List.getElem?_replicate, if_pos hlt, or_iff_right (by decide)] at hmarked
  rw [← hmarked]
  simp only [canBlockBeScrubbed, setupScrub, hparse, Bool.not_true, Bool.false_eq_true, if_false,
    Bool.or_eq_false_iff, decide_eq_false_iff_not, not_le]
  constructor
  · rintro ⟨hinside, hfree⟩
    rw [List.getElem?_eq_getElem hinside] at hfree ⊢
    exact congrArg some hfree
  · intro hused
    obtain ⟨hinside, -⟩ := List.getElem?_eq_some_iff.1 hused
    exact ⟨hinside, by rw [hused, Option.getD_some]⟩

/-! ### What a byte needs -/

/-- `VolumeWii::PartitionOffsetToRawOffset`, with where the data of the partition begins. -/
def partitionOffsetToRawOffset (hasHashes : Bool) (partition : Option Nat)
    (partitionDataOffset offset : Nat) : Nat :=
  match partition with
  | none => offset
  | some _ =>
    if !hasHashes then partitionDataOffset + offset
    else partitionDataOffset + offset / 0x7c00 * 0x8000 + offset % 0x7c00

/-- The raw offsets that a byte of a partition needs: its own and, where there are hashes, all of
    its block. -/
def Occupies (hasHashes : Bool) (partition : Option Nat) (dataOffset byte raw : Nat) : Prop :=
  raw = partitionOffsetToRawOffset hasHashes partition dataOffset byte ∨
    partition ≠ none ∧ hasHashes = true ∧ dataOffset + byte / 0x7c00 * 0x8000 ≤ raw ∧
      raw < dataOffset + byte / 0x7c00 * 0x8000 + 0x8000

theorem occupies_none {hasHashes : Bool} {dataOffset byte raw : Nat}
    (h : Occupies hasHashes none dataOffset byte raw) : raw = byte := by
  rcases h with h | ⟨hne, -⟩
  · exact h
  · exact absurd rfl hne

theorem occupies_unhashed {p dataOffset byte raw : Nat}
    (h : Occupies false (some p) dataOffset byte raw) : raw = dataOffset + byte := by
  rcases h with h | ⟨-, hhashes, -⟩
  · exact h
  · exact absurd hhashes (by decide)

theorem occupies_hashed {p dataOffset byte raw : Nat}
    (h : Occupies true (some p) dataOffset byte raw) :
    dataOffset + byte / 0x7c00 * 0x8000 ≤ raw ∧
      raw < dataOffset + byte / 0x7c00 * 0x8000 + 0x8000 := by
  rcases h with h | ⟨-, -, hblock⟩
  · have heq : raw = dataOffset + byte / 0x7c00 * 0x8000 + byte % 0x7c00 := h
    have hmod : byte % 0x7c00 < 0x7c00 := Nat.mod_lt _ (by decide)
    omega
  · exact hblock

/-- The clusters that the bytes of a range need are those it is marked in, but for a partition with
    hashes whose data begins at 0. -/
theorem spans_rangeExtent {hasWiiHashes : Bool} {partition : Option Nat}
    {dataOffset offset size byte raw : Nat} (hnone : partition = none → dataOffset = 0)
    (hhashes : partition ≠ none → hasWiiHashes = true → dataOffset ≠ 0)
    (hfirst : offset ≤ byte) (hlast : byte < offset + size)
    (hoccupies : Occupies hasWiiHashes partition dataOffset byte raw) :
    Spans (rangeExtent hasWiiHashes dataOffset offset size) (raw / clusterSize) := by
  have hcluster : ∀ first last, first ≤ raw → raw < last → Spans (first, last) (raw / clusterSize) :=
    fun first last hle hlt =>
      ⟨Nat.div_le_div_right hle, Nat.lt_of_le_of_lt (Nat.div_mul_le_self _ _) hlt⟩
  unfold rangeExtent
  split
  case isTrue hzero =>
    have hraw : raw = byte := by
      cases partition with
      | none => exact occupies_none hoccupies
      | some p =>
        cases hasWiiHashes with
        | true => exact absurd hzero (hhashes (by simp) rfl)
        | false => rw [occupies_unhashed hoccupies, hzero, Nat.zero_add]
    exact hcluster _ _ (by omega) (by omega)
  case isFalse hne =>
    rw [if_neg (by omega)]
    cases partition with
    | none => exact absurd (hnone rfl) hne
    | some p =>
      cases hasWiiHashes with
      | true =>
        have hblock := occupies_hashed hoccupies
        have hlow : offset / 0x7c00 ≤ byte / 0x7c00 := Nat.div_le_div_right hfirst
        have hhigh : byte / 0x7c00 ≤ (offset + size - 1) / 0x7c00 :=
          Nat.div_le_div_right (by omega)
        refine hcluster _ _ ?_ ?_
        · show offset / 0x7c00 * clusterSize + dataOffset ≤ raw
          unfold clusterSize
          omega
        · show raw < (offset + size - 1) / 0x7c00 * clusterSize + clusterSize + dataOffset
          unfold clusterSize
          omega
      | false =>
        have heq := occupies_unhashed hoccupies
        have hlow := alignDown_le offset clusterSize
        have hhigh : offset + size - 1 < alignDown (offset + size - 1) clusterSize + clusterSize :=
          lt_alignDown_add (by decide)
        refine hcluster _ _ ?_ ?_
        · show alignDown offset clusterSize + dataOffset ≤ raw
          omega
        · show raw < alignDown (offset + size - 1) clusterSize + clusterSize + dataOffset
          omega

/-! ### What is walked -/

inductive FileInfo.Holds : FileInfo → Nat → Nat → Prop
  | file (offset size : Nat) : Holds (.file offset size) offset size
  | entry {entries : List FileInfo} {entry : FileInfo} {offset size : Nat} :
      entry ∈ entries → Holds entry offset size → Holds (.directory entries) offset size

theorem holds_of_mem_parse (partition : Option Nat) (dataOffset : Nat) :
    (∀ entry, ∀ m ∈ parseEntry partition dataOffset entry,
      ∃ offset size, entry.Holds offset size ∧ m = .usedE partition dataOffset offset size) ∧
    ∀ entries, ∀ m ∈ parseFileSystemData partition dataOffset entries,
      ∃ entry ∈ entries, ∃ offset size, entry.Holds offset size ∧
        m = .usedE partition dataOffset offset size := by
  refine parseEntry.mutual_induct
    (fun entry => ∀ m ∈ parseEntry partition dataOffset entry,
      ∃ offset size, entry.Holds offset size ∧ m = .usedE partition dataOffset offset size)
    (fun entries => ∀ m ∈ parseFileSystemData partition dataOffset entries,
      ∃ entry ∈ entries, ∃ offset size, entry.Holds offset size ∧
        m = .usedE partition dataOffset offset size) ?_ ?_ ?_ ?_
  · intro offset size m hm
    rw [parseEntry] at hm
    exact ⟨offset, size, .file offset size, List.mem_singleton.1 hm⟩
  · intro entries ih m hm
    rw [parseEntry] at hm
    obtain ⟨entry, hentry, offset, size, hholds, heq⟩ := ih m hm
    exact ⟨offset, size, .entry hentry hholds, heq⟩
  · intro m hm
    rw [parseFileSystemData] at hm
    exact absurd hm List.not_mem_nil
  · intro entry entries ihfirst ihrest m hm
    rw [parseFileSystemData] at hm
    rcases List.mem_append.1 hm with hm | hm
    · exact ⟨entry, List.mem_cons_self .., ihfirst m hm⟩
    · obtain ⟨entry', hentry', hheld⟩ := ihrest m hm
      exact ⟨entry', List.mem_cons_of_mem _ hentry', hheld⟩

theorem mem_parseFileSystemData {partition : Option Nat} {dataOffset : Nat} {m : Mark}
    {entries : List FileInfo} {entry : FileInfo} (hentry : entry ∈ entries)
    (hm : m ∈ parseEntry partition dataOffset entry) :
    m ∈ parseFileSystemData partition dataOffset entries := by
  induction entries with
  | nil => exact absurd hentry List.not_mem_nil
  | cons first entries ih =>
    rw [parseFileSystemData]
    rcases List.mem_cons.1 hentry with rfl | hentry
    · exact List.mem_append_left _ hm
    · exact List.mem_append_right _ (ih hentry)

theorem mem_parseEntry {partition : Option Nat} {dataOffset offset size : Nat} {root : FileInfo}
    (h : root.Holds offset size) :
    .usedE partition dataOffset offset size ∈ parseEntry partition dataOffset root := by
  induction h with
  | file offset size =>
    rw [parseEntry]
    exact List.mem_singleton.2 rfl
  | entry hentry _ ih =>
    rw [parseEntry]
    exact mem_parseFileSystemData hentry ih

/-- The ranges of a partition that `ParsePartitionData` takes to be in use. -/
inductive Volume.Uses (disc : Volume) (partition : Option Nat) : Nat → Nat → Prop
  | file {root : FileInfo} {offset size : Nat} : disc.getFileSystem partition = some root →
      root.Holds offset size → Uses disc partition offset size
  | apploader {size trailerSize : BitVec 32} :
      disc.readSwapped (0x2440 + 0x14) partition = some size →
      disc.readSwapped (0x2440 + 0x18) partition = some trailerSize →
      Uses disc partition 0 (0x2440 + size + trailerSize).toNat
  | dol {offset size : Nat} : disc.getBootDOLOffset partition = some offset →
      disc.getBootDOLSize partition offset = some size → Uses disc partition offset size
  | fst {offset size : Nat} : disc.getFSTOffset partition = some offset →
      disc.getFSTSize partition = some size → Uses disc partition offset size

/-- What is marked for a partition: its ranges, and the tables before it on the disc. -/
inductive Volume.Marks (disc : Volume) : Option Nat → Mark → Prop
  | range {partition : Option Nat} {dataOffset offset size : Nat} :
      partitionDataOffset disc partition = some dataOffset → disc.Uses partition offset size →
      Marks disc partition (.usedE partition dataOffset offset size)
  | ticket {p : Nat} : Marks disc (some p) (.used p 0x2c0)
  | tmd {p offset : Nat} {size : BitVec 32} : disc.readSwapped (p + 0x2a4) none = some size →
      disc.readSwappedAndShifted none (p + 0x2a8) = some offset →
      Marks disc (some p) (.used (p + offset) size.toNat)
  | certChain {p offset : Nat} {size : BitVec 32} : disc.readSwapped (p + 0x2ac) none = some size →
      disc.readSwappedAndShifted none (p + 0x2b0) = some offset →
      Marks disc (some p) (.used (p + offset) size.toNat)
  | h3 {p offset : Nat} : disc.readSwappedAndShifted none (p + 0x2b4) = some offset →
      Marks disc (some p) (.used (p + offset) 0x18000)

def Walked (disc : Volume) (partitions : List (Option Nat)) (marks : List Mark) : Prop :=
  ∀ m, m ∈ marks ↔ ∃ partition ∈ partitions, disc.Marks partition m

theorem Walked.append {disc : Volume} {ps qs : List (Option Nat)} {ms ns : List Mark}
    (hps : Walked disc ps ms) (hqs : Walked disc qs ns) : Walked disc (ps ++ qs) (ms ++ ns) := by
  intro m
  simp only [List.mem_append, hps m, hqs m, or_and_right, exists_or]

theorem mem_parsePartitionData {disc : Volume} {partition : Option Nat} {marks : List Mark}
    (h : parsePartitionData disc partition = some marks) (m : Mark) :
    m ∈ marks ↔ ∃ dataOffset offset size, partitionDataOffset disc partition = some dataOffset ∧
      disc.Uses partition offset size ∧ m = .usedE partition dataOffset offset size := by
  simp only [parsePartitionData, Option.bind_eq_bind, Option.bind_eq_some_iff,
    Option.some.injEq] at h
  obtain ⟨root, hroot, dataOffset, hdata, apploader, happloader, trailer, htrailer, dol, hdol,
    dolSize, hdolSize, fst, hfst, fstSize, hfstSize, rfl⟩ := h
  constructor
  · intro hm
    rcases List.mem_append.1 hm with hm | hm
    · simp only [List.mem_cons, List.not_mem_nil, or_false] at hm
      rcases hm with rfl | rfl | rfl
      · exact ⟨_, _, _, hdata, .apploader happloader htrailer, rfl⟩
      · exact ⟨_, _, _, hdata, .dol hdol hdolSize, rfl⟩
      · exact ⟨_, _, _, hdata, .fst hfst hfstSize, rfl⟩
    · obtain ⟨offset, size, hholds, heq⟩ := (holds_of_mem_parse partition dataOffset).1 root m hm
      exact ⟨_, _, _, hdata, .file hroot hholds, heq⟩
  · rintro ⟨dataOffset', offset, size, hdata', huses, rfl⟩
    cases hdata.symm.trans hdata'
    cases huses with
    | file hroot' hholds =>
      cases hroot.symm.trans hroot'
      exact List.mem_append_right _ (mem_parseEntry hholds)
    | apploader happloader' htrailer' =>
      cases happloader.symm.trans happloader'
      cases htrailer.symm.trans htrailer'
      exact List.mem_append_left _ (by simp)
    | dol hdol' hdolSize' =>
      cases hdol.symm.trans hdol'
      cases hdolSize.symm.trans hdolSize'
      exact List.mem_append_left _ (by simp)
    | fst hfst' hfstSize' =>
      cases hfst.symm.trans hfst'
      cases hfstSize.symm.trans hfstSize'
      exact List.mem_append_left _ (by simp)

theorem walked_none {disc : Volume} {marks : List Mark}
    (h : parsePartitionData disc none = some marks) : Walked disc [none] marks := by
  intro m
  rw [mem_parsePartitionData h]
  constructor
  · rintro ⟨dataOffset, offset, size, hdata, huses, rfl⟩
    exact ⟨none, List.mem_singleton.2 rfl, .range hdata huses⟩
  · rintro ⟨partition, hp, hm⟩
    cases List.mem_singleton.1 hp
    cases hm with
    | range hdata huses => exact ⟨_, _, _, hdata, huses, rfl⟩

theorem walked_parsePartition {disc : Volume} {offset : Nat} {marks : List Mark}
    (h : parsePartition disc offset = some marks) : Walked disc [some offset] marks := by
  simp only [parsePartition, Option.bind_eq_bind, Option.bind_eq_some_iff, Option.some.injEq] at h
  obtain ⟨tmdSize, htmdSize, tmdOffset, htmd, certSize, hcertSize, certOffset, hcert, h3Offset, hh3,
    data, hdata, rfl⟩ := h
  intro m
  rw [List.mem_append, mem_parsePartitionData hdata]
  constructor
  · rintro (hm | ⟨dataOffset, start, size, hstart, huses, rfl⟩)
    · refine ⟨some offset, List.mem_singleton.2 rfl, ?_⟩
      simp only [List.mem_cons, List.not_mem_nil, or_false] at hm
      rcases hm with rfl | rfl | rfl | rfl
      · exact .ticket
      · exact .tmd htmdSize htmd
      · exact .certChain hcertSize hcert
      · exact .h3 hh3
    · exact ⟨some offset, List.mem_singleton.2 rfl, .range hstart huses⟩
  · rintro ⟨partition, hp, hm⟩
    cases List.mem_singleton.1 hp
    cases hm with
    | range hstart huses => exact .inr ⟨_, _, _, hstart, huses, rfl⟩
    | ticket => exact .inl (by simp)
    | tmd hsize hoffset =>
      cases htmdSize.symm.trans hsize
      cases htmd.symm.trans hoffset
      exact .inl (by simp)
    | certChain hsize hoffset =>
      cases hcertSize.symm.trans hsize
      cases hcert.symm.trans hoffset
      exact .inl (by simp)
    | h3 hoffset =>
      cases hh3.symm.trans hoffset
      exact .inl (by simp)

theorem walked_mapM {disc : Volume} {offsets : List Nat} {marks : List (List Mark)}
    (h : offsets.mapM (parsePartition disc) = some marks) :
    Walked disc (offsets.map some) marks.flatten := by
  induction offsets generalizing marks with
  | nil =>
    cases h
    exact fun m => iff_of_false List.not_mem_nil fun h => List.not_mem_nil h.choose_spec.1
  | cons offset offsets ih =>
    simp only [List.mapM_cons, Option.bind_eq_bind, Option.pure_def, Option.bind_eq_some_iff,
      Option.some.injEq] at h
    obtain ⟨first, hfirst, rest, hrest, rfl⟩ := h
    exact (walked_parsePartition hfirst).append (ih hrest)

/-- What `ParseDisc` calls `ParsePartitionData` for. -/
def Volume.parsedPartitions (disc : Volume) : List (Option Nat) :=
  if disc.getPartitions = [] then [none] else disc.getPartitions.map some

/-- What is marked on a disc: the header of a disc with partitions, and what is for each of them. -/
def Volume.IsMarked (disc : Volume) (m : Mark) : Prop :=
  disc.getPartitions ≠ [] ∧ m = .used 0 0x50000 ∨
    ∃ partition ∈ disc.parsedPartitions, disc.Marks partition m

theorem mem_parseDisc {disc : Volume} {marks : List Mark} (h : parseDisc disc = some marks)
    (m : Mark) : m ∈ marks ↔ disc.IsMarked m := by
  unfold parseDisc at h
  unfold Volume.IsMarked Volume.parsedPartitions
  split at h
  case isTrue hnone =>
    rw [if_pos hnone, or_iff_right fun hsome => hsome.1 hnone]
    exact walked_none h m
  case isFalse hsome =>
    obtain ⟨lists, hlists, rfl⟩ := Option.map_eq_some_iff.1 h
    rw [if_neg hsome, List.mem_cons, and_iff_right hsome, walked_mapM hlists m]

/-! ### What is kept -/

def Volume.Reached (disc : Volume) (i : Nat) : Prop :=
  ∃ m, disc.IsMarked m ∧ Spans (m.extent disc.hasWiiHashes) i

theorem canBlockBeScrubbed_eq_false_iff_reached {disc : Volume} {marks : List Mark} {raw : Nat}
    (hparse : parseDisc disc = some marks) (hraw : raw < disc.getDataSize) :
    canBlockBeScrubbed (setupScrub disc) raw = false ↔ disc.Reached (raw / clusterSize) := by
  rw [canBlockBeScrubbed_eq_false_iff hparse hraw]
  exact exists_congr fun m => and_congr_left' (mem_parseDisc hparse m)

/-- A range that is in use: one that is marked, or the whole apploader. -/
inductive Volume.InUse (disc : Volume) (partition : Option Nat) : Nat → Nat → Prop
  | passed {offset size : Nat} : disc.Uses partition offset size → InUse disc partition offset size
  | apploader {size : Nat} : disc.getApploaderSize partition = some size →
      InUse disc partition 0x2440 size

/-- No raw offset that a byte in use needs may be scrubbed. -/
def Volume.Sound (disc : Volume) : Prop :=
  ∀ partition ∈ disc.parsedPartitions, ∀ dataOffset,
    partitionDataOffset disc partition = some dataOffset →
    ∀ offset size, disc.InUse partition offset size →
    ∀ byte raw, offset ≤ byte → byte < offset + size →
      Occupies disc.hasWiiHashes partition dataOffset byte raw → raw < disc.getDataSize →
        canBlockBeScrubbed (setupScrub disc) raw = false

/-- A byte in use whose own range is not marked where it is: any of a partition with hashes and its
    data at 0, and those of the apploader behind what `ParsePartitionData` counts. -/
def Volume.Missed (disc : Volume) (partition : Option Nat) (dataOffset byte : Nat) : Prop :=
  (partition ≠ none ∧ disc.hasWiiHashes = true ∧ dataOffset = 0 ∧
    ∃ offset size, disc.InUse partition offset size ∧ offset ≤ byte ∧ byte < offset + size) ∨
  ∃ size trailerSize : BitVec 32, disc.readSwapped (0x2440 + 0x14) partition = some size ∧
    disc.readSwapped (0x2440 + 0x18) partition = some trailerSize ∧
      (0x2440 + size + trailerSize).toNat ≤ byte ∧ 0x2440 ≤ byte ∧
        byte < 0x2440 + (0x20 + size.toNat + trailerSize.toNat)

theorem getApploaderSize_eq_some {disc : Volume} {partition : Option Nat} {n : Nat} :
    disc.getApploaderSize partition = some n ↔ ∃ size trailerSize : BitVec 32,
      disc.readSwapped (0x2440 + 0x14) partition = some size ∧
        disc.readSwapped (0x2440 + 0x18) partition = some trailerSize ∧
          0x20 + size.toNat + trailerSize.toNat = n := by
  simp only [Volume.getApploaderSize, Option.bind_eq_bind, Option.bind_eq_some_iff,
    Option.some.injEq, exists_and_left]

theorem Volume.Missed.inUse {disc : Volume} {partition : Option Nat} {dataOffset byte : Nat}
    (h : disc.Missed partition dataOffset byte) :
    ∃ offset size, disc.InUse partition offset size ∧ offset ≤ byte ∧ byte < offset + size := by
  rcases h with ⟨-, -, -, hrange⟩ | ⟨size, trailerSize, hsize, htrailer, -, hfirst, hlast⟩
  · exact hrange
  · exact ⟨_, _, .apploader (getApploaderSize_eq_some.2 ⟨size, trailerSize, hsize, htrailer, rfl⟩),
      hfirst, hlast⟩

theorem reached_of_not_missed {disc : Volume} {partition : Option Nat}
    {dataOffset offset size byte raw : Nat} (hpartition : partition ∈ disc.parsedPartitions)
    (hdata : partitionDataOffset disc partition = some dataOffset)
    (huse : disc.InUse partition offset size) (hfirst : offset ≤ byte) (hlast : byte < offset + size)
    (hnot : ¬ disc.Missed partition dataOffset byte)
    (hoccupies : Occupies disc.hasWiiHashes partition dataOffset byte raw) :
    disc.Reached (raw / clusterSize) := by
  have hpassed : ∃ offset size, disc.Uses partition offset size ∧ offset ≤ byte ∧
      byte < offset + size := by
    cases huse with
    | passed huses => exact ⟨offset, size, huses, hfirst, hlast⟩
    | apploader hsize =>
      obtain ⟨apploaderSize, trailerSize, hread, htrailer, rfl⟩ := getApploaderSize_eq_some.1 hsize
      refine ⟨_, _, .apploader hread htrailer, Nat.zero_le _, ?_⟩
      by_contra hge
      exact hnot (.inr ⟨apploaderSize, trailerSize, hread, htrailer, by omega, hfirst, hlast⟩)
  obtain ⟨offset', size', huses, hfirst', hlast'⟩ := hpassed
  refine ⟨_, .inr ⟨partition, hpartition, .range hdata huses⟩, spans_rangeExtent ?_ ?_ hfirst' hlast'
    hoccupies⟩
  · rintro rfl
    exact (Option.some.inj hdata).symm
  · exact fun hsome hhashes hzero =>
      hnot (.inl ⟨hsome, hhashes, hzero, offset, size, huse, hfirst, hlast⟩)

/-- A disc is scrubbed soundly just if each raw offset below its end that a missed byte needs is in
    a cluster that something marked reaches. -/
theorem setupScrub_sound_iff {disc : Volume} {marks : List Mark}
    (hparse : parseDisc disc = some marks) :
    disc.Sound ↔ ∀ partition ∈ disc.parsedPartitions, ∀ dataOffset,
      partitionDataOffset disc partition = some dataOffset →
      ∀ byte raw, disc.Missed partition dataOffset byte →
        Occupies disc.hasWiiHashes partition dataOffset byte raw → raw < disc.getDataSize →
          disc.Reached (raw / clusterSize) := by
  constructor
  · intro hsound partition hpartition dataOffset hdata byte raw hmissed hoccupies hraw
    obtain ⟨offset, size, huse, hfirst, hlast⟩ := hmissed.inUse
    exact (canBlockBeScrubbed_eq_false_iff_reached hparse hraw).1
      (hsound partition hpartition dataOffset hdata offset size huse byte raw hfirst hlast hoccupies
        hraw)
  · intro hreached partition hpartition dataOffset hdata offset size huse byte raw hfirst hlast
      hoccupies hraw
    refine (canBlockBeScrubbed_eq_false_iff_reached hparse hraw).2 ?_
    by_cases hmissed : disc.Missed partition dataOffset byte
    · exact hreached partition hpartition dataOffset hdata byte raw hmissed hoccupies hraw
    · exact reached_of_not_missed hpartition hdata huse hfirst hlast hmissed hoccupies

/-- A disc with hashes and one partition that begins at `offset` and has its data there, with an
    apploader of 0x20 bytes and one file. -/
def onePartition (offset : Nat) : Volume where
  isDisc := true
  getDataSize := 0x200000
  getOffsetShift := 2
  hasWiiHashes := true
  getPartitions := [offset]
  readSwapped offset partition := some (if partition ≠ none ∧ offset = 0x420 then 0x900 else 0)
  getFileSystem _ := some (.directory [.file 0x136000 1])

def marksOf (offset : Nat) : List Mark :=
  [.used 0 0x50000, .used offset 0x2c0, .used offset 0, .used offset 0, .used offset 0x18000,
    .usedE (some offset) offset 0 0x2440, .usedE (some offset) offset 0x2400 0,
    .usedE (some offset) offset 0 0, .usedE (some offset) offset 0x136000 1]

theorem parseDisc_onePartition (offset : Nat) :
    parseDisc (onePartition offset) = some (marksOf offset) := by
  have hoffset : (onePartition offset).getBootDOLOffset (some offset) = some 0x2400 := rfl
  have hsize : (onePartition offset).getBootDOLSize (some offset) 0x2400 = some 0 := rfl
  have hdata : parsePartitionData (onePartition offset) (some offset) =
      some ((marksOf offset).drop 5) := by
    simp only [parsePartitionData, hoffset, hsize, Option.bind_eq_bind, Option.bind_some]
    simp [onePartition, Volume.getFSTOffset, Volume.getFSTSize, Volume.readSwappedAndShifted,
      partitionDataOffset, parseEntry, parseFileSystemData, marksOf]
  have hpartition : parsePartition (onePartition offset) offset =
      some ((marksOf offset).drop 1) := by
    simp only [parsePartition, hdata, Option.bind_eq_bind, Option.bind_some]
    simp [onePartition, Volume.readSwappedAndShifted, marksOf]
  have hpartitions : (onePartition offset).getPartitions = [offset] := rfl
  simp [parseDisc, hpartitions, hpartition, marksOf]

/-- The end of the apploader shares its block with the rest of it. -/
theorem setupScrub_sound_iff_onePartition : (onePartition 0x50000).Sound := by
  refine (setupScrub_sound_iff (parseDisc_onePartition 0x50000)).2 ?_
  intro partition hpartition dataOffset hdata byte raw hmissed hoccupies hraw
  cases List.mem_singleton.1 hpartition
  obtain rfl : 0x50000 = dataOffset := Option.some.inj hdata
  rcases hmissed with ⟨-, -, hzero, -⟩ | ⟨size, trailerSize, hsize, htrailer, -, hfirst, hlast⟩
  · exact absurd hzero (by decide)
  · obtain rfl : 0 = size := Option.some.inj hsize
    obtain rfl : 0 = trailerSize := Option.some.inj htrailer
    have hblock := occupies_hashed hoccupies
    have hbyte : byte / 0x7c00 = 0 := Nat.div_eq_of_lt (Nat.lt_trans hlast (by decide))
    rw [hbyte] at hblock
    have hneeds : Occupies true (some 0x50000) 0x50000 0 raw := .inr ⟨by simp, rfl, hblock⟩
    refine ⟨.usedE (some 0x50000) 0x50000 0 0x2440,
      (mem_parseDisc (parseDisc_onePartition 0x50000) _).1 (by simp [marksOf]), ?_⟩
    exact spans_rangeExtent (by simp) (fun _ _ => by decide) (Nat.zero_le 0) (by decide) hneeds

/-- A disc without partitions whose apploader, after its header, has a size that leaves the end of
    it in a cluster of its own. -/
def longApploader : Volume where
  isDisc := true
  getDataSize := 0x20000
  getOffsetShift := 0
  hasWiiHashes := false
  getPartitions := []
  readSwapped offset _ :=
    some (if offset = 0x2454 then 0x5bc0 else if offset = 0x420 then 0x10000 else 0)
  getFileSystem _ := some (.directory [.file 0x18000 1])

theorem longApploader_not_sound :
    ¬ ∀ (disc : Volume) (marks : List Mark), parseDisc disc = some marks → disc.Sound := by
  intro h
  have hparse : parseDisc longApploader = some [.usedE none 0 0 0x8000, .usedE none 0 0x10000 0,
      .usedE none 0 0 0, .usedE none 0 0x18000 1] := rfl
  have hkept := h longApploader _ hparse none (List.mem_singleton.2 rfl) 0 rfl 0x2440 0x5be0
    (.apploader rfl) 0x8000 0x8000 (by decide) (by decide) (.inl rfl) (by decide)
  have hscrubbed : canBlockBeScrubbed (setupScrub longApploader) 0x8000 = true := by
    decide +kernel
  exact absurd (hscrubbed.symm.trans hkept) (by decide)

end DolphinXR.DiscIO.DiscScrubber
