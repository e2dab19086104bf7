import Mathlib.Data.List.Sort
import Mathlib.Tactic.Ring
import DolphinXR.Common.Align
import DolphinXR.Lib.Span

/- The virtual disc a Wii directory blob lays out (DiscIO/DirectoryBlob.cpp,
   `SetPartitions` and `SetPartitionHeader`). Every partition gets a ticket, a
   0x1c-byte partition header, a TMD, a certificate chain, an H3 table and its
   encrypted data, each added to `m_nonpartition_contents` as one range;
   `DiscContentContainer` takes for granted that they do not overlap.

   `setPartitions_disjoint_iff` says exactly when they do not. `maxTmdSize`
   (0x49e4) lets a TMD run past the H3 table at 0x4000, where `H3_OFFSET -
   cert_offset` also wraps, so the certificates are not cut either.

   Sizes are natural numbers; the one subtraction that can wrap is taken modulo
   2^64. Left out: the partition's key, the wrapped volume's reads and the
   bytes of the tables other than the words written with `Write32`. -/
namespace DolphinXR.DiscIO.DirectoryBlob
open Common Lib

/-! Constants of DirectoryBlob.cpp, DiscUtils.h, VolumeWii.h and ES/Formats.h. -/

def wiiPartitionTicketAddress : Nat := 0
def wiiPartitionTicketSize : Nat := 0x2a4
def wiiPartitionH3Size : Nat := 0x18000
def partitionDataOffset : Nat := 0x20000
def tmdOffset : Nat := 0x2c0
def h3Offset : Nat := 0x4000
def partitionHeaderSize : Nat := 0x1c
def maxTmdSize : Nat := 0x49e4
def blockDataSize : Nat := 0x7C00
def blockTotalSize : Nat := 0x8000
def partitionTableAddress : Nat := 0x40000
def partitionSubtable1Offset : Nat := 0x20
def partitionSubtable2Offset : Nat := 0x40
def standardUpdatePartitionAddress : Nat := 0x50000
def standardGamePartitionAddress : Nat := 0xF800000

/-- `PartitionType`: an arbitrary 32-bit number, three of which have names. -/
abbrev PartitionType := Nat

def PartitionType.game : PartitionType := 0
def PartitionType.update : PartitionType := 1
def PartitionType.channel : PartitionType := 2

inductive ContentSource where
  | file (filename : String) (offset : Nat)
  | memory (bytes : List UInt8)
  | words (writes : List (Nat × Nat))
  | partition (offset partitionDataOffset : Nat)
  | volume (offset partition : Nat)
  | fixedByte (byte : UInt8)
  deriving Repr

structure DiscContent where
  offset : Nat
  size : Nat
  source : ContentSource

def DiscContent.span (c : DiscContent) : Span := ⟨c.offset, c.size⟩

/-- `DiscContentContainer::Add`, as the ranges it contributes: an empty one is
    dropped. -/
def add (offset size : Nat) (source : ContentSource) : List DiscContent :=
  if size ≠ 0 then [⟨offset, size, source⟩] else []

/-- A partition of the disc that the blob wraps: the bytes of its ticket, TMD and
    certificate chain, and its H3 table where the volume has hashes and the
    table could be read. -/
structure WrappedPartition where
  ticket : List UInt8
  tmd : List UInt8
  certificateChain : List UInt8
  h3 : Option {bytes : List UInt8 // bytes.length = wiiPartitionH3Size}

/-- A partition as `SetPartitions` receives it. `BuildFST` has already run, so its
    data size is not zero. -/
structure DirectoryBlobPartition where
  rootDirectory : String
  dataSize : Nat
  wrapped : Option WrappedPartition
  dataSize_pos : 0 < dataSize

structure PartitionWithType where
  partition : DirectoryBlobPartition
  type : PartitionType

/-- `File::GetSize`: 0 for a file that is not there. -/
abbrev FileSizes := String → Nat

/-! ### The sizes of the header's parts -/

section
variable (getSize : FileSizes) (p : DirectoryBlobPartition)

/-- The bytes a header part offers: those of the wrapped volume, or the size of
    the file of that name. -/
def available (part : WrappedPartition → List UInt8) (name : String) : Nat :=
  match p.wrapped with
  | some w => (part w).length
  | none => getSize (p.rootDirectory ++ name)

def ticketSize : Nat :=
  min (available getSize p WrappedPartition.ticket "ticket.bin") wiiPartitionTicketSize

def tmdSize : Nat := min (available getSize p WrappedPartition.tmd "tmd.bin") maxTmdSize

def certOffset : Nat := alignUp (tmdOffset + tmdSize getSize p) 0x20

/-- `H3_OFFSET - cert_offset` on 64-bit words. -/
def maxCertSize : Nat := (h3Offset + 2 ^ 64 - certOffset getSize p) % 2 ^ 64

def certAvailable : Nat := available getSize p WrappedPartition.certificateChain "cert.bin"

def certSize : Nat := min (certAvailable getSize p) (maxCertSize getSize p)

def h3Size : Nat :=
  match p.wrapped with
  | some w => match w.h3 with
    | some h3 => h3.1.length
    | none => 0
  | none => min (getSize (p.rootDirectory ++ "h3.bin")) wiiPartitionH3Size

/-- The source of a header part: cut to its size in memory, or the file. -/
def partSource (part : WrappedPartition → List UInt8) (name : String) (size : Nat) :
    ContentSource :=
  match p.wrapped with
  | some w => .memory ((part w).take size)
  | none => .file (p.rootDirectory ++ name) 0

/-- The words of the partition header, `(offset, value)` each. -/
def partitionHeader : List (Nat × Nat) :=
  [(0x0, tmdSize getSize p % 2 ^ 32), (0x4, tmdOffset / 4),
   (0x8, certSize getSize p % 2 ^ 32), (0xC, certOffset getSize p / 4 % 2 ^ 32),
   (0x10, h3Offset / 4), (0x14, partitionDataOffset / 4),
   (0x18, alignUp p.dataSize 0x7c00 / 0x7c00 * 0x8000 / 4 % 2 ^ 32)]

/-- `SetPartitionHeader`: the ranges it adds for a partition at `address`. -/
def setPartitionHeader (address : Nat) : List DiscContent :=
  add (address + wiiPartitionTicketAddress) (ticketSize getSize p)
    (partSource p WrappedPartition.ticket "ticket.bin" (ticketSize getSize p)) ++
  (add (address + tmdOffset) (tmdSize getSize p)
    (partSource p WrappedPartition.tmd "tmd.bin" (tmdSize getSize p)) ++
  (add (address + certOffset getSize p) (certSize getSize p)
    (partSource p WrappedPartition.certificateChain "cert.bin" (certSize getSize p)) ++
  (add (address + h3Offset) (h3Size getSize p)
    (partSource p (fun w => (w.h3.map (·.1)).getD []) "h3.bin" (h3Size getSize p)) ++
  add (address + wiiPartitionTicketSize) partitionHeaderSize
    (.words (partitionHeader getSize p)))))

end

/-! ### The partitions one after the other -/

/-- `OffsetInHashedPartitionToRawOffset` for a partition other than
    `PARTITION_NONE`. -/
def offsetInHashedPartitionToRawOffset (offset partitionOffset dataOffset : Nat) : Nat :=
  partitionOffset + dataOffset + offset / blockDataSize * blockTotalSize + offset % blockDataSize

/-- The order `SetPartitions` sorts by: ascending by type, except that Update (1)
    comes before Game (0), and by root directory within a type. -/
def partitionLess (lhs rhs : PartitionWithType) : Bool :=
  if lhs.type = rhs.type then
    decide (lhs.partition.rootDirectory < rhs.partition.rootDirectory)
  else if lhs.type > PartitionType.update ∨ rhs.type > PartitionType.update then
    decide (lhs.type < rhs.type)
  else
    decide (lhs.type > rhs.type)

/-- The number of entries of the first subtable: at most three leading partitions
    whose type is at most Channel. -/
def subtable1Size (partitions : List PartitionWithType) : Nat :=
  ((partitions.take 3).takeWhile (fun p => decide (p.type ≤ PartitionType.channel))).length

/-- What the loop of `SetPartitions` carries and collects. -/
structure Layout where
  address : Nat
  offsetInTable : Nat
  contents : List DiscContent
  table : List (Nat × Nat)
  partitions : List (Nat × Nat)

/-- Where a partition of the given type goes when `address` is free. -/
def partitionAddress (type : PartitionType) (address : Nat) : Nat :=
  if type = PartitionType.game then max address standardGamePartitionAddress else address

/-- The data size `SetPartitions` gives the partition: whole blocks. -/
def alignedDataSize (p : DirectoryBlobPartition) : Nat := alignUp p.dataSize blockDataSize

def encryptedDataSize (p : DirectoryBlobPartition) : Nat :=
  alignedDataSize p / blockDataSize * blockTotalSize

/-- The ranges one turn of the loop adds. -/
def partitionContents (getSize : FileSizes) (p : DirectoryBlobPartition) (address : Nat) :
    List DiscContent :=
  setPartitionHeader getSize p address ++
    add (address + partitionDataOffset) (encryptedDataSize p)
      (.partition 0 (address + partitionDataOffset))

def nextPartitionAddress (p : DirectoryBlobPartition) (address : Nat) : Nat :=
  alignUp (offsetInHashedPartitionToRawOffset (alignedDataSize p) address partitionDataOffset)
    0x10000

/-- One turn of the loop, for the partition with index `i`. -/
def placePartition (getSize : FileSizes) (subtable1 : Nat) (l : Layout) (i : Nat)
    (p : PartitionWithType) : Layout :=
  let offsetInTable := if i = subtable1 then partitionSubtable2Offset else l.offsetInTable
  let address := partitionAddress p.type l.address
  { address := nextPartitionAddress p.partition address
    offsetInTable := offsetInTable + 8
    contents := l.contents ++ partitionContents getSize p.partition address
    table := l.table ++ [(offsetInTable, address / 4 % 2 ^ 32), (offsetInTable + 4, p.type)]
    partitions := l.partitions ++ [(address + partitionDataOffset, alignedDataSize p.partition)] }

/-- The loop over the sorted partitions from index `i` on. -/
def placePartitions (getSize : FileSizes) (subtable1 : Nat) (l : Layout) (i : Nat)
    (ps : List PartitionWithType) : Layout :=
  (ps.zipIdx i).foldl (fun l q => placePartition getSize subtable1 l q.2 q.1) l

/-- The words that head the partition table. -/
def partitionTableHead (subtable1 subtable2 : Nat) : List (Nat × Nat) :=
  [(0x0, subtable1), (0x4, (partitionTableAddress + partitionSubtable1Offset) / 4)] ++
    if subtable2 ≠ 0 then
      [(0x8, subtable2), (0xC, (partitionTableAddress + partitionSubtable2Offset) / 4)]
    else []

/-- The loop of `SetPartitions` over the sorted partitions, from the standard
    address of the update partition on. -/
def placeAllPartitions (getSize : FileSizes) (partitions : List PartitionWithType) : Layout :=
  let sorted := partitions.mergeSort (fun a b => !partitionLess b a)
  let subtable1 := subtable1Size sorted
  placePartitions getSize subtable1
    { address := standardUpdatePartitionAddress
      offsetInTable := partitionSubtable1Offset
      contents := []
      table := partitionTableHead subtable1 (sorted.length - subtable1)
      partitions := [] } 0 sorted

/-- `SetPartitions`: the partitions' ranges, then the partition table's. The last
    free address is the size of the disc. -/
def setPartitions (getSize : FileSizes) (partitions : List PartitionWithType) : Layout :=
  let l := placeAllPartitions getSize partitions
  let sorted := partitions.mergeSort (fun a b => !partitionLess b a)
  let size := partitionSubtable2Offset + (sorted.length - subtable1Size sorted) * 8
  { l with contents := l.contents ++ add partitionTableAddress size (.words l.table) }

/-! ### One partition's ranges -/

/-- Exactly when the header parts of one partition leave room for each other: the
    TMD ends at or before the H3 table's place, or there is no H3 table and the
    certificates end at or before the encrypted data. -/
def HeaderFits (getSize : FileSizes) (p : DirectoryBlobPartition) : Prop :=
  tmdOffset + available getSize p WrappedPartition.tmd "tmd.bin" ≤ h3Offset ∨
  (h3Size getSize p = 0 ∧ (certAvailable getSize p = 0 ∨
    certOffset getSize p + certAvailable getSize p ≤ partitionDataOffset))

/-- All the ranges of a partition at `address`, empty ones included. -/
def headerSpans (getSize : FileSizes) (p : DirectoryBlobPartition) (address : Nat) : List Span :=
  [⟨address + wiiPartitionTicketAddress, ticketSize getSize p⟩,
   ⟨address + tmdOffset, tmdSize getSize p⟩,
   ⟨address + certOffset getSize p, certSize getSize p⟩,
   ⟨address + h3Offset, h3Size getSize p⟩,
   ⟨address + wiiPartitionTicketSize, partitionHeaderSize⟩,
   ⟨address + partitionDataOffset, encryptedDataSize p⟩]

theorem add_span (offset size : Nat) (source : ContentSource) :
    (add offset size source).map DiscContent.span =
      [Span.mk offset size].filter (fun s => s.size ≠ 0) := by
  unfold add
  by_cases h : size = 0 <;> simp [h, DiscContent.span]

theorem partitionContents_spans (getSize : FileSizes) (p : DirectoryBlobPartition)
    (address : Nat) : (partitionContents getSize p address).map DiscContent.span =
      (headerSpans getSize p address).filter (fun s => s.size ≠ 0) := by
  simp only [partitionContents, setPartitionHeader, List.map_append, add_span, headerSpans,
    ← List.filter_append, List.cons_append, List.nil_append]

section
variable (getSize : FileSizes) (p : DirectoryBlobPartition)

theorem ticketSize_le : ticketSize getSize p ≤ wiiPartitionTicketSize := Nat.min_le_right _ _

theorem h3Size_le : h3Size getSize p ≤ wiiPartitionH3Size := by
  unfold h3Size
  split
  · split
    · next h3 _ => exact Nat.le_of_eq h3.2
    · exact Nat.zero_le _
  · exact Nat.min_le_right _ _

theorem le_certOffset : tmdOffset + tmdSize getSize p ≤ certOffset getSize p :=
  le_alignUp (by decide)

theorem certOffset_lt : certOffset getSize p < tmdOffset + tmdSize getSize p + 0x20 :=
  alignUp_lt (by decide)

theorem certOffset_le_h3Offset (h : tmdOffset + tmdSize getSize p ≤ h3Offset) :
    certOffset getSize p ≤ h3Offset :=
  alignUp_le_of_dvd (by decide) (by decide) h

theorem maxCertSize_eq (h : tmdOffset + tmdSize getSize p ≤ h3Offset) :
    maxCertSize getSize p = h3Offset - certOffset getSize p := by
  have := certOffset_le_h3Offset getSize p h
  unfold maxCertSize h3Offset at *
  omega

theorem maxCertSize_wraps (h : h3Offset < tmdOffset + tmdSize getSize p) :
    2 ^ 63 < maxCertSize getSize p := by
  have h1 := le_certOffset getSize p
  have h2 := certOffset_lt getSize p
  have h3 : tmdSize getSize p ≤ maxTmdSize := Nat.min_le_right _ _
  unfold maxCertSize tmdOffset h3Offset maxTmdSize at *
  omega

theorem encryptedDataSize_pos : 0 < encryptedDataSize p := by
  have hpos : 0 < alignedDataSize p := alignUp_pos (by decide) p.dataSize_pos
  obtain ⟨k, hk⟩ : blockDataSize ∣ alignedDataSize p := dvd_alignUp _ _
  unfold encryptedDataSize
  rw [hk] at hpos ⊢
  rw [Nat.mul_div_cancel_left _ (by decide)]
  exact Nat.mul_pos (Nat.pos_of_mul_pos_left hpos) (by decide)

end

/-- With a TMD that ends at or before 0x4000, the six ranges lie one after the
    other: ticket, header, TMD, certificates, H3 table, data. -/
theorem headerSpans_of_tmd_le (getSize : FileSizes) (p : DirectoryBlobPartition) (address : Nat)
    (h : tmdOffset + tmdSize getSize p ≤ h3Offset) :
    (headerSpans getSize p address).Pairwise Span.Disjoint := by
  have hcert := certOffset_le_h3Offset getSize p h
  have hmax := maxCertSize_eq getSize p h
  have hsize : certSize getSize p ≤ maxCertSize getSize p := Nat.min_le_right _ _
  have := le_certOffset getSize p
  have := ticketSize_le getSize p
  have := h3Size_le getSize p
  simp only [headerSpans, List.pairwise_cons, List.mem_cons, List.not_mem_nil, or_false,
    forall_eq_or_imp, forall_eq, Span.disjoint_iff, Span.stop, wiiPartitionTicketAddress,
    wiiPartitionTicketSize, wiiPartitionH3Size, partitionHeaderSize, tmdOffset, h3Offset,
    partitionDataOffset, List.Pairwise.nil, and_true, IsEmpty.forall_iff, implies_true] at *
  omega

/-- With a longer TMD the H3 table has to be missing, and the certificates, which
    are then never cut, have to end before the data by themselves. -/
theorem headerSpans_of_lt_tmd (getSize : FileSizes) (p : DirectoryBlobPartition) (address : Nat)
    (h : h3Offset < tmdOffset + tmdSize getSize p) :
    (headerSpans getSize p address).Pairwise Span.Disjoint ↔
      h3Size getSize p = 0 ∧ (certAvailable getSize p = 0 ∨
        certOffset getSize p + certAvailable getSize p ≤ partitionDataOffset) := by
  have hmax := maxCertSize_wraps getSize p h
  have hsize : certSize getSize p = min (certAvailable getSize p) (maxCertSize getSize p) := rfl
  have htmd : tmdSize getSize p ≤ maxTmdSize := Nat.min_le_right _ _
  have hlo := le_certOffset getSize p
  have hhi := certOffset_lt getSize p
  have hdata := encryptedDataSize_pos p
  constructor
  · intro hd
    simp only [headerSpans, List.pairwise_cons, List.mem_cons, List.not_mem_nil, or_false,
      forall_eq_or_imp, forall_eq] at hd
    obtain ⟨-, ⟨-, htmdH3, -⟩, ⟨-, -, hcertData⟩, -⟩ := hd
    simp only [Span.disjoint_iff, Span.stop, tmdOffset, h3Offset, maxTmdSize,
      partitionDataOffset] at *
    constructor <;> omega
  · rintro ⟨hh3, hcert⟩
    have hcert' : certSize getSize p = 0 ∨
        certOffset getSize p + certSize getSize p ≤ partitionDataOffset := by omega
    have hticket := ticketSize_le getSize p
    clear hcert hsize hmax hdata
    simp only [headerSpans, List.pairwise_cons, List.mem_cons, List.not_mem_nil, or_false,
      forall_eq_or_imp, forall_eq, Span.disjoint_iff, Span.stop, wiiPartitionTicketAddress,
      wiiPartitionTicketSize, partitionHeaderSize, tmdOffset, h3Offset, maxTmdSize, hh3, true_or,
      or_true, true_and, partitionDataOffset, List.Pairwise.nil, and_true, IsEmpty.forall_iff,
      implies_true] at *
    omega

theorem headerSpans_disjoint_iff (getSize : FileSizes) (p : DirectoryBlobPartition)
    (address : Nat) :
    (headerSpans getSize p address).Pairwise Span.Disjoint ↔ HeaderFits getSize p := by
  have hcap : tmdOffset + tmdSize getSize p ≤ h3Offset ↔
      tmdOffset + available getSize p WrappedPartition.tmd "tmd.bin" ≤ h3Offset := by
    unfold tmdSize tmdOffset h3Offset maxTmdSize; omega
  unfold HeaderFits
  rw [← hcap]
  by_cases h : tmdOffset + tmdSize getSize p ≤ h3Offset
  · simp only [h, true_or, iff_true]
    exact headerSpans_of_tmd_le getSize p address h
  · simp only [h, false_or]
    exact headerSpans_of_lt_tmd getSize p address (Nat.lt_of_not_le h)

theorem headerSpans_within (getSize : FileSizes) (p : DirectoryBlobPartition) (address : Nat)
    (h : HeaderFits getSize p) : ∀ s ∈ headerSpans getSize p address, s.size ≠ 0 →
      s.Within address (address + partitionDataOffset + encryptedDataSize p) := by
  have hsize : certSize getSize p ≤ certAvailable getSize p := Nat.min_le_left _ _
  have hsize' : certSize getSize p ≤ maxCertSize getSize p := Nat.min_le_right _ _
  have hcert : certSize getSize p = 0 ∨
      certOffset getSize p + certSize getSize p ≤ partitionDataOffset := by
    rcases h with htmd | ⟨_, hcert⟩
    · have htmd' : tmdOffset + tmdSize getSize p ≤ h3Offset :=
        Nat.le_trans (Nat.add_le_add_left (Nat.min_le_left _ _) _) htmd
      have := maxCertSize_eq getSize p htmd'
      have := certOffset_le_h3Offset getSize p htmd'
      unfold partitionDataOffset h3Offset at *; omega
    · omega
  have htmd : tmdSize getSize p ≤ maxTmdSize := Nat.min_le_right _ _
  have := ticketSize_le getSize p
  have := h3Size_le getSize p
  simp only [headerSpans, List.mem_cons, List.not_mem_nil, or_false, forall_eq_or_imp, forall_eq,
    Span.Within, Span.stop, wiiPartitionTicketAddress, wiiPartitionTicketSize,
    wiiPartitionH3Size, partitionHeaderSize, tmdOffset, h3Offset, maxTmdSize,
    partitionDataOffset] at *
  omega

/-! ### The whole layout -/

/-- The ranges of the partitions, in order, when the first may start at
    `address`. -/
def layoutSpans (getSize : FileSizes) : Nat → List PartitionWithType → List Span
  | _, [] => []
  | address, p :: rest =>
    let start := partitionAddress p.type address
    (headerSpans getSize p.partition start).filter (fun s => s.size ≠ 0) ++
      layoutSpans getSize (nextPartitionAddress p.partition start) rest

theorem placePartitions_spans (getSize : FileSizes) (subtable1 : Nat)
    (ps : List PartitionWithType) : ∀ (l : Layout) (i : Nat),
    (placePartitions getSize subtable1 l i ps).contents.map DiscContent.span =
      l.contents.map DiscContent.span ++ layoutSpans getSize l.address ps := by
  induction ps with
  | nil => intro l i; simp [placePartitions, layoutSpans]
  | cons p rest ih =>
    intro l i
    have := ih (placePartition getSize subtable1 l i p) (i + 1)
    simp only [placePartitions, List.zipIdx_cons, List.foldl_cons] at this ⊢
    rw [this]
    simp only [placePartition, layoutSpans, List.map_append, partitionContents_spans,
      List.append_assoc]

theorem le_nextPartitionAddress (p : DirectoryBlobPartition) (address : Nat) :
    address + partitionDataOffset + encryptedDataSize p ≤ nextPartitionAddress p address := by
  refine Nat.le_trans ?_ (le_alignUp (by decide))
  unfold offsetInHashedPartitionToRawOffset encryptedDataSize
  omega

theorem le_partitionAddress (type : PartitionType) (address : Nat) :
    address ≤ partitionAddress type address := by
  unfold partitionAddress; split <;> omega

theorem layoutSpans_packed (getSize : FileSizes) : ∀ (ps : List PartitionWithType)
    (address : Nat), (∀ p ∈ ps, HeaderFits getSize p.partition) →
    ∃ hi, address ≤ hi ∧ Span.Packed address hi (layoutSpans getSize address ps)
  | [], address, _ => ⟨address, Nat.le_refl _, Span.Packed.nil⟩
  | p :: rest, address, hfits => by
    have hfit := hfits p (by simp)
    let start := partitionAddress p.type address
    have hstart : address ≤ start := le_partitionAddress _ _
    have hnext := le_nextPartitionAddress p.partition start
    obtain ⟨hi, hle, hrest⟩ := layoutSpans_packed getSize rest
      (nextPartitionAddress p.partition start) (fun q hq => hfits q (by simp [hq]))
    have hhead : Span.Packed address (nextPartitionAddress p.partition start)
        ((headerSpans getSize p.partition start).filter (fun s => s.size ≠ 0)) := by
      refine ⟨((headerSpans_disjoint_iff getSize p.partition start).2 hfit).filter _, ?_⟩
      intro s hs
      obtain ⟨hmem, hsize⟩ := List.mem_filter.1 hs
      exact (headerSpans_within getSize p.partition start hfit s hmem (by simpa using hsize)).mono
        hstart hnext
    exact ⟨hi, by omega, hhead.append hrest (by omega) hle⟩

theorem pairwise_filter_size (l : List Span) :
    (l.filter (fun s => s.size ≠ 0)).Pairwise Span.Disjoint ↔ l.Pairwise Span.Disjoint := by
  refine ⟨fun h => ?_, fun h => h.filter _⟩
  rw [List.pairwise_filter] at h
  refine h.imp ?_
  intro s t hst
  by_cases hs : s.size = 0
  · exact Span.disjoint_iff.2 (Or.inl hs)
  · by_cases ht : t.size = 0
    · exact Span.disjoint_iff.2 (Or.inr (Or.inl ht))
    · exact hst (by simpa using hs) (by simpa using ht)

theorem fits_of_layoutSpans (getSize : FileSizes) : ∀ (ps : List PartitionWithType)
    (address : Nat), (layoutSpans getSize address ps).Pairwise Span.Disjoint →
    ∀ p ∈ ps, HeaderFits getSize p.partition
  | [], _, _ => by simp
  | p :: rest, address, h => by
    obtain ⟨hhead, hrest, -⟩ := List.pairwise_append.1 h
    intro q hq
    rcases List.mem_cons.1 hq with rfl | hq
    · exact (headerSpans_disjoint_iff getSize _ _).1 ((pairwise_filter_size _).1 hhead)
    · exact fits_of_layoutSpans getSize rest _ hrest q hq

theorem placeAllPartitions_spans (getSize : FileSizes) (ps : List PartitionWithType) :
    (placeAllPartitions getSize ps).contents.map DiscContent.span =
      layoutSpans getSize standardUpdatePartitionAddress
        (ps.mergeSort fun a b => !partitionLess b a) := by
  simp [placeAllPartitions, placePartitions_spans]

/-- The ranges the partitions add are pairwise disjoint exactly when every
    partition's header parts fit. -/
theorem setPartitions_disjoint_iff (getSize : FileSizes) (ps : List PartitionWithType) :
    (placeAllPartitions getSize ps).contents.Pairwise
        (fun c d => c.span.Disjoint d.span) ↔
      ∀ p ∈ ps, HeaderFits getSize p.partition := by
  rw [← List.pairwise_map, placeAllPartitions_spans]
  constructor
  · intro h p hp
    exact fits_of_layoutSpans getSize _ _ h p (List.mem_mergeSort.2 hp)
  · intro h
    obtain ⟨hi, -, hpacked⟩ := layoutSpans_packed getSize
      (ps.mergeSort fun a b => !partitionLess b a) standardUpdatePartitionAddress
      (fun p hp => h p (List.mem_mergeSort.1 hp))
    exact hpacked.1

/-- As long as the partition table ends before the first partition, it is in nobody's
    way: `SetPartitions` as a whole leaves disjoint ranges exactly when its loop does. -/
theorem setPartitions_contents_disjoint_iff (getSize : FileSizes) {ps : List PartitionWithType}
    (hlength : ps.length ≤ 0x1ff8) :
    (setPartitions getSize ps).contents.Pairwise (fun c d => c.span.Disjoint d.span) ↔
      (placeAllPartitions getSize ps).contents.Pairwise (fun c d => c.span.Disjoint d.span) := by
  have hcontents : (setPartitions getSize ps).contents =
    (placeAllPartitions getSize ps).contents ++ add partitionTableAddress _ _ := rfl
  rw [hcontents, List.pairwise_append]
  refine ⟨fun h => h.1, fun h => ⟨h, ?_, fun c hc d hd => ?_⟩⟩
  · unfold add
    split
    · exact List.pairwise_singleton ..
    · exact List.Pairwise.nil
  · rw [← List.pairwise_map, placeAllPartitions_spans] at h
    obtain ⟨hi, -, hpacked⟩ := layoutSpans_packed getSize
      (ps.mergeSort fun a b => !partitionLess b a) standardUpdatePartitionAddress
      (fits_of_layoutSpans getSize _ _ h)
    have hc' : c.span ∈ layoutSpans getSize standardUpdatePartitionAddress
        (ps.mergeSort fun a b => !partitionLess b a) := by
      rw [← placeAllPartitions_spans]
      exact List.mem_map_of_mem hc
    have hd' := List.mem_map_of_mem (f := DiscContent.span) hd
    rw [add_span] at hd'
    have htable := List.mem_singleton.1 (List.mem_filter.1 hd').1
    have hwithin := hpacked.2 _ hc'
    have hsorted := (List.mergeSort_perm ps fun a b => !partitionLess b a).length_eq
    rw [htable, Span.disjoint_iff]
    simp only [Span.Within, Span.stop, standardUpdatePartitionAddress, partitionTableAddress,
      partitionSubtable2Offset] at *
    omega

/-- A game partition read from a folder with nothing but a `tmd.bin` as large as
    `MAX_TMD_SIZE` admits and an `h3.bin`. -/
def largeTmdPartition : PartitionWithType :=
  { partition :=
      { rootDirectory := "DATA/", dataSize := 0x7C00, wrapped := none, dataSize_pos := by decide }
    type := PartitionType.game }

def largeTmdFiles : FileSizes := fun path =>
  if path = "DATA/tmd.bin" then 0x49e4 else if path = "DATA/h3.bin" then 0x18000 else 0

/-- The TMD and the H3 table of `largeTmdPartition` overlap. -/
theorem largeTmd_overlaps :
    ¬(placeAllPartitions largeTmdFiles [largeTmdPartition]).contents.Pairwise
        (fun c d => c.span.Disjoint d.span) := by
  rw [← List.pairwise_map, placeAllPartitions_spans]
  intro h
  have hfit := fits_of_layoutSpans largeTmdFiles _ _ h largeTmdPartition (by simp)
  revert hfit
  simp only [HeaderFits, h3Size, available, largeTmdPartition, largeTmdFiles]
  decide

end DolphinXR.DiscIO.DirectoryBlob
