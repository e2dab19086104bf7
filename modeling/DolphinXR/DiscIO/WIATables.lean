import DolphinXR.DiscIO.VolumeWii
import DolphinXR.Lib.OrderedMap

/- The tables of a WIA or RVZ file (DiscIO/WIABlob.h) and the checks of
   `WIARVZFileReader::Initialize` that do not depend on how they were stored: the
   chunk size, the order of the two data entries of a partition, and
   `HasDataOverlap`. `m_data_entries` holds every nonempty entry under its end,
   computed in the source's 32 or 64 bits, and an entry whose end is taken already
   is left out.

   A file that passes has its entries where its numbers say: no end has wrapped,
   and what `upper_bound` finds is an entry of the tables that ends behind the
   offset. -/
namespace DolphinXR.DiscIO
open Lib VolumeWii

/-- `WIARVZCompressionType`. -/
inductive WIACompressionType where
  | none | purge | bzip2 | lzma | lzma2 | zstd
  deriving DecidableEq

structure PartitionDataEntry where
  firstSector : UInt32
  numberOfSectors : UInt32
  groupIndex : UInt32
  numberOfGroups : UInt32
  deriving DecidableEq

structure PartitionEntry where
  partitionKey : Bytes
  first : PartitionDataEntry
  second : PartitionDataEntry
  deriving DecidableEq

def PartitionEntry.dataEntries (p : PartitionEntry) : List PartitionDataEntry := [p.first, p.second]

structure RawDataEntry where
  dataOffset : UInt64
  dataSize : UInt64
  groupIndex : UInt32
  numberOfGroups : UInt32
  deriving DecidableEq

/-- A group entry; WIA has no packed size, which is then 0. -/
structure GroupEntry where
  dataOffset : UInt32
  dataSize : UInt32
  rvzPackedSize : UInt32
  deriving DecidableEq

/-- `DataEntry`: the place of an entry in its table. -/
inductive DataEntry where
  | raw (index : Nat)
  | partition (index partitionDataIndex : Nat)
  deriving DecidableEq

/-- What `Initialize` reads of a file. -/
structure WIATables where
  rvz : Bool
  isoFileSize : UInt64
  discHeader : Bytes
  compressionType : WIACompressionType
  chunkSize : UInt32
  partitionEntries : List PartitionEntry
  rawDataEntries : List RawDataEntry
  groupEntries : List GroupEntry
  deriving DecidableEq

/-! ### Ends of entries -/

namespace PartitionDataEntry
variable (e : PartitionDataEntry)

def dataOffset : Nat := e.firstSector.toNat * blockTotalSize
def dataSize : Nat := e.numberOfSectors.toNat * blockTotalSize

/-- The key of `m_data_entries`, from a 32-bit sum. -/
def key : Nat := (e.firstSector.toNat + e.numberOfSectors.toNat) % 2 ^ 32 * blockTotalSize

end PartitionDataEntry

/-- The key of `m_data_entries`, from a 64-bit sum. -/
def RawDataEntry.key (e : RawDataEntry) : Nat := (e.dataOffset.toNat + e.dataSize.toNat) % 2 ^ 64

abbrev DataEntries := OrderedMap Nat DataEntry

namespace WIATables

def addEntries {α : Type} (key : α → Nat) (nonempty : α → Bool) (entry : Nat → DataEntry)
    (table : List α) (m : DataEntries) : DataEntries :=
  table.zipIdx.foldl (fun m x => if nonempty x.1 then m.emplace (key x.1) (entry x.2) else m) m

def addPartitionEntries (table : List PartitionEntry) (m : DataEntries) : DataEntries :=
  table.zipIdx.foldl (fun m x =>
    addEntries PartitionDataEntry.key (fun e => e.numberOfSectors != 0) (.partition x.2)
      x.1.dataEntries m) m

variable (t : WIATables)

def dataEntries : DataEntries :=
  addEntries RawDataEntry.key (fun e => e.dataSize != 0) .raw t.rawDataEntries
    (addPartitionEntries t.partitionEntries .empty)

/-- The check of the chunk size in `Initialize`. -/
def chunkSizeOk : Bool :=
  !((!t.rvz || decide (t.chunkSize.toNat < blockTotalSize) ||
      t.chunkSize &&& (t.chunkSize - 1) != 0) &&
    t.chunkSize.toNat % groupTotalSize != 0)

/-- The check of the order of a partition's data entries in `Initialize`. -/
def entriesInOrder (p : PartitionEntry) : Bool :=
  p.first.numberOfSectors == 0 || p.second.numberOfSectors == 0 ||
    decide (p.first.firstSector ≤ p.second.firstSector)

/-- The entry is what `upper_bound` finds from its start. -/
def findsItself (start : Nat) (entry : DataEntry) : Bool :=
  match t.dataEntries.upperBound start with
  | none => false
  | some x => x.2 == entry

def hasDataOverlap : Bool :=
  (t.partitionEntries.zipIdx.any fun x => x.1.dataEntries.zipIdx.any fun y =>
    y.1.numberOfSectors != 0 && !t.findsItself y.1.dataOffset (.partition x.2 y.2)) ||
  t.rawDataEntries.zipIdx.any fun x =>
    x.1.dataSize != 0 && !t.findsItself x.1.dataOffset.toNat (.raw x.2)

/-- The tables pass `Initialize`. -/
def accepted : Bool :=
  t.chunkSizeOk && t.partitionEntries.all entriesInOrder && !t.hasDataOverlap

/-! ### Entries of `m_data_entries` -/

variable {t : WIATables}

theorem mem_addEntries {α : Type} {key : α → Nat} {nonempty : α → Bool} {entry : Nat → DataEntry}
    {table : List α} {m : DataEntries} {x : Nat × DataEntry}
    (h : x ∈ (addEntries key nonempty entry table m).entries) :
    x ∈ m.entries ∨ ∃ i a, table[i]? = some a ∧ nonempty a = true ∧ x = (key a, entry i) := by
  unfold addEntries at h
  suffices hfold : ∀ (l : List (α × Nat)) (m : DataEntries), (∀ y ∈ l, table[y.2]? = some y.1) →
      x ∈ (l.foldl (fun m x =>
        if nonempty x.1 then m.emplace (key x.1) (entry x.2) else m) m).entries →
      x ∈ m.entries ∨ ∃ i a, table[i]? = some a ∧ nonempty a = true ∧ x = (key a, entry i) from
    hfold _ _ (fun y hy => List.mem_zipIdx_iff_getElem?.1 hy) h
  intro l
  induction l with
  | nil => exact fun m _ h => .inl h
  | cons y l ih =>
    intro m hl h
    have hy := hl y (List.mem_cons_self ..)
    rcases ih _ (fun z hz => hl z (List.mem_cons_of_mem _ hz)) h with h | h
    · dsimp only at h
      split at h
      case isTrue hnonempty =>
        rcases OrderedMap.mem_emplace h with rfl | h
        · exact .inr ⟨y.2, y.1, hy, hnonempty, rfl⟩
        · exact .inl h
      case isFalse => exact .inl h
    · exact .inr h

theorem mem_addPartitionEntries {table : List PartitionEntry} {m : DataEntries}
    {x : Nat × DataEntry} (h : x ∈ (addPartitionEntries table m).entries) :
    x ∈ m.entries ∨ ∃ i p j e, table[i]? = some p ∧ p.dataEntries[j]? = some e ∧
      e.numberOfSectors ≠ 0 ∧ x = (e.key, .partition i j) := by
  unfold addPartitionEntries at h
  suffices hfold : ∀ (l : List (PartitionEntry × Nat)) (m : DataEntries),
      (∀ y ∈ l, table[y.2]? = some y.1) →
      x ∈ (l.foldl (fun m x => addEntries PartitionDataEntry.key (fun e => e.numberOfSectors != 0)
        (.partition x.2) x.1.dataEntries m) m).entries →
      x ∈ m.entries ∨ ∃ i p j e, table[i]? = some p ∧ p.dataEntries[j]? = some e ∧
        e.numberOfSectors ≠ 0 ∧ x = (e.key, .partition i j) from
    hfold _ _ (fun y hy => List.mem_zipIdx_iff_getElem?.1 hy) h
  intro l
  induction l with
  | nil => exact fun m _ h => .inl h
  | cons y l ih =>
    intro m hl h
    have hy := hl y (List.mem_cons_self ..)
    rcases ih _ (fun z hz => hl z (List.mem_cons_of_mem _ hz)) h with h | h
    · rcases mem_addEntries h with h | ⟨j, e, he, hnonempty, rfl⟩
      · exact .inl h
      · exact .inr ⟨y.2, y.1, j, e, hy, he, bne_iff_ne.1 hnonempty, rfl⟩
    · exact .inr h

theorem mem_dataEntries {x : Nat × DataEntry} (h : x ∈ t.dataEntries.entries) :
    (∃ i e, t.rawDataEntries[i]? = some e ∧ e.dataSize ≠ 0 ∧ x = (e.key, .raw i)) ∨
      ∃ i p j e, t.partitionEntries[i]? = some p ∧ p.dataEntries[j]? = some e ∧
        e.numberOfSectors ≠ 0 ∧ x = (e.key, .partition i j) := by
  rcases mem_addEntries h with h | ⟨i, e, he, hnonempty, rfl⟩
  · rcases mem_addPartitionEntries h with h | h
    · cases h
    · exact .inr h
  · exact .inl ⟨i, e, he, bne_iff_ne.1 hnonempty, rfl⟩

theorem raw_of_upperBound {q k i : Nat} (h : t.dataEntries.upperBound q = some (k, .raw i)) :
    ∃ e, t.rawDataEntries[i]? = some e ∧ e.dataSize ≠ 0 ∧ k = e.key ∧ q < e.key := by
  have hlt := OrderedMap.lt_of_upperBound h
  rcases mem_dataEntries (OrderedMap.mem_of_upperBound h) with
    ⟨i', e, he, hnonempty, heq⟩ | ⟨i', p, j, e, hp, he, hnonempty, heq⟩
  · obtain ⟨rfl, heq⟩ := Prod.mk.inj heq
    cases heq
    exact ⟨e, he, hnonempty, rfl, hlt⟩
  · cases (Prod.mk.inj heq).2

theorem partition_of_upperBound {q k i j : Nat}
    (h : t.dataEntries.upperBound q = some (k, .partition i j)) :
    ∃ p e, t.partitionEntries[i]? = some p ∧ p.dataEntries[j]? = some e ∧ e.numberOfSectors ≠ 0 ∧
      k = e.key ∧ q < e.key := by
  have hlt := OrderedMap.lt_of_upperBound h
  rcases mem_dataEntries (OrderedMap.mem_of_upperBound h) with
    ⟨i', e, he, hnonempty, heq⟩ | ⟨i', p, j', e, hp, he, hnonempty, heq⟩
  · cases (Prod.mk.inj heq).2
  · obtain ⟨rfl, heq⟩ := Prod.mk.inj heq
    cases heq
    exact ⟨p, e, hp, he, hnonempty, rfl, hlt⟩

/-! ### What `HasDataOverlap` promises -/

theorem chunkSizeOk_of_accepted (h : t.accepted = true) : t.chunkSizeOk = true := by
  simp only [accepted, Bool.and_eq_true] at h
  exact h.1.1

theorem upperBound_of_findsItself {start : Nat} {entry : DataEntry}
    (h : t.findsItself start entry = true) :
    ∃ k, t.dataEntries.upperBound start = some (k, entry) := by
  unfold findsItself at h
  split at h
  · cases h
  case h_2 x hx =>
    exact ⟨x.1, by rw [hx, ← beq_iff_eq.1 h]⟩

theorem raw_findsItself (h : t.accepted = true) {i : Nat} {e : RawDataEntry}
    (he : t.rawDataEntries[i]? = some e) (hnonempty : e.dataSize ≠ 0) :
    t.findsItself e.dataOffset.toNat (.raw i) = true := by
  simp only [accepted, Bool.and_eq_true, Bool.not_eq_true', hasDataOverlap,
    Bool.or_eq_false_iff] at h
  have hnot := List.any_eq_false.1 h.2.2 (e, i) (List.mem_zipIdx_iff_getElem?.2 he)
  simpa [hnonempty] using hnot

theorem partition_findsItself (h : t.accepted = true) {i j : Nat} {p : PartitionEntry}
    {e : PartitionDataEntry} (hp : t.partitionEntries[i]? = some p)
    (he : p.dataEntries[j]? = some e) (hnonempty : e.numberOfSectors ≠ 0) :
    t.findsItself e.dataOffset (.partition i j) = true := by
  simp only [accepted, Bool.and_eq_true, Bool.not_eq_true', hasDataOverlap,
    Bool.or_eq_false_iff] at h
  have hnot := List.any_eq_false.1 h.2.1 (p, i) (List.mem_zipIdx_iff_getElem?.2 hp)
  have hnot' := List.any_eq_false.1 (Bool.eq_false_of_not_eq_true hnot) (e, j)
    (List.mem_zipIdx_iff_getElem?.2 he)
  simpa [hnonempty] using hnot'

theorem raw_end_lt (h : t.accepted = true) {i : Nat} {e : RawDataEntry}
    (he : t.rawDataEntries[i]? = some e) (hnonempty : e.dataSize ≠ 0) :
    e.dataOffset.toNat + e.dataSize.toNat < 2 ^ 64 := by
  obtain ⟨k, hk⟩ := upperBound_of_findsItself (raw_findsItself h he hnonempty)
  obtain ⟨e', he', -, -, hlt⟩ := raw_of_upperBound hk
  obtain rfl : e' = e := Option.some.inj (he'.symm.trans he)
  have := e'.dataOffset.toNat_lt
  have := e'.dataSize.toNat_lt
  unfold RawDataEntry.key at hlt
  omega

theorem raw_key_eq (h : t.accepted = true) {i : Nat} {e : RawDataEntry}
    (he : t.rawDataEntries[i]? = some e) (hnonempty : e.dataSize ≠ 0) :
    e.key = e.dataOffset.toNat + e.dataSize.toNat :=
  Nat.mod_eq_of_lt (raw_end_lt h he hnonempty)

theorem partition_end_lt (h : t.accepted = true) {i j : Nat} {p : PartitionEntry}
    {e : PartitionDataEntry} (hp : t.partitionEntries[i]? = some p)
    (he : p.dataEntries[j]? = some e) (hnonempty : e.numberOfSectors ≠ 0) :
    e.firstSector.toNat + e.numberOfSectors.toNat < 2 ^ 32 := by
  obtain ⟨k, hk⟩ := upperBound_of_findsItself (partition_findsItself h hp he hnonempty)
  obtain ⟨p', e', hp', he', -, -, hlt⟩ := partition_of_upperBound hk
  obtain rfl : p' = p := Option.some.inj (hp'.symm.trans hp)
  obtain rfl : e' = e := Option.some.inj (he'.symm.trans he)
  have := e'.firstSector.toNat_lt
  have := e'.numberOfSectors.toNat_lt
  simp only [PartitionDataEntry.dataOffset, PartitionDataEntry.key] at hlt
  have hlt' := Nat.lt_of_mul_lt_mul_right hlt
  omega

theorem partition_key_eq (h : t.accepted = true) {i j : Nat} {p : PartitionEntry}
    {e : PartitionDataEntry} (hp : t.partitionEntries[i]? = some p)
    (he : p.dataEntries[j]? = some e) (hnonempty : e.numberOfSectors ≠ 0) :
    e.key = e.dataOffset + e.dataSize := by
  rw [PartitionDataEntry.key, Nat.mod_eq_of_lt (partition_end_lt h hp he hnonempty), Nat.add_mul]
  rfl

end WIATables
end DolphinXR.DiscIO
