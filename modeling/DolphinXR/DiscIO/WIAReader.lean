import DolphinXR.DiscIO.WIATables
import DolphinXR.Common.Align

/- Reading from a WIA or RVZ file (`WIARVZFileReader::Read`, `ReadWiiDecrypted` and
   `ReadFromGroups`, DiscIO/WIABlob.cpp, with `WiiEncryptionCache`). A chunk of the
   file is behind `ChunkOps`: making one, reading from it, which may fail and changes
   it, and the hash exceptions of one of its lists. The reader keeps one chunk, known
   by its offset in the file, and one encrypted group.

   `Read` turns round once for every entry it meets, and a turn need not get it any
   further, so its loop has fuel; `readTurn` is one turn. Arithmetic is that of
   64-bit words where a subtraction can go below zero or a sum past the end, and that
   of natural numbers elsewhere. A division by zero is `undefined`.
   `ApplyHashExceptions` lets a block index of 64 pass, for which the source writes
   behind the array: no hash block changes here. -/
namespace DolphinXR.DiscIO
open Lib VolumeWii

/-- Subtraction of 64-bit words. -/
def sub64 (a b : Nat) : Nat := (a + (2 ^ 64 - b)) % 2 ^ 64

/-- Addition of 64-bit words. -/
def add64 (a b : Nat) : Nat := (a + b) % 2 ^ 64

theorem sub64_of_le {a b : Nat} (ha : a < 2 ^ 64) (h : b ≤ a) : sub64 a b = a - b := by
  unfold sub64
  rw [show a + (2 ^ 64 - b) = a - b + 2 ^ 64 by omega, Nat.add_mod_right]
  exact Nat.mod_eq_of_lt (by omega)

theorem add64_of_lt {a b : Nat} (h : a + b < 2 ^ 64) : add64 a b = a + b := Nat.mod_eq_of_lt h

/-! ### Chunks -/

/-- `HashExceptionEntry`: an offset in the group's hash blocks and the digest there. -/
structure HashException where
  offset : Nat
  hash : Bytes
  deriving DecidableEq

/-- The arguments of `ReadCompressedData`. -/
structure ChunkParameters where
  offsetInFile : Nat
  compressedSize : Nat
  decompressedSize : Nat
  compressionType : WIACompressionType
  exceptionLists : Nat
  rvzPackedSize : Nat
  dataOffset : Nat
  deriving DecidableEq

/-- `Chunk`: its constructor on the reader's file, `Read`, and the list that
    `GetHashExceptions` reads. -/
structure ChunkOps (C : Type) where
  make : ChunkParameters → C
  read : C → Nat → Nat → Option Bytes × C
  hashExceptions : C → Nat → List HashException

/-- The state of a reader. `lastGroupIndex` is `m_exception_list_last_group_index`, and
    `hashExceptionError` the local flag of `Read`. -/
structure ReaderState (C : Type) where
  cachedChunk : Option (Nat × C)
  encryptedGroup : Option (Nat × Bytes)
  exceptionList : List HashException
  writeToExceptionList : Bool
  lastGroupIndex : Option Nat
  hashExceptionError : Bool

/-- `*offset` and `*size`, and what has been written to `*out_ptr`. -/
structure Cursor where
  offset : Nat
  size : Nat
  out : Bytes
  deriving DecidableEq

/-- The cursor behind `bytes`. -/
def Cursor.write (cur : Cursor) (count : Nat) (bytes : Bytes) : Cursor :=
  { offset := cur.offset + count, size := cur.size - count, out := cur.out ++ bytes }

/-- The arguments of `ReadFromGroups` that stay the same in its loop. -/
structure GroupRange where
  dataOffset : Nat
  dataSize : Nat
  groupIndex : Nat
  numberOfGroups : Nat
  exceptionLists : Nat

/-! ### Groups -/

section Reader
variable {C : Type} (ops : ChunkOps C) (t : WIATables)

/-- `ReadCompressedData`: the cached chunk, if it begins at the same offset. -/
def readCompressedData (s : ReaderState C) (p : ChunkParameters) : C :=
  match s.cachedChunk with
  | some (offset, chunk) => if offset = p.offsetInFile then chunk else ops.make p
  | none => ops.make p

/-- The part of `data_size` of a group entry that is a size. -/
def groupDataSizeOf (group : GroupEntry) : Nat :=
  if t.rvz then group.dataSize.toNat % 2 ^ 31 else group.dataSize.toNat

/-- The chunk of a group entry that begins at `groupOffset` in its data. -/
def chunkParameters (group : GroupEntry) (chunkSize groupOffset exceptionLists : Nat) :
    ChunkParameters :=
  { offsetInFile := group.dataOffset.toNat * 4
    compressedSize := groupDataSizeOf t group
    decompressedSize := chunkSize
    compressionType := if t.rvz && group.dataSize.toNat < 2 ^ 31 then .none else t.compressionType
    exceptionLists := exceptionLists
    rvzPackedSize := if t.rvz then group.rvzPackedSize.toNat else 0
    dataOffset := groupOffset }

/-- The hash exceptions of a chunk, where the list is asked for and does not have them yet. -/
def collectExceptions (s : ReaderState C) (chunk : C) (totalGroupIndex groupOffset offsetInGroup :
    Nat) : ReaderState C :=
  if s.writeToExceptionList && s.lastGroupIndex != some totalGroupIndex then
    let additionalOffset :=
      groupOffset % groupDataSize / blockDataSize * blockHeaderSize % 2 ^ 16
    let exceptions := (ops.hashExceptions chunk (offsetInGroup / groupDataSize)).map fun e =>
      { e with offset := (e.offset + additionalOffset) % 2 ^ 16 }
    { s with
      exceptionList := s.exceptionList ++ exceptions
      lastGroupIndex := some totalGroupIndex }
  else s

/-- A turn of the loop of `ReadFromGroups` on group `i`; it makes `chunk_size` smaller. -/
def readGroup (p : GroupRange) (i chunkSize : Nat) (s : ReaderState C) (cur : Cursor) :
    Outcome (Nat × Cursor) × ReaderState C :=
  let totalGroupIndex := p.groupIndex + i
  match t.groupEntries[totalGroupIndex]? with
  | none => (.failed, s)
  | some group =>
    let groupOffset := i * chunkSize
    let offsetInGroup := sub64 (sub64 cur.offset groupOffset) p.dataOffset
    let chunkSize := min chunkSize (sub64 p.dataSize groupOffset)
    let bytesToRead := min (sub64 chunkSize offsetInGroup) cur.size
    if groupDataSizeOf t group = 0 then
      (.ok (chunkSize, cur.write bytesToRead (zeroes bytesToRead)), s)
    else
      let parameters := chunkParameters t group chunkSize groupOffset p.exceptionLists
      match ops.read (readCompressedData ops s parameters) offsetInGroup bytesToRead with
      | (none, _) => (.failed, { s with cachedChunk := none })
      | (some bytes, chunk) =>
        let s := { s with cachedChunk := some (parameters.offsetInFile, chunk) }
        (.ok (chunkSize, cur.write bytesToRead bytes),
          collectExceptions ops s chunk totalGroupIndex groupOffset offsetInGroup)

/-- The loop of `ReadFromGroups`: `remaining` groups from `i` on. -/
def readGroups (p : GroupRange) : (remaining i chunkSize : Nat) → ReaderState C → Cursor →
    Outcome Cursor × ReaderState C
  | 0, _, _, s, cur => (.ok cur, s)
  | remaining + 1, i, chunkSize, s, cur =>
    if cur.size = 0 then (.ok cur, s)
    else
      andThen (readGroup ops t p i chunkSize s cur) fun x s =>
        readGroups p remaining (i + 1) x.1 s x.2

/-- The range from its sector's start on. -/
def GroupRange.aligned (p : GroupRange) (sectorSize : Nat) : GroupRange :=
  { p with
    dataOffset := Common.alignDown p.dataOffset sectorSize
    dataSize := add64 p.dataSize (p.dataOffset % sectorSize) }

def readFromGroups (p : GroupRange) (chunkSize sectorSize : Nat) (s : ReaderState C)
    (cur : Cursor) : Outcome Cursor × ReaderState C :=
  if add64 p.dataOffset p.dataSize ≤ cur.offset then (.ok cur, s)
  else if cur.offset < p.dataOffset then (.failed, s)
  else if chunkSize = 0 then (.undefined, s)
  else
    let range := p.aligned sectorSize
    let start := (cur.offset - range.dataOffset) / chunkSize
    readGroups ops t range (p.numberOfGroups - start) start chunkSize s cur

def getPartition (partitionDataOffset : Nat) : Option PartitionEntry :=
  match t.dataEntries.upperBound partitionDataOffset with
  | some (_, .partition index _) =>
    t.partitionEntries[index]?.filter fun p => p.first.dataOffset = partitionDataOffset
  | _ => none

/-- The groups of a data entry, in the decrypted data of its partition. -/
def decryptedRange (p : PartitionEntry) (e : PartitionDataEntry) (chunkSize : Nat) : GroupRange :=
  { dataOffset := (e.firstSector - p.first.firstSector).toNat * blockDataSize
    dataSize := e.numberOfSectors.toNat * blockDataSize
    groupIndex := e.groupIndex.toNat
    numberOfGroups := e.numberOfGroups.toNat
    exceptionLists := max 1 (chunkSize / groupDataSize % 2 ^ 32) }

/-- The loop of `ReadWiiDecrypted`. -/
def readDecryptedEntries (p : PartitionEntry) (chunkSize : Nat) : List PartitionDataEntry →
    ReaderState C → Cursor → Outcome Cursor × ReaderState C
  | [], s, cur => (.ok cur, s)
  | e :: rest, s, cur =>
    if cur.size = 0 then (.ok cur, s)
    else
      andThen (readFromGroups ops t (decryptedRange p e chunkSize) chunkSize blockDataSize s cur)
        fun cur s => readDecryptedEntries p chunkSize rest s cur

def decryptedChunkSize : Nat := t.chunkSize.toNat * blockDataSize / blockTotalSize

def readWiiDecrypted (partitionDataOffset : Nat) (s : ReaderState C) (offset size : Nat) :
    Outcome Bytes × ReaderState C :=
  match getPartition t partitionDataOffset with
  | none => (.failed, s)
  | some p =>
    andThen (readDecryptedEntries ops t p (decryptedChunkSize t) p.dataEntries s
      ⟨offset, size, []⟩) fun cur s => (if cur.size = 0 then .ok cur.out else .failed, s)

/-! ### Encrypted groups -/

/-- `ApplyHashExceptions`: the hash blocks, and whether all exceptions were valid. -/
def applyHashExceptions : List HashException → List Bytes → List Bytes × Bool
  | [], blocks => (blocks, true)
  | e :: rest, blocks =>
    let blockIndex := e.offset / blockHeaderSize
    let offsetInBlock := e.offset % blockHeaderSize
    if blockIndex > blocksPerGroup then (blocks, false)
    else if offsetInBlock + 20 > blockHeaderSize then (blocks, false)
    else
      applyHashExceptions rest (blocks.modify blockIndex fun b => splice b offsetInBlock e.hash)

/-- The callback that `Read` hands to `EncryptGroups`. -/
def hashExceptionCallback (s : ReaderState C) (blocks : List Bytes) :
    List Bytes × ReaderState C :=
  match applyHashExceptions s.exceptionList blocks with
  | (blocks, true) => (blocks, s)
  | (blocks, false) => (blocks, { s with hashExceptionError := true })

/-- What stays the same while the groups of a partition are encrypted. -/
structure EncryptionArguments where
  partitionDataOffset : Nat
  decryptedSize : Nat
  key : Bytes

/-- The cache after `VolumeWii::EncryptGroup`: the group, or nothing after a failure. -/
def cacheGroup (offsetOnDisc : Nat) :
    Outcome Bytes × ReaderState C → Outcome Bytes × ReaderState C
  | (.ok group, s) => (.ok group, { s with encryptedGroup := some (offsetOnDisc, group) })
  | (.failed, s) => (.failed, { s with encryptedGroup := none })
  | (.undefined, s) => (.undefined, s)

/-- `WiiEncryptionCache::EncryptGroup`, for a group that begins at `offset`. -/
def encryptGroup (crypto : Crypto) (a : EncryptionArguments) (offset : Nat) (s : ReaderState C) :
    Outcome Bytes × ReaderState C :=
  let offsetOnDisc := add64 a.partitionDataOffset offset
  let miss := cacheGroup offsetOnDisc
    (VolumeWii.encryptGroup crypto (offset / groupTotalSize * groupDataSize) a.decryptedSize a.key
      (readWiiDecrypted ops t a.partitionDataOffset) hashExceptionCallback s)
  match s.encryptedGroup with
  | some (cachedOffset, group) => if cachedOffset = offsetOnDisc then (.ok group, s) else miss
  | none => miss

/-- The loop of `EncryptGroups`; each turn has at least one byte, so `size` is fuel enough. -/
def encryptGroups (crypto : Crypto) (a : EncryptionArguments) : (fuel offset size : Nat) →
    ReaderState C → Outcome Bytes × ReaderState C
  | 0, _, _, s => (.ok [], s)
  | fuel + 1, offset, size, s =>
    if size = 0 then (.ok [], s)
    else
      andThen (encryptGroup ops t crypto a (Common.alignDown offset groupTotalSize) s)
        fun group s =>
          let offsetInGroup := offset % groupTotalSize
          let bytesToRead := min (groupTotalSize - offsetInGroup) size
          andThen (encryptGroups crypto a fuel (add64 offset bytesToRead) (size - bytesToRead) s)
            fun rest s => (.ok (slice group offsetInGroup bytesToRead ++ rest), s)

/-! ### Read -/

/-- The sectors from the start of a partition's first data entry to the end of its last. -/
def partitionTotalSectors (p : PartitionEntry) : UInt32 :=
  if p.second.numberOfSectors ≠ 0 then
    p.second.firstSector - p.first.firstSector + p.second.numberOfSectors
  else p.first.numberOfSectors

def encryptionArguments (p : PartitionEntry) : EncryptionArguments :=
  { partitionDataOffset := p.first.dataOffset
    decryptedSize := (partitionTotalSectors p).toNat * blockDataSize
    key := p.partitionKey }

/-- The part of a read that lies in a data entry of a partition. -/
def readPartitionData (crypto : Crypto) (p : PartitionEntry) (bytesToRead : Nat)
    (s : ReaderState C) (cur : Cursor) : Outcome Cursor × ReaderState C :=
  let s := { s with
    exceptionList := [], writeToExceptionList := true, lastGroupIndex := none
    hashExceptionError := false }
  match encryptGroups ops t crypto (encryptionArguments p) bytesToRead
    (sub64 cur.offset p.first.dataOffset) bytesToRead s with
  | (.ok bytes, s) =>
    let result := if s.hashExceptionError then .failed else .ok (cur.write bytesToRead bytes)
    (result, { s with writeToExceptionList := false })
  | (.failed, s) => (.failed, { s with writeToExceptionList := false })
  | (.undefined, s) => (.undefined, s)

/-- The loop of `Read` over the data entries of a partition. -/
def readPartitionEntries (crypto : Crypto) (p : PartitionEntry) : List PartitionDataEntry →
    ReaderState C → Cursor → Outcome Cursor × ReaderState C
  | [], s, cur => (.ok cur, s)
  | e :: rest, s, cur =>
    -- The source returns true here, as its loop does on a size of 0.
    if cur.size = 0 then (.ok cur, s)
    else if e.dataSize = 0 then readPartitionEntries crypto p rest s cur
    else if e.dataOffset + e.dataSize ≤ cur.offset then readPartitionEntries crypto p rest s cur
    else if cur.offset < e.dataOffset then (.failed, s)
    else
      andThen (readPartitionData ops t crypto p
        (min (e.dataSize - (cur.offset - e.dataOffset)) cur.size) s cur)
        fun cur s => readPartitionEntries crypto p rest s cur

def rawRange (e : RawDataEntry) : GroupRange :=
  { dataOffset := e.dataOffset.toNat
    dataSize := e.dataSize.toNat
    groupIndex := e.groupIndex.toNat
    numberOfGroups := e.numberOfGroups.toNat
    exceptionLists := 0 }

/-- A turn of the loop of `Read`. The indices in `m_data_entries` are those of the tables. -/
def readTurn (crypto : Crypto) (s : ReaderState C) (cur : Cursor) :
    Outcome Cursor × ReaderState C :=
  match t.dataEntries.upperBound cur.offset with
  | none => (.failed, s)
  | some (_, .partition index _) =>
    match t.partitionEntries[index]? with
    | none => (.failed, s)
    | some p => readPartitionEntries ops t crypto p p.dataEntries s cur
  | some (_, .raw index) =>
    match t.rawDataEntries[index]? with
    | none => (.failed, s)
    | some e => readFromGroups ops t (rawRange e) t.chunkSize.toNat blockTotalSize s cur

/-- The loop of `Read`, `none` when the fuel is used up. -/
def readLoop (crypto : Crypto) : (fuel : Nat) → ReaderState C → Cursor →
    Option (Outcome Bytes × ReaderState C)
  | fuel, s, cur =>
    if cur.size = 0 then some (.ok cur.out, s)
    else
      match fuel with
      | 0 => none
      | fuel + 1 =>
        match readTurn ops t crypto s cur with
        | (.ok cur, s) => readLoop crypto fuel s cur
        | (.failed, s) => some (.failed, s)
        | (.undefined, s) => some (.undefined, s)

/-- The bytes before the loop of `Read` are those of the disc header. -/
def discHeaderSize : Nat := 0x80

def headerCursor (offset size : Nat) : Cursor :=
  if offset < discHeaderSize then
    let bytesToRead := min (discHeaderSize - offset) size
    Cursor.write ⟨offset, size, []⟩ bytesToRead (slice t.discHeader offset bytesToRead)
  else ⟨offset, size, []⟩

/-- `Read`. -/
def readFile (crypto : Crypto) (fuel : Nat) (s : ReaderState C) (offset size : Nat) :
    Option (Outcome Bytes × ReaderState C) :=
  if add64 offset size > t.isoFileSize.toNat then some (.failed, s)
  else readLoop ops t crypto fuel s (headerCursor t offset size)

end Reader
end DolphinXR.DiscIO
