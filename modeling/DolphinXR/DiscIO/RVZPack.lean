import DolphinXR.Lib.CheckedRead
import DolphinXR.Lib.OrderedMap
import DolphinXR.DiscIO.LaggedFibonacciGenerator

/- RVZ packing (DiscIO/WIABlob.cpp, `RVZPack`): the input is searched for stretches that the
   generator of junk data reproduces, and the chunks are written with the seeds of these in their
   place. Every access to the input is a checked read, also those of `GetSeed`, so that an access
   outside of it is an error with its index.

   Sizes, positions and offsets are u64 and size_t, which wrap; an input is an object in memory and
   so is smaller than 2^63 bytes. What the file system answers is a function of the offset. -/
namespace DolphinXR.DiscIO.Rvz
open Common Lib Lib.CheckedRead Lfg

/-! ### GetSeed with checked reads -/

def readWord (input : List Byte) (i : Nat) : Except Nat Word := do
  let b₀ ← read input i
  let b₁ ← read input (i + 1)
  let b₂ ← read input (i + 2)
  let b₃ ← read input (i + 3)
  return b₃ ++ b₂ ++ b₁ ++ b₀

/-- `std::all_of` over the words from `i` on. -/
def allLookShifted (input : List Byte) : Nat → Nat → Except Nat Bool
  | _, 0 => .ok true
  | i, n + 1 => do
    let x ← readWord input i
    if LooksShifted (swap32 x) then allLookShifted input (i + 4) n else return false

/-- What the two `std::copy_n` read. -/
def readWords (input : List Byte) : Nat → Nat → Except Nat (List Word)
  | _, 0 => .ok []
  | i, n + 1 => do
    let x ← readWord input i
    let rest ← readWords input (i + 4) n
    return x :: rest

/-- `GetSeed` of whole words from the index `start` on. -/
def getSeedWordsIn (input : List Byte) (start size dataOffset : Nat) (seedOut : Seed) :
    Except Nat (Seed × Option Buffer) :=
  if size < lfgK then .ok (seedOut, none)
  else do
    if ← allLookShifted input start lfgK then
      let words ← readWords input start lfgK
      return getSeedWords (fun i => words.getD i 0) size dataOffset seedOut
    else return (seedOut, none)

def reconstructIn (input : List Byte) : Nat → Nat → Generator → Except Nat Nat
  | 0, _, _ => .ok 0
  | left + 1, i, g => do
    let (byte, g) := g.getByte
    let b ← read input i
    if byte = b then
      let n ← reconstructIn input left (i + 1) g
      return n + 1
    else return 0

/-- `GetSeed` of the `size` bytes from `position` on; `address` is that of the input. -/
def getSeedIn (input : List Byte) (address position size dataOffset : Nat) (seedOut : Seed) :
    Except Nat (Nat × Seed) :=
  if sub64 ((address + position) % 2 ^ 64) dataOffset % 4 ≠ 0 then .ok (0, seedOut)
  else do
    let skip := bytesToSkip dataOffset
    match ← getSeedWordsIn input (position + skip) (sub64 size skip / 4) (wordOffset dataOffset)
      seedOut with
    | (seedOut, none) => return (0, seedOut)
    | (seedOut, some b) =>
      let n ← reconstructIn input size position
        ⟨b, dataOffset % lfgBytes, mod_lfgBytes_lt dataOffset⟩
      return (n, seedOut)

/-! ### The search for junk -/

def seedBytes : Nat := seedSize * 4

def blockTotalSize : Nat := 0x8000

structure JunkInfo where
  startOffset : Nat
  seed : Seed

structure PackParameters where
  input : List Byte
  /-- The address of the input. -/
  address : Nat
  dataOffset : Nat
  compression : Bool
  /-- The offset and the size of the file that is found, if there is a file system. -/
  findFileInfo : Option (Nat → Option (Nat × Nat))
  address_lt : address < 2 ^ 64
  dataOffset_lt : dataOffset < 2 ^ 64
  input_lt : input.length < 2 ^ 63

structure SearchState where
  position : Nat
  dataOffset : Nat
  junkInfo : OrderedMap Nat JunkInfo

/-- The zero bytes from `position` on, of which `left` are in the input. -/
def countZeroes (input : List Byte) : Nat → Nat → Except Nat Nat
  | _, 0 => .ok 0
  | position, left + 1 => do
    let b ← read input position
    if b = 0 then
      let n ← countZeroes input (position + 1) left
      return n + 1
    else return 0

variable (p : PackParameters)

def PackParameters.totalSize : Nat := p.input.length

/-- How far the bytes go that are read at once: to the end of the block, or of the input. -/
def bytesToRead (position dataOffset : Nat) : Nat :=
  min (sub64 (alignUp ((dataOffset + 1) % 2 ^ 64) blockTotalSize % 2 ^ 64) dataOffset)
    (p.totalSize - position)

def fileEndOffset (offset : Nat) : Option Nat :=
  p.findFileInfo.bind fun find => (find (offset % 2 ^ 64)).map fun (fileOffset, fileSize) =>
    (fileOffset + fileSize) % 2 ^ 64

/-- Where the search goes on. -/
def nextPosition (position dataOffset bytesReconstructed : Nat) : Nat × Nat :=
  let bytesToRead := bytesToRead p position dataOffset
  match fileEndOffset p (dataOffset + bytesReconstructed) with
  | some fileEnd =>
    if fileEnd < (dataOffset + bytesToRead) % 2 ^ 64 then
      ((position + sub64 fileEnd dataOffset) % 2 ^ 64, fileEnd)
    else (position + bytesToRead, (dataOffset + bytesToRead) % 2 ^ 64)
  | none => (position + bytesToRead, (dataOffset + bytesToRead) % 2 ^ 64)

/-- The call of `GetSeed` behind the zero bytes. -/
def findSeed (position dataOffset : Nat) : Except Nat (Nat × Seed) :=
  getSeedIn p.input p.address position (bytesToRead p position dataOffset)
    (dataOffset % blockTotalSize) fun _ => 0

/-- What a round comes to with the zero bytes and the junk it found. -/
def afterRound (s : SearchState) (zeroes : Nat) (found : Nat × Seed) : SearchState :=
  let (bytesReconstructed, seed) := found
  let position := s.position + zeroes
  let dataOffset := (s.dataOffset + zeroes) % 2 ^ 64
  let junkInfo :=
    if ¬p.compression ∧ seedBytes < zeroes then
      s.junkInfo.emplace position { startOffset := s.position, seed := fun _ => 0 }
    else s.junkInfo
  let junkInfo :=
    if 0 < bytesReconstructed then
      junkInfo.emplace (position + bytesReconstructed) { startOffset := position, seed }
    else junkInfo
  let next := nextPosition p position dataOffset bytesReconstructed
  { position := next.1, dataOffset := next.2, junkInfo }

/-- A round of the search, from a position inside the input. -/
def searchStep (s : SearchState) : Except Nat SearchState := do
  let zeroes ← countZeroes p.input s.position (p.totalSize - s.position)
  let found ← findSeed p (s.position + zeroes) ((s.dataOffset + zeroes) % 2 ^ 64)
  return afterRound p s zeroes found

def searchStart : SearchState where
  position := 0
  dataOffset := p.dataOffset
  junkInfo := .empty

/-- The search: `none` when the rounds do not suffice. -/
def search : Nat → SearchState → Except Nat (Option SearchState)
  | 0, _ => .ok none
  | rounds + 1, s =>
    if s.position < p.totalSize then do
      let s ← searchStep p s
      search rounds s
    else .ok (some s)

/-! ### The chunks -/

structure OutputParametersEntry where
  mainData : List Byte
  hasReuseId : Bool
  reusedGroup : Bool
  rvzPackedSize : Nat

structure ChunkParameters where
  bytesPerChunk : Nat
  chunks : Nat
  multipart : Bool
  allowJunkReuse : Bool

def wordBytes (x : Word) : List Byte := (List.range 4).map (byteOf x)

def seedMemory (seed : Seed) : List Byte := (List.range seedSize).flatMap fun i => wordBytes (seed i)

/-- The junk that the rest of a chunk comes to next: its start, its end and its seed. -/
def nextJunk (junkInfo : OrderedMap Nat JunkInfo) (storeJunkEfficiently : Bool)
    (currentOffset endOffset : Nat) : Nat × Nat × Option Seed :=
  if storeJunkEfficiently ∧ seedBytes < endOffset - currentOffset then
    match junkInfo.upperBound (currentOffset + seedBytes) with
    | some (junkEnd, info) =>
      if info.startOffset + seedBytes < endOffset then
        (max currentOffset info.startOffset, min endOffset junkEnd, some info.seed)
      else (endOffset, endOffset, none)
    | none => (endOffset, endOffset, none)
  else (endOffset, endOffset, none)

/-- Data that are stored as they are, behind their size. -/
def pushData (entry : OutputParametersEntry) (currentOffset nonJunkBytes : Nat) :
    Except Nat OutputParametersEntry :=
  if 0 < nonJunkBytes then do
    let data ← readRange p.input currentOffset nonJunkBytes
    return { entry with
      mainData := entry.mainData ++ wordBytes (swap32 (BitVec.ofNat 32 nonJunkBytes)) ++ data
      rvzPackedSize := entry.rvzPackedSize + 4 + nonJunkBytes }
  else return entry

/-- Junk is stored as its seed. -/
def pushJunk (entry : OutputParametersEntry) (junkBytes : Nat) (seed : Option Seed) :
    OutputParametersEntry :=
  if 0 < junkBytes then
    { entry with
      mainData := entry.mainData ++
        wordBytes (swap32 (BitVec.ofNat 32 junkBytes ||| 0x80000000#32)) ++
        seedMemory (seed.getD fun _ => 0)
      rvzPackedSize := entry.rvzPackedSize + 4 + seedBytes }
  else entry

/-- The loop over a chunk: `none` when the rounds do not suffice. -/
def packChunk (junkInfo : OrderedMap Nat JunkInfo) (storeJunkEfficiently : Bool)
    (endOffset : Nat) : Nat → Nat → Bool → OutputParametersEntry →
    Except Nat (Option OutputParametersEntry)
  | 0, _, _, _ => .ok none
  | rounds + 1, currentOffset, firstLoopIteration, entry =>
    if currentOffset < endOffset then
      let (junkStart, junkEnd, seed) :=
        nextJunk junkInfo storeJunkEfficiently currentOffset endOffset
      if firstLoopIteration ∧ junkStart = endOffset then do
        let data ← readRange p.input currentOffset (endOffset - currentOffset)
        return some { entry with mainData := entry.mainData ++ data }
      else do
        let entry ← pushData p entry currentOffset (junkStart - currentOffset)
        let junkBytes := sub64 junkEnd junkStart
        packChunk junkInfo storeJunkEfficiently endOffset rounds ((junkStart + junkBytes) % 2 ^ 64)
          false (pushJunk entry junkBytes seed)
    else .ok (some entry)

/-- Chunk `i`, unless its group is reused. -/
def packEntry (c : ChunkParameters) (junkInfo : OrderedMap Nat JunkInfo) (rounds i : Nat)
    (entry : OutputParametersEntry) : Except Nat (Option OutputParametersEntry) :=
  if entry.reusedGroup then .ok (some entry)
  else
    let currentOffset := i * c.bytesPerChunk % 2 ^ 64
    let endOffset := min ((currentOffset + c.bytesPerChunk) % 2 ^ 64) p.totalSize
    packChunk p junkInfo (c.allowJunkReuse || !entry.hasReuseId) endOffset rounds currentOffset
      (!c.multipart) entry

/-- The chunks from number `i` on. -/
def packEntries (c : ChunkParameters) (junkInfo : OrderedMap Nat JunkInfo) (rounds : Nat) :
    Nat → List OutputParametersEntry → Except Nat (Option (List OutputParametersEntry))
  | _, [] => .ok (some [])
  | i, entry :: rest =>
    if i < c.chunks then do
      match ← packEntry p c junkInfo rounds i entry with
      | none => return none
      | some entry =>
        let rest ← packEntries c junkInfo rounds (i + 1) rest
        return rest.map (entry :: ·)
    else .ok (some (entry :: rest))

/-- `RVZPack`, with a number of rounds for each of its loops. -/
def rvzPack (c : ChunkParameters) (out : List OutputParametersEntry) (rounds : Nat) :
    Except Nat (Option (List OutputParametersEntry)) := do
  match ← search p rounds (searchStart p) with
  | none => return none
  | some s => packEntries p c s.junkInfo rounds 0 out

end DolphinXR.DiscIO.Rvz
