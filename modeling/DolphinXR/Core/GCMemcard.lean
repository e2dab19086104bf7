import DolphinXR.Lib.Walk
import Mathlib.Algebra.Group.Nat.Defs

/- The GameCube memory card image (Core/HW/GCMemcard/GCMemcard.cpp and GCMemcardUtils.cpp):
   a header, two copies of the directory and of the block allocation table (BAT), and the
   data blocks. All of them are blocks of 0x2000 bytes that are read into structures of
   this size, so an image is the structures. A `u16` is a natural number here, and the
   update counters are integers.

   A vector that is indexed out of range has no defined result, and `ClearBlocks`, which
   follows the BAT without a bound, is given fuel. -/
namespace DolphinXR.GCMemcard

/-- `BLOCK_SIZE` bytes. -/
abbrev Block := Vector UInt8 0x2000

def blockSize : Nat := 0x2000

def mbitToBlocks : Nat := 16

def mcFstBlocks : Nat := 5

def dirlen : Nat := 127

inductive Fault where
  | outOfRange
  | noEnd
  deriving DecidableEq

/-- The bytes as big-endian numbers of 16 bits. -/
def words : List UInt8 → List Nat
  | a :: b :: rest => (a.toNat * 256 + b.toNat) :: words rest
  | _ => []

def swap16 (n : Nat) : Nat := n % 256 * 256 + n / 256

def noFFFF (csum : Nat) : Nat := if csum = 0xFFFF then 0 else csum

def calculateMemcardChecksums (data : List Nat) : Nat × Nat :=
  (noFFFF (swap16 (data.foldl (fun csum d => (csum + d) % 65536) 0)),
    noFFFF (swap16 (data.foldl (fun csum d => (csum + (d ^^^ 0xFFFF)) % 65536) 0)))

inductive ValidityIssue where
  | failedToOpen
  | ioError
  | invalidCardSize
  | invalidChecksum
  | mismatchedCardSize
  | freeBlockMismatch
  | dirBatInconsistent
  | dataInUnusedArea
  deriving DecidableEq

/-- `GCMemcardErrorCode`: the issues that have been found. -/
abbrev ErrorCode := List ValidityIssue

def hasCriticalErrors (code : ErrorCode) : Bool := code.any fun i => i != .dataInUnusedArea

def issueIf (p : Prop) [Decidable p] (i : ValidityIssue) : ErrorCode := if p then [i] else []

structure Header where
  /-- `HeaderData`. -/
  data : Vector UInt8 38
  unused1 : Vector UInt8 468
  updateCounter : Vector UInt8 2
  checksum : Nat
  checksumInv : Nat
  unused2 : Vector UInt8 7680

namespace Header

def sizeMb (h : Header) : Nat := h.data[34].toNat * 256 + h.data[35].toNat

def calculateChecksums (h : Header) : Nat × Nat :=
  calculateMemcardChecksums (words (h.data.toList ++ h.unused1.toList ++ h.updateCounter.toList))

def fixChecksums (h : Header) : Header :=
  { h with checksum := h.calculateChecksums.1, checksumInv := h.calculateChecksums.2 }

def checkForErrors (h : Header) (cardSizeMbits : Nat) : ErrorCode :=
  issueIf (h.sizeMb ≠ cardSizeMbits) .mismatchedCardSize ++
  issueIf (h.unused1.toList.any (· != 0xFF) ∨ h.unused2.toList.any (· != 0xFF)) .dataInUnusedArea ++
  issueIf (h.calculateChecksums ≠ (h.checksum, h.checksumInv)) .invalidChecksum

/-- The numbers of the card in the order of their bytes: every other four bytes of the first 32,
    combined. -/
def calculateSerial (h : Header) : List UInt8 × List UInt8 :=
  let combine (off : Nat) := (List.range 4).map fun i =>
    (List.range 4).foldl (fun b j => b ^^^ h.data.toList.getD (8 * j + off + i) 0) 0
  (combine 0, combine 4)

end Header

/-! ### Directory -/

abbrev DEntry := Vector UInt8 64

namespace DEntry

/-- An entry that is not in use is filled with 0xFF. -/
def empty : DEntry := Vector.replicate 64 0xFF

def gamecode (e : DEntry) : List UInt8 := [e[0], e[1], e[2], e[3]]

/-- Whether the game code is not `UNINITIALIZED_GAMECODE`. -/
def inUse (e : DEntry) : Bool := decide (e.gamecode ≠ [0xFF, 0xFF, 0xFF, 0xFF])

def makercode (e : DEntry) : List UInt8 := [e[4], e[5]]

def filename (e : DEntry) : List UInt8 := (e.toList.drop 8).take 32

def firstBlock (e : DEntry) : Nat := e[0x36].toNat * 256 + e[0x37].toNat

def blockCount (e : DEntry) : Nat := e[0x38].toNat * 256 + e[0x39].toNat

def setFirstBlock (e : DEntry) (block : Nat) : DEntry :=
  (e.set 0x36 (UInt8.ofNat (block / 256))).set 0x37 (UInt8.ofNat block)

def setBlockCount (e : DEntry) (count : Nat) : DEntry :=
  (e.set 0x38 (UInt8.ofNat (count / 256))).set 0x39 (UInt8.ofNat count)

def incrementCopyCounter (e : DEntry) : DEntry := e.set 0x35 (e[0x35] + 1)

/-- `strcmp` with the file name, which has no more bytes than 32 after the string. -/
def nameIs (e : DEntry) (name : List UInt8) : Bool :=
  e.filename.take (name.length + 1) == name ++ [0]

end DEntry

def sameName : List UInt8 → List UInt8 → Bool
  | a :: l, b :: l' => if a = 0 then b == 0 else if a = b then sameName l l' else false
  | _, _ => true

def hasSameIdentity (lhs rhs : DEntry) : Bool :=
  lhs.gamecode == rhs.gamecode && lhs.makercode == rhs.makercode &&
    sameName lhs.filename rhs.filename

/-- `m_update_counter + 1` in 16 bits with a sign. -/
def nextCounter (n : Int) : Int := (n + 1 + 32768) % 65536 - 32768

structure Directory where
  dirEntries : Vector DEntry 127
  padding : Vector UInt8 58
  updateCounter : Int
  checksum : Nat
  checksumInv : Nat

namespace Directory

def calculateChecksums (d : Directory) : Nat × Nat :=
  calculateMemcardChecksums
    (words (d.dirEntries.toList.flatMap (·.toList) ++ d.padding.toList) ++
      [(d.updateCounter % 65536).toNat])

def fixChecksums (d : Directory) : Directory :=
  { d with checksum := d.calculateChecksums.1, checksumInv := d.calculateChecksums.2 }

/-- The constructor of `Directory`. -/
def empty : Directory :=
  ⟨Vector.replicate 127 .empty, Vector.replicate 58 0xFF, 0, swap16 0xF003, 0⟩

def checkForErrors (d : Directory) : ErrorCode :=
  issueIf (d.calculateChecksums ≠ (d.checksum, d.checksumInv)) .invalidChecksum ++
  issueIf (d.padding.toList.any (· != 0xFF)) .dataInUnusedArea

end Directory

/-! ### Block allocation table -/

structure BlockAlloc where
  checksum : Nat
  checksumInv : Nat
  updateCounter : Int
  freeBlocks : Nat
  lastAllocatedBlock : Nat
  map : Vector Nat 4091

namespace BlockAlloc

def calculateChecksums (b : BlockAlloc) : Nat × Nat :=
  calculateMemcardChecksums ((b.updateCounter % 65536).toNat :: b.freeBlocks ::
    b.lastAllocatedBlock :: b.map.toList)

def fixChecksums (b : BlockAlloc) : BlockAlloc :=
  { b with checksum := b.calculateChecksums.1, checksumInv := b.calculateChecksums.2 }

/-- The constructor of `BlockAlloc`. -/
def empty (sizeMbits : Nat) : BlockAlloc :=
  fixChecksums ⟨0, 0, 0, sizeMbits * mbitToBlocks - mcFstBlocks, 4, Vector.replicate 4091 0⟩

def getNextBlock (b : BlockAlloc) (block : Nat) : Nat :=
  if h : 5 ≤ block ∧ block ≤ 4091 then b.map[block - 5] else 0

def mapAt (b : BlockAlloc) (block : Nat) : Except Fault Nat :=
  if h : 5 ≤ block ∧ block < 4096 then .ok b.map[block - 5] else .error .outOfRange

def setMap (b : BlockAlloc) (block value : Nat) : Except Fault BlockAlloc :=
  if h : 5 ≤ block ∧ block < 4096 then .ok { b with map := b.map.set (block - 5) value }
  else .error .outOfRange

/-- The first free block of `n`, from `i` on. -/
def firstFree (b : BlockAlloc) : Nat → Nat → Except Fault (Option Nat)
  | 0, _ => .ok none
  | n + 1, i => do
    let value ← b.mapAt i
    if value = 0 then .ok (some i) else b.firstFree n (i + 1)

/-- `std::clamp` to the blocks of the map. -/
def clampBlock (block : Nat) : Nat := max 5 (min block 4096)

def nextFreeBlock (b : BlockAlloc) (maxBlock startingBlock : Nat) : Except Fault Nat := do
  if b.freeBlocks = 0 then .ok 0xFFFF
  else
    let start := clampBlock startingBlock
    match ← b.firstFree (clampBlock maxBlock - start) start with
    | some i => .ok i
    | none =>
      match ← b.firstFree (start - 5) 5 with
      | some i => .ok i
      | none => .ok 0xFFFF

/-- The blocks that `ClearBlocks` collects, and where it stops. -/
def collectBlocks (b : BlockAlloc) : Nat → Nat → Except Fault (List Nat × Nat)
  | 0, _ => .error .noEnd
  | fuel + 1, block => do
    if block = 0xFFFF ∨ block = 0 then .ok ([], block)
    else
      let rest ← b.collectBlocks fuel (b.getNextBlock block)
      .ok (block :: rest.1, rest.2)

/-- The loop over the collected blocks. -/
def clearAll (b : BlockAlloc) : List Nat → Except Fault BlockAlloc
  | [] => .ok b
  | block :: rest => do
    let b ← b.setMap block 0
    b.clearAll rest

def clearBlocks (b : BlockAlloc) (fuel startingBlock blockCount : Nat) :
    Except Fault (Option BlockAlloc) := do
  let blocks ← b.collectBlocks fuel startingBlock
  if blocks.2 = 0 ∨ blocks.1.length ≠ blockCount then .ok none
  else
    let b ← b.clearAll blocks.1
    .ok (some { b with freeBlocks := (b.freeBlocks + blockCount) % 65536 })

def cardMap (b : BlockAlloc) (sizeMbits : Nat) : List Nat :=
  b.map.toList.take (sizeMbits * mbitToBlocks - mcFstBlocks)

def checkForErrors (b : BlockAlloc) (sizeMbits : Nat) : ErrorCode :=
  issueIf (b.calculateChecksums ≠ (b.checksum, b.checksumInv)) .invalidChecksum ++
  if 0 < sizeMbits ∧ sizeMbits ≤ 256 then
    let blocksInUse := (b.cardMap sizeMbits).countP (· != 0)
    issueIf (sizeMbits * mbitToBlocks - mcFstBlocks - blocksInUse ≠ b.freeBlocks)
      .freeBlockMismatch ++
    issueIf ((b.map.toList.drop (sizeMbits * mbitToBlocks - mcFstBlocks)).any (· != 0))
      .dataInUnusedArea
  else [.invalidCardSize]

end BlockAlloc

/-- Whether one comes to the last block of a file in as many steps as it has blocks. -/
def chainMatches (bat : BlockAlloc) : Nat → Nat → Bool
  | 0, _ => false
  | remaining + 1, block =>
    let next := bat.getNextBlock block
    if next = 0 then false
    else if next = 0xFFFF then remaining == 0
    else chainMatches bat remaining next

def Directory.checkForErrorsWithBat (d : Directory) (bat : BlockAlloc) : ErrorCode :=
  issueIf (d.dirEntries.toList.any fun e => e.inUse && !chainMatches bat e.blockCount e.firstBlock)
    .dirBatInconsistent

end DolphinXR.GCMemcard
