import DolphinXR.Core.GCMemcard
import DolphinXR.Lib.Bytes

/- A memory card and its files: `Open`, `Save` and `Format`, the reading, importing,
   exporting and removing of saves, and the save files themselves. Both copies of the
   directory and of the BAT are kept with which one is active.

   The files of a card are read and changed by `GetSaveDataBytes`, `ImportFile`, `ExportFile`
   and `RemoveFile`. Where the code indexes a vector or the map without a check, the model
   has a fault. -/
namespace DolphinXR.GCMemcard
open Lib

structure TwoCopies (α : Type) where
  block0 : α
  block1 : α
  /-- Whether the active one is the second. -/
  active : Bool

namespace TwoCopies
variable {α : Type}

def current (t : TwoCopies α) : α := if t.active then t.block1 else t.block0

/-- `UpdateDirectory` and `UpdateBat`: the inactive block is overwritten and becomes active. -/
def update (t : TwoCopies α) (a : α) : TwoCopies α :=
  if t.active then ⟨a, t.block1, false⟩ else ⟨t.block0, a, true⟩

def map (f : α → α) (t : TwoCopies α) : TwoCopies α := ⟨f t.block0, f t.block1, t.active⟩

end TwoCopies

structure Card where
  valid : Bool
  sizeBlocks : Nat
  sizeMb : Nat
  header : Header
  directories : TwoCopies Directory
  bats : TwoCopies BlockAlloc
  dataBlocks : List Block

structure Image where
  header : Header
  directory0 : Directory
  directory1 : Directory
  bat0 : BlockAlloc
  bat1 : BlockAlloc
  dataBlocks : List Block

/-! ### Open, Save and Format -/

def Image.filesize (i : Image) : Nat := blockSize * (mcFstBlocks + i.dataBlocks.length)

/-- `BytesToMegabits`, or zero. -/
def bytesToMegabits (bytes : Nat) : Nat :=
  if bytes % (1024 * 1024 / 8) ≠ 0 then 0 else bytes / (1024 * 1024 / 8)

def validMegabits : List Nat := [0x04, 0x08, 0x10, 0x20, 0x40, 0x80]

/-- Two copies after the repair of one of them, and the issues that are left: `fix` makes a copy of
    the other block with the next counter. -/
structure Repaired (α : Type) where
  block0 : α
  block1 : α
  errors0 : ErrorCode
  errors1 : ErrorCode

/-- The copy of a block over a corrupted one, if exactly this one of the four is corrupted. -/
def repair {α : Type} (check : α → ErrorCode) (fix : α → α) (single : Bool) (block0 block1 : α) :
    Repaired α :=
  if single && hasCriticalErrors (check block0) then
    ⟨fix block1, block1, check (fix block1), check block1⟩
  else if single && hasCriticalErrors (check block1) then
    ⟨block0, fix block0, check block0, check (fix block0)⟩
  else ⟨block0, block1, check block0, check block1⟩

def fixDirectory (d : Directory) : Directory :=
  Directory.fixChecksums { d with updateCounter := nextCounter d.updateCounter }

def fixBat (b : BlockAlloc) : BlockAlloc :=
  BlockAlloc.fixChecksums { b with updateCounter := nextCounter b.updateCounter }

def corruptedBlocks (codes : List ErrorCode) : Nat := codes.countP hasCriticalErrors

def openCard (i : Image) : ErrorCode × Option Card :=
  let megabits := bytesToMegabits i.filesize
  if megabits ∉ validMegabits then ([.invalidCardSize], none)
  else
    let headerErrors := i.header.checkForErrors megabits
    if hasCriticalErrors headerErrors then (headerErrors, none)
    else
      let corrupted := corruptedBlocks [i.directory0.checkForErrors, i.directory1.checkForErrors,
        i.bat0.checkForErrors megabits, i.bat1.checkForErrors megabits]
      let single := decide (corrupted = 1)
      let dirs := repair Directory.checkForErrors fixDirectory single i.directory0 i.directory1
      let bats := repair (·.checkForErrors megabits) fixBat single i.bat0 i.bat1
      let errors := headerErrors ++ dirs.errors0 ++ dirs.errors1 ++ bats.errors0 ++ bats.errors1
      if 1 < corrupted then (errors, none)
      else
        let card : Card :=
          { valid := true
            sizeBlocks := megabits * mbitToBlocks
            sizeMb := megabits
            header := i.header
            directories := ⟨dirs.block0, dirs.block1,
              decide (dirs.block0.updateCounter < dirs.block1.updateCounter)⟩
            bats := ⟨bats.block0, bats.block1,
              decide (bats.block0.updateCounter < bats.block1.updateCounter)⟩
            dataBlocks := i.dataBlocks }
        let errors := errors ++ card.directories.current.checkForErrorsWithBat card.bats.current
        (errors, if hasCriticalErrors errors then none else some card)

def save (c : Card) : Image where
  header := c.header
  directory0 := c.directories.block0
  directory1 := c.directories.block1
  bat0 := c.bats.block0
  bat1 := c.bats.block1
  dataBlocks := c.dataBlocks.take (c.sizeBlocks - mcFstBlocks)

structure FormatInput where
  flashId : Vector UInt8 12
  sizeMbits : Nat
  shiftJis : Bool
  rtcBias : Nat
  sramLanguage : Nat
  formatTime : Nat

/-- The serial of the Nintendo format algorithm. -/
def formatSerial (flashId : List UInt8) (rand : Nat) : List UInt8 :=
  match flashId with
  | [] => []
  | id :: rest =>
    let first := (rand * 0x41c64e6d + 0x3039) % 2 ^ 64 / 2 ^ 16
    let second := (first * 0x41c64e6d + 0x3039) % 2 ^ 64 / 2 ^ 16
    (id + UInt8.ofNat first) :: formatSerial rest (second % 0x8000)

/-- `InitializeHeaderData`. The bias is stored as the host has it. -/
def initializeHeaderData (f : FormatInput) : Vector UInt8 38 :=
  Vector.ofFn fun i =>
    (formatSerial f.flashId.toList f.formatTime ++ be 8 f.formatTime ++ (be 4 f.rtcBias).reverse ++
      be 4 f.sramLanguage ++ be 4 0 ++ be 2 0 ++ be 2 f.sizeMbits ++
      be 2 (if f.shiftJis then 1 else 0)).getD i 0

def formatCard (f : FormatInput) : Card where
  valid := true
  sizeBlocks := f.sizeMbits * mbitToBlocks
  sizeMb := f.sizeMbits
  header := Header.fixChecksums ⟨initializeHeaderData f, Vector.replicate 468 0xFF,
    Vector.replicate 2 0xFF, 0, 0, Vector.replicate 7680 0xFF⟩
  directories := ⟨.empty, .empty, false⟩
  bats := ⟨.empty f.sizeMbits, .empty f.sizeMbits, false⟩
  dataBlocks := List.replicate (f.sizeMbits * mbitToBlocks - mcFstBlocks)
    (Vector.replicate 0x2000 0xFF)

/-! ### Save files -/

structure Savefile where
  dirEntry : DEntry
  blocks : List Block
  deriving DecidableEq

inductive ReadSavefileErrorCode where
  | ioError
  | dataCorrupted
  deriving DecidableEq

def readBytes (n : Nat) (file : List UInt8) : Except ReadSavefileErrorCode (Vector UInt8 n) :=
  if h : n ≤ file.length then .ok ⟨(file.take n).toArray, by simpa using h⟩
  else .error .ioError

def readBlocks : Nat → List UInt8 → Except ReadSavefileErrorCode (List Block)
  | 0, _ => .ok []
  | n + 1, file => do
    let block ← readBytes 0x2000 file
    let rest ← readBlocks n (file.drop 0x2000)
    .ok (block :: rest)

def byteswapDEntrySavHeader (e : DEntry) : DEntry :=
  [0x06, 0x2C, 0x2E, 0x30, 0x32, 0x34, 0x36, 0x38, 0x3A, 0x3C, 0x3E].foldl
    (fun e p => e.swapIfInBounds p (p + 1)) e

def readSavefileGCI (file : List UInt8) : Except ReadSavefileErrorCode Savefile := do
  let entry ← readBytes 64 file
  let e : DEntry := entry
  if 64 + e.blockCount * blockSize ≠ file.length then .error .dataCorrupted
  else
    let blocks ← readBlocks e.blockCount (file.drop 64)
    .ok ⟨e, blocks⟩

def gcsFileMagic : List UInt8 := [0x47, 0x43, 0x53, 0x41, 0x56, 0x45]

/-- The block count is computed from the size of the file. -/
def readSavefileGCS (file : List UInt8) : Except ReadSavefileErrorCode Savefile := do
  let header ← readBytes 0x150 file
  if header.toList.take 6 ≠ gcsFileMagic then .error .dataCorrupted
  else if (file.length - 0x150) % blockSize ≠ 0 then .error .dataCorrupted
  else
    let entry ← readBytes 64 (header.toList.drop 0x110)
    let e : DEntry := entry
    let blockCount := (file.length - 0x150) / blockSize
    let blocks ← readBlocks blockCount (file.drop 0x150)
    .ok ⟨e.setBlockCount (blockCount % 65536), blocks⟩

def savMagic : List UInt8 :=
  [0x44, 0x41, 0x54, 0x45, 0x4C, 0x47, 0x43, 0x5F, 0x53, 0x41, 0x56, 0x45]

def readSavefileSAV (file : List UInt8) : Except ReadSavefileErrorCode Savefile := do
  let header ← readBytes 0xC0 file
  if header.toList.take 12 ≠ savMagic then .error .dataCorrupted
  else
    let entry ← readBytes 64 (header.toList.drop 0x80)
    let e : DEntry := byteswapDEntrySavHeader entry
    if 0xC0 + e.blockCount * blockSize ≠ file.length then .error .dataCorrupted
    else
      let blocks ← readBlocks e.blockCount (file.drop 0xC0)
      .ok ⟨e, blocks⟩

/-- The format of a save file is told by its size. -/
def readSavefile (file : List UInt8) : Except ReadSavefileErrorCode Savefile :=
  if file.length % blockSize = 64 then readSavefileGCI file
  else if file.length % blockSize = 0x150 then readSavefileGCS file
  else if file.length % blockSize = 0xC0 then readSavefileSAV file
  else .error .dataCorrupted

/-- `m_data_blocks[block - MC_FST_BLOCKS]`. -/
def dataBlock (dataBlocks : List Block) (block : Nat) : Except Fault Block :=
  if block < mcFstBlocks then .error .outOfRange
  else
    match dataBlocks[block - mcFstBlocks]? with
    | none => .error .outOfRange
    | some b => .ok b

def setDataBlock (dataBlocks : List Block) (block : Nat) (b : Block) : Except Fault (List Block) :=
  if block < mcFstBlocks ∨ dataBlocks.length ≤ block - mcFstBlocks then .error .outOfRange
  else .ok (dataBlocks.set (block - mcFstBlocks) b)

/-- `savefile.blocks[i]`. -/
def fileBlock (blocks : List Block) (i : Nat) : Except Fault Block :=
  match blocks[i]? with
  | none => .error .outOfRange
  | some b => .ok b

def Card.entry (c : Card) (index : Nat) : DEntry :=
  c.directories.current.dirEntries.toList.getD index .empty

def getNumFiles (c : Card) : Nat :=
  if c.valid then c.directories.current.dirEntries.toList.countP DEntry.inUse else 0

def titlePresent (c : Card) (d : DEntry) : Bool :=
  c.valid && c.directories.current.dirEntries.toList.any (hasSameIdentity · d)

/-! ### Reading -/

/-- Whether a block is one of the card's data blocks, as `GetSaveDataBytes` checks it. -/
def onCard (c : Card) (block : Nat) : Bool :=
  decide (mcFstBlocks ≤ block) && decide (block < mcFstBlocks + c.dataBlocks.length)

/-- The loop that skips the blocks before the offset: the block with the offset, and the offset
    in it. -/
def skipBlocks (c : Card) (block offset : Nat) : Option (Nat × Nat) :=
  if blockSize ≤ offset then
    let next := c.bats.current.getNextBlock block
    if onCard c next then skipBlocks c next (offset - blockSize) else none
  else some (block, offset)
termination_by offset
decreasing_by
  unfold blockSize at *
  omega

/-- The loop that copies one block at a time. -/
def copyBlocks (c : Card) (block offset remaining : Nat) : Except Fault (Option (List UInt8)) :=
  match dataBlock c.dataBlocks block with
  | .error e => .error e
  | .ok b =>
    let left := blockSize - offset
    let bytes := slice b.toList offset (min remaining left)
    if _h : offset < blockSize ∧ left < remaining then
      let next := c.bats.current.getNextBlock block
      if onCard c next then
        match copyBlocks c next 0 (remaining - left) with
        | .error e => .error e
        | .ok none => .ok none
        | .ok (some rest) => .ok (some (bytes ++ rest))
      else .ok none
    else .ok (some bytes)
termination_by remaining
decreasing_by omega

def getSaveDataBytes (c : Card) (saveIndex offset length : Nat) :
    Except Fault (Option (List UInt8)) :=
  if ¬c.valid ∨ dirlen ≤ saveIndex then .ok none
  else
    let entry := c.entry saveIndex
    if entry.blockCount = 0xFFFF ∨ ¬onCard c entry.firstBlock then .ok none
    else
      let fileSize := entry.blockCount * blockSize
      if fileSize ≤ offset then .ok none
      else
        match skipBlocks c entry.firstBlock offset with
        | none => .ok none
        | some (block, offsetInBlock) =>
          copyBlocks c block offsetInBlock (min length (fileSize - offset))

def dEntryFirstBlock (c : Card) (index : Nat) : Nat :=
  if ¬c.valid ∨ dirlen ≤ index then 0xFFFF
  else if c.sizeBlocks < (c.entry index).firstBlock then 0xFFFF
  else (c.entry index).firstBlock

def dEntryBlockCount (c : Card) (index : Nat) : Nat :=
  if ¬c.valid ∨ dirlen ≤ index then 0xFFFF
  else if c.sizeBlocks < (c.entry index).blockCount then 0xFFFF
  else (c.entry index).blockCount

/-- The loop of `GetSaveData`, or nothing if the chain is too short. -/
def saveDataLoop (c : Card) : Nat → Nat → Except Fault (Option (List Block))
  | 0, _ => .ok (some [])
  | n + 1, next =>
    if next = 0 ∨ next = 0xFFFF then .ok none
    else do
      let b ← dataBlock c.dataBlocks next
      let rest ← saveDataLoop c n (c.bats.current.getNextBlock next)
      .ok (rest.map (b :: ·))

def getSaveData (c : Card) (index : Nat) : Except Fault (Option (List Block)) :=
  if ¬c.valid then .ok none
  else if dEntryFirstBlock c index = 0xFFFF ∨ dEntryBlockCount c index = 0xFFFF then .ok none
  else saveDataLoop c (dEntryBlockCount c index) (dEntryFirstBlock c index)

def exportFile (c : Card) (index : Nat) : Except Fault (Option Savefile) :=
  if ¬c.valid ∨ dirlen ≤ index then .ok none
  else if ¬(c.entry index).inUse then .ok none
  else do
    let blocks ← getSaveData c index
    .ok (blocks.map fun blocks => ⟨c.entry index, blocks⟩)

/-! ### Saves that hold the number of their card -/

def crcStep {α : Type} [XorOp α] [HShiftRight α α α] [AndOp α] [OfNat α 0] [OfNat α 1]
    [DecidableEq α] (poly : α) (n : Nat) (crc : α) : α :=
  n.repeat (fun crc => if crc &&& 1 = 0 then crc >>> (1 : α) else crc >>> (1 : α) ^^^ poly) crc

def writeBytes (b : Block) (offset : Nat) (bytes : List UInt8) : Block :=
  bytes.zipIdx.foldl (fun b x => b.setIfInBounds (offset + x.2) x.1) b

/-- "f_zero.dat". -/
def fZeroName : List UInt8 := [0x66, 0x5F, 0x7A, 0x65, 0x72, 0x6F, 0x2E, 0x64, 0x61, 0x74]

def fzerogxMakeSaveGameValid (header : Header) (e : DEntry) (blocks : List Block) : List Block :=
  if ¬e.nameIs fZeroName then blocks
  else
    match blocks with
    | [b0, b1, b2, b3] =>
      let serial := header.calculateSerial
      let b1 := writeBytes b1 0x0066 (serial.1.take 2)
      let b3 := writeBytes b3 0x1580 (serial.2.take 2)
      let b1 := writeBytes b1 0x0060 (serial.1.drop 2)
      let b1 := writeBytes b1 0x0200 (serial.2.drop 2)
      let chksum : UInt16 := ((b0.toList ++ b1.toList ++ b2.toList ++ b3.toList).drop 2).foldl
        (fun chksum byte => crcStep 0x8408 8 (chksum ^^^ byte.toUInt16)) 0xFFFF
      let stored := 0xFFFF - chksum.toNat
      [writeBytes b0 0 (be 2 stored), b1, b2, b3]
    | _ => blocks

/-- "PSO_SYSTEM" and "PSO3_SYSTEM". -/
def psoName : List UInt8 := [0x50, 0x53, 0x4F, 0x5F, 0x53, 0x59, 0x53, 0x54, 0x45, 0x4D]

def pso3Name : List UInt8 := [0x50, 0x53, 0x4F, 0x33, 0x5F, 0x53, 0x59, 0x53, 0x54, 0x45, 0x4D]

def isPso (e : DEntry) : Bool := e.nameIs psoName || e.nameIs pso3Name

/-- The second block of a PSO system file, with the number of the card and a checksum. -/
def psoBlock (header : Header) (e : DEntry) (b : Block) : Block :=
  let offset := if e.nameIs psoName then 0 else 0x10
  let serial := header.calculateSerial
  let b := writeBytes (writeBytes b 0x0158 serial.1) 0x015C serial.2
  let chksum : UInt32 := ((b.toList.take (0x0164 + offset)).drop 0x004C).foldl
    (fun chksum byte =>
      (chksum >>> 8) ^^^ crcStep 0xEDB88320 8 ((chksum ^^^ byte.toUInt32) &&& 0xFF)) 0xDEBB20E3
  writeBytes b 0x0048 (be 4 (0xFFFFFFFF - chksum.toNat))

/-- `PSO_MakeSaveGameValid`, which does not look at the number of blocks. -/
def psoMakeSaveGameValid (header : Header) (e : DEntry) (blocks : List Block) :
    Except Fault (List Block) :=
  if ¬isPso e then .ok blocks
  else do
    let b ← fileBlock blocks 1
    .ok (blocks.set 1 (psoBlock header e b))

/-! ### Writing -/

inductive ImportFileRetVal where
  | success
  | noMemcard
  | outOfDirEntries
  | outOfBlocks
  | titlePresent
  deriving DecidableEq

def insertEntry (e : DEntry) : List DEntry → List DEntry
  | [] => []
  | old :: rest => if old.inUse then old :: insertEntry e rest else e :: rest

theorem length_insertEntry (e : DEntry) : ∀ l, (insertEntry e l).length = l.length
  | [] => rfl
  | old :: rest => by
    unfold insertEntry
    split
    · rw [List.length_cons, List.length_cons, length_insertEntry e rest]
    · rfl

def Directory.insert (d : Directory) (e : DEntry) : Directory :=
  { d with
    dirEntries := ⟨(insertEntry e d.dirEntries.toList).toArray, by
      rw [List.size_toArray, length_insertEntry, Vector.length_toList]⟩
    updateCounter := nextCounter d.updateCounter }

/-- The block after this one, with `n` blocks to go. -/
def followingBlock (bat : BlockAlloc) (sizeBlocks n block : Nat) : Except Fault Nat :=
  if n = 0 then .ok 0xFFFF else bat.nextFreeBlock sizeBlocks (block + 1)

/-- The loop of `ImportFile` with `n` blocks to go, the next one being `i`. -/
def importLoop (sizeBlocks : Nat) (blocks : List Block) :
    Nat → Nat → Nat → BlockAlloc → List Block → Except Fault (BlockAlloc × List Block)
  | 0, _, _, bat, dataBlocks => .ok (bat, dataBlocks)
  | n + 1, i, block, bat, dataBlocks => do
    let b ← fileBlock blocks i
    let dataBlocks ← setDataBlock dataBlocks block b
    let next ← followingBlock bat sizeBlocks n block
    let bat ← bat.setMap block next
    importLoop sizeBlocks blocks n (i + 1) next { bat with lastAllocatedBlock := block } dataBlocks

/-- `FixChecksums` of all blocks. -/
def Card.fixChecksums (c : Card) : Card :=
  { c with
    header := c.header.fixChecksums
    directories := c.directories.map Directory.fixChecksums
    bats := c.bats.map BlockAlloc.fixChecksums }

/-- `ImportFile` after its checks. -/
def importAt (c : Card) (s : Savefile) (firstBlock : Nat) : Except Fault Card := do
  let entry := (s.dirEntry.setFirstBlock firstBlock).incrementCopyCounter
  let directories := c.directories.update (c.directories.current.insert entry)
  let blocks ← psoMakeSaveGameValid c.header s.dirEntry
    (fzerogxMakeSaveGameValid c.header s.dirEntry s.blocks)
  let written ← importLoop c.sizeBlocks blocks s.dirEntry.blockCount 0 firstBlock c.bats.current
    c.dataBlocks
  let bat := { written.1 with
    freeBlocks := (written.1.freeBlocks + (65536 - s.dirEntry.blockCount)) % 65536
    updateCounter := nextCounter written.1.updateCounter }
  .ok (Card.fixChecksums
    { c with
      directories := directories
      bats := c.bats.update bat
      dataBlocks := written.2 })

def importFile (c : Card) (s : Savefile) : Except Fault (ImportFileRetVal × Card) :=
  if ¬c.valid then .ok (.noMemcard, c)
  else if dirlen ≤ getNumFiles c then .ok (.outOfDirEntries, c)
  else if c.bats.current.freeBlocks < s.dirEntry.blockCount then .ok (.outOfBlocks, c)
  else if titlePresent c s.dirEntry then .ok (.titlePresent, c)
  else do
    let firstBlock ← c.bats.current.nextFreeBlock c.sizeBlocks c.bats.current.lastAllocatedBlock
    if firstBlock = 0xFFFF then .ok (.outOfBlocks, c)
    else
      let imported ← importAt c s firstBlock
      .ok (.success, imported)

inductive RemoveFileRetVal where
  | success
  | noMemcard
  | deleteFail
  deriving DecidableEq

def Directory.erase (d : Directory) (index : Nat) : Directory :=
  { d with
    dirEntries := d.dirEntries.setIfInBounds index .empty
    updateCounter := nextCounter d.updateCounter }

def removeFile (c : Card) (fuel index : Nat) : Except Fault (RemoveFileRetVal × Card) :=
  if ¬c.valid then .ok (.noMemcard, c)
  else if dirlen ≤ index then .ok (.deleteFail, c)
  else do
    let entry := c.entry index
    match ← c.bats.current.clearBlocks fuel entry.firstBlock entry.blockCount with
    | none => .ok (.deleteFail, c)
    | some bat =>
      .ok (.success, Card.fixChecksums
        { c with
          bats := c.bats.update { bat with updateCounter := nextCounter bat.updateCounter }
          directories := c.directories.update (c.directories.current.erase index) })

end DolphinXR.GCMemcard
