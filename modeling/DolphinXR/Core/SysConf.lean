import DolphinXR.Lib.Bytes

/- The SYSCONF file of the Wii (Core/SysConf.cpp): a header, a table of 16-bit offsets with one
   behind the last entry, the entries, and a footer in the last four bytes. An entry is its type and
   the length of its name in one byte, the name, for an array the length of the data, and the data;
   both lengths are stored minus one. The file is read with a handle that stays where it is when it
   is to seek behind the end, and that reads what there is; what it does not read is left zero.
   Left out: the log messages, where the file is in the NAND, and whether writing it succeeds. -/
namespace DolphinXR.SysConf
open Lib

def sysconfSize : Nat := 0x4000

inductive EntryType where
  | bigArray | smallArray | byte | short | long | longLong | byteBool
  deriving DecidableEq

namespace EntryType

def code : EntryType → Nat
  | bigArray => 1
  | smallArray => 2
  | byte => 3
  | short => 4
  | long => 5
  | longLong => 6
  | byteBool => 7

def ofCode : Nat → Option EntryType
  | 1 => some bigArray
  | 2 => some smallArray
  | 3 => some byte
  | 4 => some short
  | 5 => some long
  | 6 => some longLong
  | 7 => some byteBool
  | _ => none

end EntryType

structure Entry where
  type : EntryType
  name : Bytes
  bytes : Bytes
  deriving DecidableEq

structure FileHandle where
  content : Bytes
  position : Nat

namespace FileHandle

def seek (offset : Nat) (file : FileHandle) : FileHandle :=
  if file.content.length < offset then file else { file with position := offset }

/-- What `count` zero bytes become, and the handle behind what was read. -/
def read (count : Nat) (file : FileHandle) : Bytes × FileHandle :=
  let got := slice file.content file.position count
  (got ++ List.replicate (count - got.length) 0,
    { file with position := file.position + got.length })

end FileHandle

/-! ### Loading -/

def getNonArrayEntrySize : EntryType → Nat
  | .byte | .byteBool => 1
  | .short => 2
  | .long => 4
  | .longLong => 8
  | .bigArray | .smallArray => 0

/-- The stored length is one less. -/
def readLength (type : EntryType) (file : FileHandle) : Nat × FileHandle :=
  match type with
  | .bigArray =>
    let read := file.read 2
    (readBE read.1 + 1, read.2)
  | .smallArray =>
    let read := file.read 1
    (readBE read.1 + 1, read.2)
  | type => (getNonArrayEntrySize type, file)

/-- An entry, or none if its type is unknown. -/
def readEntry (offset : Nat) (file : FileHandle) : Option (Entry × FileHandle) :=
  let description := (file.seek offset).read 1
  let code := (readBE description.1 &&& 0xe0) >>> 5
  let name := description.2.read ((readBE description.1 &&& 0x1f) + 1)
  match EntryType.ofCode code with
  | none => none
  | some type =>
    let length := readLength type name.2
    let bytes := length.2.read length.1
    some ({ type, name := name.1, bytes := bytes.1 }, bytes.2)

def readOffsets : Nat → FileHandle → List Nat × FileHandle
  | 0, file => ([], file)
  | count + 1, file =>
    let offset := file.read 2
    let others := readOffsets count offset.2
    (readBE offset.1 :: others.1, others.2)

def loadOffsets (content : Bytes) : List Nat × FileHandle :=
  let numberOfEntries := (FileHandle.seek 4 { content, position := 0 }).read 2
  readOffsets (readBE numberOfEntries.1) numberOfEntries.2

/-- Whether all entries were read, and those that were. -/
def loadEntries : List Nat → FileHandle → Bool × List Entry
  | [], _ => (true, [])
  | offset :: offsets, file =>
    match readEntry offset file with
    | none => (false, [])
    | some (entry, file) =>
      let others := loadEntries offsets file
      (others.1, entry :: others.2)

def loadFromFile (content : Bytes) : Bool × List Entry :=
  let offsets := loadOffsets content
  loadEntries offsets.1 offsets.2

def insertDefaultEntries (entries : List Entry) : List Entry :=
  let ascii := fun name : String => name.toList.map fun c => UInt8.ofNat c.toNat
  let zeros := fun count => List.replicate count (0 : UInt8)
  let entry := fun type name bytes => ({ type, name := ascii name, bytes } : Entry)
  entries ++
    [entry .bigArray "BT.DINF" (zeros (0x460 + 1)),
      entry .bigArray "BT.CDIF" (zeros (0x204 + 1)),
      entry .long "BT.SENS" [0, 0, 0, 3],
      entry .byte "BT.BAR" [1],
      entry .byte "BT.SPKV" [0x58],
      entry .byte "BT.MOT" [1],
      entry .smallArray "IPL.NIK"
        ([0, 100, 0, 111, 0, 108, 0, 112, 0, 104, 0, 105, 0, 110] ++ zeros 7 ++ [7]),
      entry .byte "IPL.LNG" [1],
      entry .bigArray "IPL.SADR" (0x6c :: zeros 0x1007),
      entry .smallArray "IPL.PC" ([0, 0x04, 0x14] ++ zeros 0x47),
      entry .long "IPL.CB" [0, 0, 0, 0],
      entry .byte "IPL.AR" [1],
      entry .byte "IPL.SSV" [1],
      entry .byteBool "IPL.CD" [0],
      entry .byteBool "IPL.CD2" [0],
      entry .byteBool "IPL.EULA" [1],
      entry .byte "IPL.UPT" [2],
      entry .byte "IPL.PGS" [0],
      entry .byte "IPL.E60" [1],
      entry .byte "IPL.DH" [0],
      entry .long "IPL.INC" [0, 0, 0, 8],
      entry .long "IPL.FRC" [0, 0, 0, 0x28],
      entry .smallArray "IPL.IDL" [0, 1],
      entry .long "NET.WCFG" [0, 0, 0, 1],
      entry .long "NET.CTPC" (zeros 4),
      entry .byte "WWW.RST" [0],
      entry .byteBool "MPLS.MOVIE" [1]]

/-- The entries after `Load`; `none` is a file that cannot be opened. -/
def load (file : Option Bytes) : List Entry :=
  match file with
  | none => insertDefaultEntries []
  | some content =>
    if content.length ≠ sysconfSize then insertDefaultEntries []
    else
      let loaded := loadFromFile content
      if loaded.1 then loaded.2 else insertDefaultEntries loaded.2

/-- An entry as `Save` writes it. The lengths are made narrow before one is taken off. -/
def entryBytes (item : Entry) : Bytes :=
  let description :=
    UInt8.ofNat item.type.code <<< 5 ||| (UInt8.ofNat item.name.length - 1)
  description :: item.name ++
    match item.type with
    | .bigArray =>
      let dataSize := item.bytes.length % 2 ^ 16
      be 2 (dataSize + 2 ^ 16 - 1) ++ item.bytes.take dataSize
    | .smallArray =>
      let dataSize := item.bytes.length % 2 ^ 8
      be 1 (dataSize + 2 ^ 8 - 1) ++ item.bytes.take dataSize
    | _ => item.bytes

def entriesBeginOffset (entries : List Entry) : Nat := 4 + 2 + 2 * (entries.length + 1)

def footer : Bytes := [0x53, 0x43, 0x65, 0x64]

/-- The content of the file that `Save` writes. -/
def save (entries : List Entry) : Bytes :=
  let header : Bytes := [0x53, 0x43, 0x76, 0x30] ++ be 2 entries.length
  let begin := entriesBeginOffset entries
  -- The table and the entries grow side by side.
  let written := entries.foldl
    (fun (x : Bytes × Bytes) item => (x.1 ++ be 2 (begin + x.2.length), x.2 ++ entryBytes item))
    (header, [])
  let buffer := written.1 ++ be 2 (begin + written.2.length) ++ written.2
  let sized := (buffer ++ List.replicate (sysconfSize - buffer.length) 0).take sysconfSize
  sized.take (sysconfSize - footer.length) ++ footer

end DolphinXR.SysConf
