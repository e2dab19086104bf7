import DolphinXR.Lib.Bytes
import DolphinXR.DiscIO.DirectoryBlobLayout

/- The file system table a directory blob writes (DiscIO/DirectoryBlob.cpp,
   `BuildFST`). The names are converted to Shift-JIS, the sizes of the folders
   are counted, and `WriteDirectory` walks the tree with two cursors into one
   vector: the entries grow from its start and the names from behind the last
   entry. On the way each file is given its place on the disc.

   The vector is spliced as in the source. Offsets are natural numbers; what is
   written as a 32-bit word is cut to 32 bits, and name offsets to 24. Left out:
   the nodes' `m_user_data`, and the assertion on the name table's size, which
   only reports. -/
namespace DolphinXR.DiscIO.DirectoryBlob
open Common Lib

def entrySize : Nat := 0x0c
def fileEntry : UInt8 := 0
def directoryEntry : UInt8 := 1

structure BuilderContentSource where
  offset : Nat
  size : Nat
  source : ContentSource

/-- A file with its contents or a folder with its entries. A folder's size is set
    by `recalculateFolderSizes`. -/
inductive FSTBuilderNode where
  | file (filename : Bytes) (size : Nat) (content : List BuilderContentSource)
  | folder (filename : Bytes) (size : Nat) (content : List FSTBuilderNode)

namespace FSTBuilderNode

def filename : FSTBuilderNode → Bytes
  | file name _ _ => name
  | folder name _ _ => name

end FSTBuilderNode

open FSTBuilderNode

section Convert
variable (utf8ToSHIFTJIS : Bytes → Bytes)

mutual

/-- `ConvertUTF8NamesToSHIFTJIS` on one entry, and below on the entries of a folder. -/
def convertNode : FSTBuilderNode → FSTBuilderNode
  | file name size content => file (utf8ToSHIFTJIS name) size content
  | folder name size content =>
    folder (utf8ToSHIFTJIS name) size (convertUTF8NamesToSHIFTJIS content)

def convertUTF8NamesToSHIFTJIS : List FSTBuilderNode → List FSTBuilderNode
  | [] => []
  | entry :: fst => convertNode entry :: convertUTF8NamesToSHIFTJIS fst

end

end Convert

mutual

/-- `ComputeNameSize`: the names of the tree, each with its zero byte. -/
def nodeNameSize : FSTBuilderNode → Nat
  | file name _ _ => name.length + 1
  | folder name _ content => computeNameSize content + (name.length + 1)

def computeNameSize : List FSTBuilderNode → Nat
  | [] => 0
  | entry :: files => nodeNameSize entry + computeNameSize files

end

mutual

/-- `RecalculateFolderSizes`: the number of entries, and the tree with every
    folder's size set to the number of entries below it. -/
def recalculateNode : FSTBuilderNode → Nat × FSTBuilderNode
  | file name size content => (1, file name size content)
  | folder name _ content =>
    let c := recalculateFolderSizes content
    (1 + c.1, folder name c.1 c.2)

def recalculateFolderSizes : List FSTBuilderNode → Nat × List FSTBuilderNode
  | [] => (0, [])
  | entry :: fst =>
    let e := recalculateNode entry
    let r := recalculateFolderSizes fst
    (e.1 + r.1, e.2 :: r.2)

end

def toUpper (c : UInt8) : UInt8 := if 97 ≤ c ∧ c ≤ 122 then c - 32 else c

/-- Lexicographic order of names, `operator<` of `std::string`. -/
def nameLess : Bytes → Bytes → Bool
  | _, [] => false
  | [], _ :: _ => true
  | a :: s, b :: t => decide (a < b) || (a == b && nameLess s t)

/-- The comparison `WriteDirectory` sorts by. -/
def nodeLess (one two : FSTBuilderNode) : Bool :=
  let oneUpper := one.filename.map toUpper
  let twoUpper := two.filename.map toUpper
  if oneUpper = twoUpper then nameLess one.filename two.filename else nameLess oneUpper twoUpper

mutual

def sortNode : FSTBuilderNode → FSTBuilderNode
  | file name size content => file name size content
  | folder name size content =>
    folder name size ((sortBelow content).mergeSort fun a b => !nodeLess b a)

def sortBelow : List FSTBuilderNode → List FSTBuilderNode
  | [] => []
  | entry :: entries => sortNode entry :: sortBelow entries

end

/-- The sort at the start of every call of `WriteDirectory`, done for all folders
    at once: the comparison looks at nothing but names, so it does not matter
    when a folder's own entries are sorted. Entries of one folder with the same
    name, whose order `std::ranges::sort` leaves open, keep theirs. -/
def sortEntries (nodes : List FSTBuilderNode) : List FSTBuilderNode :=
  (sortBelow nodes).mergeSort fun a b => !nodeLess b a

/-! ### Writing -/

/-- The vector with its two cursors, the address of the next file, and what has
    been added to `m_contents`. -/
structure FSTWriter where
  fstData : Bytes
  fstOffset : Nat
  nameOffset : Nat
  dataOffset : Nat
  contents : List DiscContent

/-- The 12 bytes of an entry. -/
def entryBytes (type : UInt8) (nameOffset word1 word2 : Nat) : Bytes :=
  type :: (be 3 nameOffset ++ (be 4 word1 ++ be 4 word2))

namespace FSTWriter

def writeEntryData (w : FSTWriter) (type : UInt8) (nameOffset dataOffset length : Nat)
    (addressShift : Nat) : FSTWriter :=
  { w with
    fstData := splice w.fstData w.fstOffset
      (entryBytes type nameOffset (dataOffset / 2 ^ addressShift) length)
    fstOffset := w.fstOffset + entrySize }

/-- `strncpy` of a name and one more byte: zeros from the first zero byte on. -/
def copiedName (name : Bytes) : Bytes :=
  let copied := name.takeWhile (· ≠ 0)
  copied ++ List.replicate (name.length + 1 - copied.length) 0

def writeEntryName (w : FSTWriter) (name : Bytes) (nameTableOffset : Nat) : FSTWriter :=
  { w with
    fstData := splice w.fstData (w.nameOffset + nameTableOffset) (copiedName name)
    nameOffset := w.nameOffset + (name.length + 1) }

end FSTWriter

/-- What the partition brings to its table: whether it is on a Triforce disc, and
    the shift of its addresses, 2 on a Wii disc. -/
structure FSTConfig where
  isTriforce : Bool
  addressShift : Nat

/-- Where a file goes that could start at `dataOffset`: the range of the Triforce's
    DIMM is skipped. -/
def FSTConfig.fileAddress (p : FSTConfig) (dataOffset size : Nat) : Nat :=
  if p.isTriforce ∧ dataOffset < 0x1F800000 ∧ dataOffset + size > 0x1F000000 then 0x1F800000
  else dataOffset

def FSTConfig.dataAlignment (p : FSTConfig) : Nat := if p.isTriforce then 0x20 else 0x8000

/-- The contents of a file that starts at `dataOffset`. -/
def addContents (dataOffset : Nat) (content : List BuilderContentSource) : List DiscContent :=
  content.flatMap fun c => add (dataOffset + c.offset) c.size c.source

section Write
variable (p : FSTConfig) (nameTableOffset : Nat)

mutual

/-- The body of the loop of `WriteDirectory`, and below `WriteDirectory` itself on
    entries already sorted. -/
def writeNode : FSTBuilderNode → Nat → FSTWriter → FSTWriter
  | folder name size content, parentEntryIndex, w =>
    let entryIndex := w.fstOffset / entrySize
    let w := w.writeEntryData directoryEntry w.nameOffset parentEntryIndex
      (entryIndex + size + 1) 0
    let w := w.writeEntryName name nameTableOffset
    writeDirectory content entryIndex w
  | file name size content, _, w =>
    let dataOffset := p.fileAddress w.dataOffset size
    let w := w.writeEntryData fileEntry w.nameOffset dataOffset size p.addressShift
    let w := w.writeEntryName name nameTableOffset
    { w with
      contents := w.contents ++ addContents dataOffset content
      dataOffset := alignUp (dataOffset + size) p.dataAlignment }

def writeDirectory : List FSTBuilderNode → Nat → FSTWriter → FSTWriter
  | [], _, w => w
  | entry :: sortedEntries, parentEntryIndex, w =>
    writeDirectory sortedEntries parentEntryIndex (writeNode entry parentEntryIndex w)

end

end Write

/-- What `BuildFST` leaves behind: the table, the words it writes into the disc
    header, and the contents and the data size of the partition. -/
structure BuiltFST where
  fstData : Bytes
  discHeader : Bytes
  contents : List DiscContent
  dataSize : Nat

def write32 (data offset : Nat) (buffer : Bytes) : Bytes := splice buffer offset (be 4 data)

def buildFST (p : FSTConfig) (utf8ToSHIFTJIS : Bytes → Bytes) (rootNodes : List FSTBuilderNode)
    (fstAddress : Nat) (discHeader : Bytes) : BuiltFST :=
  let nodes := convertUTF8NamesToSHIFTJIS utf8ToSHIFTJIS rootNodes
  let nameTableSize := alignUp (computeNameSize nodes) (2 ^ p.addressShift)
  let (entries, nodes) := recalculateFolderSizes nodes
  let totalEntries := entries + 1
  let nameTableOffset := totalEntries * entrySize
  let fstData : Bytes := List.replicate (nameTableOffset + nameTableSize) 0
  let w : FSTWriter :=
    { fstData, fstOffset := 0, nameOffset := 0, contents := []
      dataOffset := alignUp (fstAddress + fstData.length) 0x8000 }
  let w := w.writeEntryData directoryEntry 0 0 totalEntries p.addressShift
  let w := writeDirectory p nameTableOffset (sortEntries nodes) 0 w
  let shift (n : Nat) := n / 2 ^ p.addressShift
  { fstData := w.fstData
    discHeader := write32 (shift w.fstData.length) 0x042c
      (write32 (shift w.fstData.length) 0x0428 (write32 (shift fstAddress) 0x0424 discHeader))
    contents := w.contents ++ add fstAddress w.fstData.length (ContentSource.memory w.fstData)
    dataSize := w.dataOffset }

end DolphinXR.DiscIO.DirectoryBlob
