import DolphinXR.Lib.Bytes

/- The file system table of GameCube and Wii discs as the reader sees it
   (DiscIO/FileSystemGCWii.cpp). The table is `total` entries of 12 bytes
   followed by the names: an entry holds a name offset whose top byte marks
   directories, a file's offset or a directory's parent index, and a file's
   size or the index after a directory's last descendant.

   Every access to the table is checked here: a function whose result is an
   `Option` is `none` when the C++ code would read outside the table, and loops
   and recursions of the C++ code, whose course the disc decides, take a fuel
   and are `none` when it runs out. So a result other than `none` says that the
   code stayed inside the table and came to an end.

   Names are compared and converted through `SHIFTJISToUTF8`, which iconv or
   Windows provides; it is a parameter. -/
namespace DolphinXR.DiscIO
open Lib

def fstEntrySize : Nat := 4 * 3
def wiiDiscMagic : Nat := 0x5D1C9EA3
def gamecubeDiscMagic : Nat := 0xC2339F3D

def arbitraryFileSystemSizeLimit : Nat := 128 * 1024 * 1024

inductive EntryProperty where
  | nameOffset | fileOffset | fileSize

def EntryProperty.toNat : EntryProperty → Nat
  | .nameOffset => 0
  | .fileOffset => 1
  | .fileSize => 2

/-- An entry of the table: the table, the shift of file offsets, the entry's index
    and the number of entries the root claims. -/
structure FileInfoGCWii where
  fst : Bytes
  offsetShift : Nat
  index : Nat
  totalFileInfos : Nat
deriving DecidableEq

namespace FileInfoGCWii

def withIndex (fi : FileInfoGCWii) (index : Nat) : FileInfoGCWii := { fi with index := index }

@[simp] theorem withIndex_fst (fi : FileInfoGCWii) (i : Nat) : (fi.withIndex i).fst = fi.fst := rfl
@[simp] theorem withIndex_index (fi : FileInfoGCWii) (i : Nat) : (fi.withIndex i).index = i := rfl
@[simp] theorem withIndex_totalFileInfos (fi : FileInfoGCWii) (i : Nat) :
    (fi.withIndex i).totalFileInfos = fi.totalFileInfos := rfl
@[simp] theorem withIndex_withIndex (fi : FileInfoGCWii) (i j : Nat) :
    (fi.withIndex i).withIndex j = fi.withIndex j := rfl

/-- Where an entry starts: `FST_ENTRY_SIZE * m_index` is a product of 32-bit words. -/
def entryAddress (index : Nat) : Nat := fstEntrySize * index % 2 ^ 32

def get (fi : FileInfoGCWii) (p : EntryProperty) : Option Nat :=
  beAt fi.fst (entryAddress fi.index + 4 * p.toNat) 4

def getSize (fi : FileInfoGCWii) : Option Nat := fi.get .fileSize

def getOffset (fi : FileInfoGCWii) : Option Nat :=
  (fi.get .fileOffset).map (· * 2 ^ fi.offsetShift)

def isDirectory (fi : FileInfoGCWii) : Option Bool :=
  (fi.get .nameOffset).map (fun n => decide (n / 2 ^ 24 ≠ 0))

def getNextIndex (fi : FileInfoGCWii) : Option Nat :=
  fi.isDirectory.bind fun dir => if dir then fi.getSize else some ((fi.index + 1) % 2 ^ 32)

def getNameOffset (fi : FileInfoGCWii) : Option Nat :=
  (fi.get .nameOffset).map (fun n => fstEntrySize * fi.totalFileInfos + n % 2 ^ 24)

/-- `begin()`: the entry behind this one. -/
def firstChild (fi : FileInfoGCWii) : FileInfoGCWii := fi.withIndex ((fi.index + 1) % 2 ^ 32)

mutual

/-- `IsValid`, and below it its loop over the entry's children. -/
def isValid (fstSize : Nat) : Nat → FileInfoGCWii → FileInfoGCWii → Option Bool
  | 0, _, _ => none
  | fuel + 1, fi, parent =>
    fi.getNameOffset.bind fun name =>
    if name ≥ fstSize then some false else
    fi.isDirectory.bind fun dir =>
    if !dir then some true else
    (fi.get .fileOffset).bind fun parentIndex =>
    if parentIndex ≠ parent.index then some false else
    (fi.get .fileSize).bind fun size =>
    if size ≤ fi.index then some false else
    (parent.get .fileSize).bind fun parentSize =>
    if size > parentSize then some false else
    fi.getNextIndex.bind fun stop =>
    childrenValid fstSize fuel fi fi.firstChild stop

def childrenValid (fstSize : Nat) : Nat → FileInfoGCWii → FileInfoGCWii → Nat → Option Bool
  | 0, _, _, _ => none
  | fuel + 1, fi, child, stop =>
    if entryAddress child.index = entryAddress stop then some true else
    (isValid fstSize fuel child fi).bind fun ok =>
    if !ok then some false else
    child.getNextIndex.bind fun next => childrenValid fstSize fuel fi (child.withIndex next) stop

end

/-! ### Walking -/

/-- The entries a range-based `for` over a directory visits, from `child` to the
    end iterator at `stop`. -/
def childrenFrom : Nat → FileInfoGCWii → Nat → Option (List FileInfoGCWii)
  | 0, _, _ => none
  | fuel + 1, child, stop =>
    if entryAddress child.index = entryAddress stop then some [] else
    child.getNextIndex.bind fun next =>
    (childrenFrom fuel (child.withIndex next) stop).map (child :: ·)

def children (fuel : Nat) (fi : FileInfoGCWii) : Option (List FileInfoGCWii) :=
  fi.getNextIndex.bind fun stop => childrenFrom fuel fi.firstChild stop

section Names
variable (shiftJISToUTF8 : Bytes → Bytes)

def namePtr (fi : FileInfoGCWii) : Option Bytes :=
  fi.getNameOffset.map (fi.fst.drop ·)

def getName (fi : FileInfoGCWii) : Option Bytes :=
  fi.namePtr.bind fun ptr => (cstring ptr).map shiftJISToUTF8

def toLower (c : UInt8) : UInt8 := if 65 ≤ c ∧ c ≤ 90 then c + 32 else c

/-- The loop of `NameCaseInsensitiveEquals`: `this_ptr` against what is left of
    `other`. -/
def nameEquals : Bytes → Bytes → Option Bool
  | [], _ => none
  | b :: _, [] => some (decide (b = 0))
  | b :: this, o :: other =>
    if b = 0 then some false
    else if b ≥ 0x80 ∧ o ≥ 0x80 then
      (cstring (b :: this)).map fun s =>
        (shiftJISToUTF8 s).map toLower == (o :: other).map toLower
    else if toLower b ≠ toLower o then some false
    else nameEquals this other

def nameCaseInsensitiveEquals (fi : FileInfoGCWii) (other : Bytes) : Option Bool :=
  fi.namePtr.bind fun ptr => nameEquals shiftJISToUTF8 ptr other

/-- The backward search of `GetPath`: the nearest directory at or before `fi` that
    ends after `index`. -/
def searchParent : Nat → FileInfoGCWii → Nat → Option FileInfoGCWii
  | 0, _, _ => none
  | fuel + 1, fi, index =>
    fi.isDirectory.bind fun dir =>
    (if dir then fi.get .fileSize else some 0).bind fun size =>
    if dir ∧ size > index then some fi
    else searchParent fuel (fi.withIndex ((fi.index + 2 ^ 32 - 1) % 2 ^ 32)) index

def getPath : Nat → FileInfoGCWii → Option Bytes
  | 0, _ => none
  | fuel + 1, fi =>
    if fi.index = 0 then some [] else
    fi.isDirectory.bind fun dir =>
    if dir then
      (fi.get .fileOffset).bind fun parent =>
      (getPath fuel (fi.withIndex parent)).bind fun path =>
      (fi.getName shiftJISToUTF8).map fun name => path ++ name ++ [47]
    else
      (searchParent (fi.index + 1) (fi.withIndex (fi.index - 1)) fi.index).bind fun parent =>
      (getPath fuel parent).bind fun path =>
      (fi.getName shiftJISToUTF8).map fun name => path ++ name

/-! ### Searching -/

/-- The first name of a path, and what follows its slash: `none` if only slashes
    are left. -/
def splitPath (path : Bytes) : Option (Bytes × Bytes) :=
  match path.dropWhile (· = 47) with
  | [] => none
  | c :: rest =>
    some ((c :: rest).takeWhile (· ≠ 47), ((c :: rest).dropWhile (· ≠ 47)).drop 1)

mutual

/-- `FindFileInfo(path, file_info)`, and below it its loop over the children. The
    inner `Option` is the null pointer. -/
def findIn : Nat → Bytes → FileInfoGCWii → Option (Option FileInfoGCWii)
  | 0, _, _ => none
  | fuel + 1, path, fi =>
    match splitPath path with
    | none => some (some fi)
    | some (name, rest) =>
      fi.getNextIndex.bind fun stop => findAmong fuel name rest fi.firstChild stop

def findAmong : Nat → Bytes → Bytes → FileInfoGCWii → Nat → Option (Option FileInfoGCWii)
  | 0, _, _, _, _ => none
  | fuel + 1, name, rest, child, stop =>
    if entryAddress child.index = entryAddress stop then some none else
    (child.nameCaseInsensitiveEquals shiftJISToUTF8 name).bind fun eq =>
    (if eq then findIn fuel rest child else some none).bind fun found =>
    match found with
    | some fi => some (some fi)
    | none =>
      child.getNextIndex.bind fun next =>
      findAmong fuel name rest (child.withIndex next) stop

end

end Names

/-- The files of the indices `i, i + 1, …, i + n - 1` that are not empty, as
    `(end offset, index)`: what `m_offset_file_info_cache` is filled from. -/
def fileEnds (root : FileInfoGCWii) : Nat → Nat → Option (List (Nat × Nat))
  | _, 0 => some []
  | i, n + 1 =>
    let fi := root.withIndex i
    fi.isDirectory.bind fun dir =>
    (if dir then some none else
      fi.getSize.bind fun size =>
      if size = 0 then some none
      else fi.getOffset.map fun offset => some (offset + size, i)).bind fun entry =>
    (fileEnds root (i + 1) n).map (entry.toList ++ ·)

/-- The better of two candidates for `upper_bound(offset)`. -/
def upperBoundStep (offset : Nat) (best : Option (Nat × Nat)) (e : Nat × Nat) :
    Option (Nat × Nat) :=
  if e.1 ≤ offset then best
  else match best with
    | none => some e
    | some b => if e.1 < b.1 then some e else best

/-- `std::map::emplace` one after the other, then `upper_bound`: of the entries
    with the smallest key above `offset`, the first. -/
def upperBound (entries : List (Nat × Nat)) (offset : Nat) : Option (Nat × Nat) :=
  entries.foldl (upperBoundStep offset) none

end FileInfoGCWii

/-! ### The file system -/

/-- What the constructor uses of a volume: its `Read` for the partition and its
    offset shift. A successful read yields as many bytes as were asked for. -/
structure VolumeDisc where
  offsetShift : Nat
  read : Nat → Nat → Option Bytes
  read_length : ∀ offset size bytes, read offset size = some bytes → bytes.length = size

/-- `ReadSwapped<u32>`. -/
def VolumeDisc.readSwapped (v : VolumeDisc) (offset : Nat) : Option Nat :=
  (v.read offset 4).map readBE

def VolumeDisc.readSwappedAndShifted (v : VolumeDisc) (offset : Nat) : Option Nat :=
  (v.readSwapped offset).map (· * 2 ^ v.offsetShift)

def getFSTOffset (v : VolumeDisc) : Option Nat := v.readSwappedAndShifted 0x424
def getFSTSize (v : VolumeDisc) : Option Nat := v.readSwappedAndShifted 0x428

structure FileSystemGCWii where
  valid : Bool
  table : Bytes
  root : FileInfoGCWii

/-- The root object of a table: entry 0, which claims the number of entries. -/
def rootFileInfo (table : Bytes) (offsetShift : Nat) : Option FileInfoGCWii :=
  (FileInfoGCWii.getSize ⟨table, offsetShift, 0, 0⟩).map fun total =>
    ⟨table, offsetShift, 0, total⟩

/-- The shift the disc's magic word selects. -/
def fstOffsetShift (v : VolumeDisc) : Option Nat :=
  if v.readSwapped 0x18 = some wiiDiscMagic then some 2
  else if v.readSwapped 0x1c = some gamecubeDiscMagic then some 0
  else none

/-- The checks the constructor makes on a table it has read. The fuel is more than
    `IsValid` can use (`isValid_root_isSome`). -/
def acceptsTable (table : Bytes) (root : FileInfoGCWii) : Bool :=
  root.isDirectory = some true &&
  decide (fstEntrySize * root.totalFileInfos % 2 ^ 32 ≤ table.length) &&
  decide (table[table.length - 1]? = some 0) &&
  decide (FileInfoGCWii.isValid table.length (table.length + 2) root root = some true)

/-- The constructor: `none` where it returns early with `m_valid` false, before a
    table has been read. -/
def loadFileSystem (v : VolumeDisc) : Option FileSystemGCWii :=
  (fstOffsetShift v).bind fun shift =>
  (getFSTOffset v).bind fun offset =>
  (getFSTSize v).bind fun size =>
  if size < fstEntrySize then none
  else if size > arbitraryFileSystemSizeLimit then none
  else
    (v.read offset size).bind fun table =>
    (rootFileInfo table shift).map fun root => ⟨acceptsTable table root, table, root⟩

namespace FileSystemGCWii
open FileInfoGCWii

/-- `FindFileInfo(path)`. -/
def findFileInfo (shiftJISToUTF8 : Bytes → Bytes) (fs : FileSystemGCWii) (fuel : Nat)
    (path : Bytes) : Option (Option FileInfoGCWii) :=
  if !fs.valid then some none else findIn shiftJISToUTF8 fuel path fs.root

/-- `FindFileInfo(disc_offset)`. The cache is a function of the table, so it is
    computed anew at each call. -/
def findFileInfoAt (fs : FileSystemGCWii) (discOffset : Nat) : Option (Option FileInfoGCWii) :=
  if !fs.valid then some none else
  fs.root.getSize.bind fun entries =>
  (fileEnds fs.root 0 entries).bind fun cache =>
  match upperBound cache discOffset with
  | none => some none
  | some (_, index) =>
    let result := fs.root.withIndex index
    result.getOffset.map fun offset => if offset ≤ discOffset then some result else none

end FileSystemGCWii
end DolphinXR.DiscIO
