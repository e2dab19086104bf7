import DolphinXR.Common.NandPaths
import DolphinXR.Lib.Bytes
import DolphinXR.Lib.FileTree

/- The emulated NAND file system over a directory of the host (Core/IOS/FS/FileSystemCommon.cpp and
   HostBackend). What exists is asked of the host each time; the FST keeps owners, modes and the
   order of entries, and `GetFstEntryForPath` makes the entries it lacks. A pointer to an entry is
   the list of the names that lead to it. The one pointer that is used after other entries may have
   been made is `old_parent` in `Rename`; where it dangles the source does nothing that is defined,
   and nothing is said of what follows.

   There are no redirects. The host may refuse any operation that changes something, and then the
   operation changes nothing. Left out: log messages, the reading of `fst.bin` when the file system
   is made, save states and the statistics, which change nothing. -/
namespace DolphinXR.IOS.FS
open Common Lib

inductive ResultCode where
  | success | invalid | accessDenied | superblockWriteFailed | superblockInitFailed | alreadyExists
  | notFound | fstFull | noFreeSpace | noFreeHandle | tooManyPathComponents | inUse | badBlock
  | eccError | criticalEccError | fileNotEmpty | checkFailed | unknownError | shortRead
  deriving DecidableEq

def Mode.read : Nat := 1
def Mode.write : Nat := 2
def Mode.readWrite : Nat := 3

structure Modes where
  owner : Nat
  group : Nat
  other : Nat
  deriving DecidableEq

structure Metadata where
  uid : Nat := 0
  gid : Nat := 0
  attr : Nat := 0
  modes : Modes := ⟨0, 0, 0⟩
  isFile : Bool := false
  size : Nat := 0
  fstIndex : Nat := 0
  deriving DecidableEq

def maxPathDepth : Nat := 8
def maxPathLength : Nat := 64
def maxFilenameLength : Nat := 12

def isValidNonRootPath (path : Text) : Bool :=
  1 < path.length && path.length ≤ maxPathLength && path.head? == some '/' &&
    path.getLast? != some '/'

def isValidPath (path : Text) : Bool := path == ['/'] || isValidNonRootPath path

def isValidFilename (filename : Text) : Bool :=
  filename.length ≤ maxFilenameLength && !filename.contains '/'

def splitPathAndBasename (path : Text) : Text × Text :=
  let lastSeparator := path.length - 1 - path.reverse.idxOf '/'
  (path.take (max 1 lastSeparator), path.drop (lastSeparator + 1))

/-- `BuildFilename`, below the directory of the NAND. -/
def buildFilename (path : Text) : Text := if path.head? = some '/' then escapePath path else []

/-- `SplitString` of the path without its first slash. -/
def components (path : Text) : List Text := splitString '/' path.tail

def isPrintableCharacter (c : Char) : Bool := 0x20 ≤ c.toNat && c.toNat ≤ 0x7e

/-! ### The file system table -/

structure FstEntry where
  name : Text
  data : Metadata := {}
  children : List FstEntry := []

namespace FstEntry

/-- What `GetFstEntryForPath` makes for an entry the table lacks. -/
def defaultEntry (name : Text) : FstEntry where
  name
  data := { modes := ⟨Mode.readWrite, Mode.readWrite, Mode.readWrite⟩ }

/-- The first child of a name, made behind the others if there is none, is changed. -/
def updateChild (name : Text) (f : FstEntry → FstEntry) : List FstEntry → List FstEntry
  | [] => [f (defaultEntry name)]
  | child :: rest =>
    if child.name = name then f child :: rest else child :: updateChild name f rest

/-- The entry that names lead to is changed, made before if it is not there. -/
def updateAt (f : FstEntry → FstEntry) : List Text → FstEntry → FstEntry
  | [], entry => f entry
  | name :: names, entry =>
    { entry with children := updateChild name (updateAt f names) entry.children }

def find : List Text → FstEntry → Option FstEntry
  | [], entry => some entry
  | name :: names, entry => (entry.children.find? (·.name = name)).bind (find names)

/-- An entry is a file or a directory as the host says, and a file has no children. -/
def refresh (isFile : Bool) (entry : FstEntry) : FstEntry :=
  { entry with
    data := { entry.data with isFile }
    children := if isFile then [] else entry.children }

/-- The way along `names` ends at the children of which `entry` is one, and a child is made for the
    next name: `children.emplace_back`. -/
def makesBeside (entry names : List Text) (root : FstEntry) : Bool :=
  entry != [] && entry.dropLast.isPrefixOf names && decide (entry.length ≤ names.length) &&
    (root.find (names.take entry.length)).isNone

/-- `children.erase`. -/
def eraseChild (name : Text) (entry : FstEntry) : FstEntry :=
  { entry with children := entry.children.eraseP (·.name = name) }

/-- `SerializedFstEntry`, and behind it the children's. -/
def serialize : FstEntry → Bytes
  | ⟨name, data, children⟩ =>
    let byte := fun n : Nat => UInt8.ofNat n
    let cut := (name.take 12).map fun c => byte c.toNat
    cut ++ List.replicate (12 - cut.length) 0 ++ be 4 data.uid ++ be 2 data.gid ++
      [byte data.isFile.toNat, byte data.modes.owner, byte data.modes.group,
        byte data.modes.other, byte data.attr, 0] ++
      be 4 0 ++ be 4 children.length ++ serializeAll children
where
  serializeAll : List FstEntry → Bytes
    | [] => []
    | child :: rest => serialize child ++ serializeAll rest

end FstEntry

/-- `FstEntry::CheckPermission`, on the entry's metadata. -/
def Metadata.checkPermission (data : Metadata) (callerUid callerGid requestedMode : Nat) : Bool :=
  callerUid == 0 ||
    (let fileMode :=
      if data.uid = callerUid then data.modes.owner
      else if data.gid = callerGid then data.modes.group
      else data.modes.other
    requestedMode &&& fileMode == requestedMode)

inductive HostOperation where
  | createEmptyFile | createDir | delete | deleteDirRecursively | rename | openFile
  | readFile | writeFile | writeFst | renameFst
  -- The children of an entry have room for one more and stay where they are in memory.
  | growInPlace
  deriving DecidableEq

abbrev Host := HostOperation → Bool

abbrev Nand := FileTree Text Bytes

namespace Nand

def fileInfo (nand : Nand) (hostPath : Text) : Option Node := nand.node (resolve hostPath)

/-- `File::Exists`. -/
def present (nand : Nand) (hostPath : Text) : Bool := (fileInfo nand hostPath).isSome

def isFile (nand : Nand) (hostPath : Text) : Bool := (fileInfo nand hostPath).any Node.isFile

def isDirectory (nand : Nand) (hostPath : Text) : Bool := fileInfo nand hostPath == some .dir

def getSize (nand : Nand) (hostPath : Text) : Nat :=
  ((nand.read (resolve hostPath)).map List.length).getD 0

/-- An operation of the host, and whether it succeeded. -/
def attempt (host : Host) (operation : HostOperation) (result : Option Nand) (nand : Nand) :
    Bool × Nand :=
  match if host operation then result else none with
  | some nand' => (true, nand')
  | none => (false, nand)

def createEmptyFile (host : Host) (hostPath : Text) (nand : Nand) : Bool × Nand :=
  attempt host .createEmptyFile (nand.create (resolve hostPath) []) nand

def createDir (host : Host) (hostPath : Text) (nand : Nand) : Bool × Nand :=
  if isDirectory nand hostPath then (true, nand)
  else attempt host .createDir (nand.mkdir (resolve hostPath)) nand

def make (host : Host) (isFile : Bool) (hostPath : Text) (nand : Nand) : Bool × Nand :=
  if isFile then createEmptyFile host hostPath nand else createDir host hostPath nand

def delete (host : Host) (hostPath : Text) (nand : Nand) : Bool × Nand :=
  if !present nand hostPath then (true, nand)
  else attempt host .delete (nand.unlink (resolve hostPath)) nand

def deleteDirRecursively (host : Host) (hostPath : Text) (nand : Nand) : Bool × Nand :=
  attempt host .deleteDirRecursively (some (nand.removeAll (resolve hostPath))) nand

def rename (host : Host) (source target : Text) (nand : Nand) : Bool × Nand :=
  attempt host .rename (FileTree.rename nand (resolve source) (resolve target)) nand

end Nand

/-! ### The state -/

structure HostFile where
  path : Text
  inode : Nat
  deriving DecidableEq

structure Handle where
  mode : Nat
  wiiPath : Text
  hostFile : HostFile
  fileOffset : Nat := 0
  deriving DecidableEq

/-- The slot of a handle that is not opened is `none`. -/
structure HostFileSystem where
  nand : Nand
  rootEntry : FstEntry
  handles : Fin 16 → Option Handle := fun _ => none

def resetFst : FstEntry where
  name := ['/']
  data := { modes := ⟨0, Mode.read, Mode.read⟩ }

namespace HostFileSystem

/-- The files that some handle has open; the last handle that lets go of one closes it. -/
def openFiles (s : HostFileSystem) : List HostFile :=
  (List.finRange 16).filterMap fun i => (s.handles i).map (·.hostFile)

def data (s : HostFileSystem) (entry : List Text) : Metadata :=
  ((s.rootEntry.find entry).getD (FstEntry.defaultEntry [])).data

/-- The table goes to a temporary file first, which then takes the place of the old one. -/
def saveFst (host : Host) (s : HostFileSystem) : HostFileSystem :=
  let destPath := "/fst.bin".toList
  let tempPath := destPath ++ ".xxx".toList
  let written := Nand.attempt host .writeFst
    (s.nand.create (resolve tempPath) s.rootEntry.serialize) s.nand
  if written.1 then
    let renamed := Nand.attempt host .renameFst
      (FileTree.rename written.2 (resolve tempPath) (resolve destPath)) written.2
    { s with nand := renamed.2 }
  else s

/-- The entry for what is on the host, `none` where there is nothing. Missing entries are made on
    the way. -/
def getFstEntryForPath (path : Text) (s : HostFileSystem) : Option (List Text) × HostFileSystem :=
  if path = ['/'] then (some [], s)
  else if !isValidNonRootPath path then (none, s)
  else
    match Nand.fileInfo s.nand (buildFilename path) with
    | none => (none, s)
    | some found =>
      let entry := components path
      (some entry,
        { s with
          rootEntry := FstEntry.updateAt (FstEntry.refresh found.isFile) entry s.rootEntry })

def format (host : Host) (uid : Nat) (s : HostFileSystem) : ResultCode × HostFileSystem :=
  if uid ≠ 0 then (.accessDenied, s)
  else
    let root := buildFilename ['/']
    let deleted := Nand.deleteDirRecursively host root s.nand
    if !deleted.1 then (.unknownError, { s with nand := deleted.2 })
    else
      let created := Nand.createDir host root deleted.2
      if !created.1 then (.unknownError, { s with nand := created.2 })
      else
        let saved := saveFst host { s with nand := created.2, rootEntry := resetFst }
        (.success, { saved with handles := fun _ => none })

def createFileOrDirectory (host : Host) (uid gid : Nat) (path : Text) (attr : Nat) (modes : Modes)
    (isFile : Bool) (s : HostFileSystem) : ResultCode × HostFileSystem :=
  if !isValidNonRootPath path || !path.all isPrintableCharacter then (.invalid, s)
  else if !isFile && maxPathDepth < path.count '/' then (.tooManyPathComponents, s)
  else
    let splitPath := splitPathAndBasename path
    let hostPath := buildFilename path
    match getFstEntryForPath splitPath.1 s with
    | (none, s) => (.notFound, s)
    | (some parent, s) =>
      if !(s.data parent).checkPermission uid gid Mode.write then (.accessDenied, s)
      else if Nand.present s.nand hostPath then (.alreadyExists, s)
      else
        let made := Nand.make host isFile hostPath s.nand
        let s := { s with nand := made.2 }
        if !made.1 then (.unknownError, s)
        else
          match getFstEntryForPath path s with
          -- What was just made is there.
          | (none, s) => (.success, s)
          | (some child, s) =>
            let entry : FstEntry :=
              { name := splitPath.2, data := { uid, gid, attr, modes, isFile } }
            (.success, saveFst host
              { s with rootEntry := FstEntry.updateAt (fun _ => entry) child s.rootEntry })

def createFile (host : Host) (uid gid : Nat) (path : Text) (attr : Nat) (modes : Modes) :=
  createFileOrDirectory host uid gid path attr modes true

def createDirectory (host : Host) (uid gid : Nat) (path : Text) (attr : Nat) (modes : Modes) :=
  createFileOrDirectory host uid gid path attr modes false

def isFileOpened (s : HostFileSystem) (path : Text) : Bool :=
  (List.finRange 16).any fun i => (s.handles i).any (·.wiiPath == path)

def isDirectoryInUse (s : HostFileSystem) (path : Text) : Bool :=
  (List.finRange 16).any fun i => (s.handles i).any fun handle => path.isPrefixOf handle.wiiPath

def delete (host : Host) (uid gid : Nat) (path : Text) (s : HostFileSystem) :
    ResultCode × HostFileSystem :=
  if !isValidNonRootPath path then (.invalid, s)
  else
    let hostPath := buildFilename path
    let splitPath := splitPathAndBasename path
    match getFstEntryForPath splitPath.1 s with
    | (none, s) => (.notFound, s)
    | (some parent, s) =>
      let forget := fun nand : Nand =>
        saveFst host
          { s with
            nand
            rootEntry := FstEntry.updateAt (FstEntry.eraseChild splitPath.2) parent s.rootEntry }
      if !(s.data parent).checkPermission uid gid Mode.write then (.accessDenied, s)
      else if !Nand.present s.nand hostPath then (.notFound, s)
      else if Nand.isFile s.nand hostPath && !s.isFileOpened path then
        (.success, forget (Nand.delete host hostPath s.nand).2)
      else if Nand.isDirectory s.nand hostPath && !s.isDirectoryInUse path then
        (.success, forget (Nand.deleteDirRecursively host hostPath s.nand).2)
      else (.inUse, s)

/-- The checks of `Rename`, up to where the host is asked to move something: the entries of the
    parents. -/
def renameChecks (uid gid : Nat) (oldPath newPath : Text) (s : HostFileSystem) :
    Except ResultCode (List Text) × HostFileSystem :=
  if !isValidNonRootPath oldPath || !isValidNonRootPath newPath then (.error .invalid, s)
  else
    let splitOldPath := splitPathAndBasename oldPath
    let splitNewPath := splitPathAndBasename newPath
    match getFstEntryForPath splitOldPath.1 s with
    | (oldParent, s) =>
      match getFstEntryForPath splitNewPath.1 s with
      | (newParent, s) =>
        match oldParent, newParent with
        | some oldParent, some newParent =>
          if !(s.data oldParent).checkPermission uid gid Mode.write ||
              !(s.data newParent).checkPermission uid gid Mode.write then
            (.error .accessDenied, s)
          else
            match getFstEntryForPath oldPath s with
            | (none, s) => (.error .notFound, s)
            | (some entry, s) =>
              let isFile := (s.data entry).isFile
              -- For files, the file name is not allowed to change.
              if isFile && splitOldPath.2 != splitNewPath.2 then (.error .invalid, s)
              else if !isFile && s.isDirectoryInUse oldPath || isFile && s.isFileOpened oldPath then
                (.error .inUse, s)
              else (.ok oldParent, s)
        | _, _ => (.error .notFound, s)

/-- What is at the new path and of the same type is deleted; `none` if it is of the other type. -/
def deleteTarget (host : Host) (oldPath newPath : Text) (nand : Nand) : Option Nand :=
  let hostOldPath := buildFilename oldPath
  let hostNewPath := buildFilename newPath
  if Nand.present nand hostNewPath then
    match Nand.isFile nand hostOldPath, Nand.isFile nand hostNewPath with
    | true, true => some (Nand.delete host hostNewPath nand).2
    | false, false => some (Nand.deleteDirRecursively host hostNewPath nand).2
    | _, _ => none
  else some nand

/-- The entry at the new path takes what the old entry has, which is then erased. -/
def moveEntry (oldParent : List Text) (oldName : Text) (newEntry : List Text) (newName : Text)
    (root : FstEntry) : FstEntry :=
  let root := FstEntry.updateAt (fun entry => { entry with name := newName }) newEntry root
  match root.find (oldParent ++ [oldName]) with
  | none => root
  | some found =>
    FstEntry.updateAt (FstEntry.eraseChild oldName) oldParent
      (FstEntry.updateAt
        (fun entry => { entry with data := found.data, children := found.children }) newEntry root)

/-- The host moves what is at the old path, and the table follows. -/
def renameOnHost (host : Host) (oldParent : List Text) (oldPath newPath : Text) (nand : Nand)
    (s : HostFileSystem) : ResultCode × HostFileSystem :=
  let moved := Nand.rename host (buildFilename oldPath) (buildFilename newPath) nand
  let s := { s with nand := moved.2 }
  if !moved.1 then (.notFound, s)
  else
    match getFstEntryForPath newPath s with
    -- What was just moved is there.
    | (none, s) => (.success, s)
    | (some newEntry, s) =>
      let oldName := (splitPathAndBasename oldPath).2
      let newName := (splitPathAndBasename newPath).2
      (.success, saveFst host
        { s with rootEntry := moveEntry oldParent oldName newEntry newName s.rootEntry })

/-- The parent of the new path is made beside that of the old path, which `Rename` has a pointer
    to. -/
def parentsDangle (oldPath newPath : Text) (s : HostFileSystem) : Bool :=
  match getFstEntryForPath (splitPathAndBasename oldPath).1 s with
  | (none, _) => false
  | (some oldParent, s) =>
    match getFstEntryForPath (splitPathAndBasename newPath).1 s with
    | (none, _) => false
    | (some newParent, _) => FstEntry.makesBeside oldParent newParent s.rootEntry

/-- Something is moved, and the entry for it is made beside the parent of the old path. -/
def moveDangles (host : Host) (uid gid : Nat) (oldPath newPath : Text) (s : HostFileSystem) : Bool :=
  match renameChecks uid gid oldPath newPath s with
  | (.error _, _) => false
  | (.ok oldParent, s) =>
    match deleteTarget host oldPath newPath s.nand with
    | none => false
    | some nand =>
      (Nand.rename host (buildFilename oldPath) (buildFilename newPath) nand).1 &&
        FstEntry.makesBeside oldParent (components newPath) s.rootEntry

/-- `old_parent` is used after the children that it is one of have moved. -/
def renameDangles (host : Host) (uid gid : Nat) (oldPath newPath : Text) (s : HostFileSystem) :
    Bool :=
  isValidNonRootPath oldPath && isValidNonRootPath newPath && !host .growInPlace &&
    (parentsDangle oldPath newPath s || moveDangles host uid gid oldPath newPath s)

def rename (host : Host) (uid gid : Nat) (oldPath newPath : Text) (s : HostFileSystem) :
    ResultCode × HostFileSystem :=
  match renameChecks uid gid oldPath newPath s with
  | (.error code, s) => (code, s)
  | (.ok oldParent, s) =>
    match deleteTarget host oldPath newPath s.nand with
    | none => (.invalid, s)
    | some nand => renameOnHost host oldParent oldPath newPath nand s

/-- The names in a directory as the emulated system may see them (`FixupDirectoryEntries`). -/
def fixupDirectoryEntries (isRoot : Bool) (names : List (Text × Node)) : List Text :=
  (names.filterMap fun x =>
    if isRoot && x.2.isFile then none else some (unescapeFileName x.1)).filter isValidFilename

/-- Newest entries of the table first, then those that are not in it, in reverse order. -/
def directoryOrder (entry : FstEntry) (names : List Text) : List Text :=
  let key := fun name : Text =>
    match (entry.children.map FstEntry.name).idxOf? name with
    | some i => (i : Int)
    | none => -1
  let before := fun one two : Text =>
    if key one ≠ key two then decide (key two < key one) else decide (two < one)
  names.mergeSort fun one two => !before two one

def readDirectory (uid gid : Nat) (path : Text) (s : HostFileSystem) :
    Except ResultCode (List Text) × HostFileSystem :=
  if !isValidPath path then (.error .invalid, s)
  else
    match getFstEntryForPath path s with
    | (none, s) => (.error .notFound, s)
    | (some entry, s) =>
      if !(s.data entry).checkPermission uid gid Mode.read then (.error .accessDenied, s)
      else if (s.data entry).isFile then (.error .invalid, s)
      else
        let found := s.nand.children (resolve (buildFilename path))
        let fst := (s.rootEntry.find entry).getD (FstEntry.defaultEntry [])
        (.ok (directoryOrder fst (fixupDirectoryEntries (path == ['/']) found)), s)

def getMetadata (uid gid : Nat) (path : Text) (s : HostFileSystem) :
    Except ResultCode Metadata × HostFileSystem :=
  let report := fun (entry : List Text) (s : HostFileSystem) =>
    { s.data entry with size := Nand.getSize s.nand (buildFilename path) }
  if path = ['/'] then (.ok (report [] s), s)
  else if !isValidNonRootPath path then (.error .invalid, s)
  else
    match getFstEntryForPath (splitPathAndBasename path).1 s with
    | (none, s) => (.error .notFound, s)
    | (some parent, s) =>
      if !(s.data parent).checkPermission uid gid Mode.read then (.error .accessDenied, s)
      else
        match getFstEntryForPath path s with
        | (none, s) => (.error .notFound, s)
        | (some entry, s) => (.ok (report entry s), s)

def setMetadata (host : Host) (callerUid : Nat) (path : Text) (uid gid attr : Nat) (modes : Modes)
    (s : HostFileSystem) : ResultCode × HostFileSystem :=
  if !isValidPath path then (.invalid, s)
  else
    match getFstEntryForPath path s with
    | (none, s) => (.notFound, s)
    | (some entry, s) =>
      let data := s.data entry
      if callerUid ≠ 0 && callerUid ≠ data.uid then (.accessDenied, s)
      else if callerUid ≠ 0 && uid ≠ data.uid then (.accessDenied, s)
      else
        let isEmpty := Nand.getSize s.nand (buildFilename path) == 0
        if data.uid ≠ uid && data.isFile && !isEmpty then (.fileNotEmpty, s)
        else if data.gid ≠ gid || data.uid ≠ uid || data.attr ≠ attr || data.modes ≠ modes then
          let change := fun entry : FstEntry =>
            { entry with data := { entry.data with gid, uid, attr, modes } }
          (.success, saveFst host
            { s with rootEntry := FstEntry.updateAt change entry s.rootEntry })
        else (.success, s)

/-! ### Handles -/

def assignFreeHandle (s : HostFileSystem) : Option (Fin 16) :=
  (List.finRange 16).find? fun i => (s.handles i).isNone

def getHandleFromFd (s : HostFileSystem) (fd : Nat) : Option (Fin 16 × Handle) :=
  if h : fd < 16 then (s.handles ⟨fd, h⟩).map fun handle => (⟨fd, h⟩, handle) else none

def setHandle (s : HostFileSystem) (i : Fin 16) (handle : Option Handle) : HostFileSystem :=
  { s with handles := Function.update s.handles i handle }

/-- A file that is open already is shared. -/
def openHostFile (host : Host) (hostPath : Text) (s : HostFileSystem) : Option HostFile :=
  match s.openFiles.find? (·.path = hostPath) with
  | some hostFile => some hostFile
  | none =>
    match Nand.fileInfo s.nand hostPath with
    | some (.file inode) => if host .openFile then some ⟨hostPath, inode⟩ else none
    | _ => none

def openFile (host : Host) (path : Text) (mode : Nat) (s : HostFileSystem) :
    Except ResultCode (Fin 16) × HostFileSystem :=
  match s.assignFreeHandle with
  | none => (.error .noFreeHandle, s)
  | some i =>
    let hostPath := buildFilename path
    if Nand.isDirectory s.nand hostPath then (.error .invalid, s.setHandle i none)
    else if !Nand.isFile s.nand hostPath then (.error .notFound, s.setHandle i none)
    else
      match openHostFile host hostPath s with
      | none => (.error .accessDenied, s.setHandle i none)
      | some hostFile => (.ok i, s.setHandle i (some { mode, wiiPath := path, hostFile }))

def close (fd : Nat) (s : HostFileSystem) : ResultCode × HostFileSystem :=
  match s.getHandleFromFd fd with
  | none => (.invalid, s)
  | some (i, _) => (.success, s.setHandle i none)

def content (s : HostFileSystem) (handle : Handle) : Bytes :=
  s.nand.contents.getD handle.hostFile.inode []

def readBytesFromFile (host : Host) (fd count : Nat) (s : HostFileSystem) :
    Except ResultCode Bytes × HostFileSystem :=
  match s.getHandleFromFd fd with
  | none => (.error .invalid, s)
  | some (i, handle) =>
    if handle.mode &&& Mode.read = 0 then (.error .accessDenied, s)
    else
      let fileSize := (s.content handle).length % 2 ^ 32
      let count :=
        if fileSize < (count + handle.fileOffset) % 2 ^ 32 then
          (fileSize + 2 ^ 32 - handle.fileOffset) % 2 ^ 32
        else count
      let bytes := slice (s.content handle) handle.fileOffset count
      if bytes.length ≠ count && !host .readFile then (.error .accessDenied, s)
      else
        let fileOffset := (handle.fileOffset + bytes.length) % 2 ^ 32
        (.ok bytes, s.setHandle i (some { handle with fileOffset }))

def writeBytesToFile (host : Host) (fd : Nat) (bytes : Bytes) (s : HostFileSystem) :
    Except ResultCode Nat × HostFileSystem :=
  match s.getHandleFromFd fd with
  | none => (.error .invalid, s)
  | some (i, handle) =>
    if handle.mode &&& Mode.write = 0 then (.error .accessDenied, s)
    else if !host .writeFile then (.error .accessDenied, s)
    else
      let old := s.content handle
      let front := old.take handle.fileOffset
      let gap := List.replicate (handle.fileOffset - old.length) 0
      let written := front ++ gap ++ bytes ++ old.drop (handle.fileOffset + bytes.length)
      let s := { s with nand := s.nand.write handle.hostFile.inode written }
      let fileOffset := (handle.fileOffset + bytes.length) % 2 ^ 32
      (.ok bytes.length, s.setHandle i (some { handle with fileOffset }))

/-- Positions are 32 bits wide; the modes are set, current and end. -/
def seekFile (fd offset mode : Nat) (s : HostFileSystem) :
    Except ResultCode Nat × HostFileSystem :=
  match s.getHandleFromFd fd with
  | none => (.error .invalid, s)
  | some (i, handle) =>
    let size := (s.content handle).length
    let newPosition : Option Nat :=
      match mode with
      | 0 => some (offset % 2 ^ 32)
      | 1 => some ((handle.fileOffset + offset) % 2 ^ 32)
      | 2 => some ((size + offset) % 2 ^ 32)
      | _ => none
    match newPosition with
    | none => (.error .invalid, s)
    | some fileOffset =>
      -- This differs from POSIX, which allows positions behind the end of the file.
      if size < fileOffset then (.error .invalid, s)
      else (.ok fileOffset, s.setHandle i (some { handle with fileOffset }))

end HostFileSystem

/-! ### Calls -/

inductive Request where
  | createFile (uid gid : Nat) (path : Text) (attr : Nat) (modes : Modes)
  | createDirectory (uid gid : Nat) (path : Text) (attr : Nat) (modes : Modes)
  | delete (uid gid : Nat) (path : Text)
  | rename (uid gid : Nat) (oldPath newPath : Text)
  | setMetadata (callerUid : Nat) (path : Text) (uid gid attr : Nat) (modes : Modes)
  | openFile (uid gid : Nat) (path : Text) (mode : Nat)
  | seekFile (fd offset mode : Nat)
  | readDirectory (uid gid : Nat) (path : Text)

inductive Call where
  | request (r : Request)
  | format (uid : Nat)
  | close (fd : Nat)
  | readBytesFromFile (fd count : Nat)
  | writeBytesToFile (fd : Nat) (bytes : Bytes)
  | getMetadata (uid gid : Nat) (path : Text)

def resultCode {α : Type} : Except ResultCode α → ResultCode
  | .ok _ => .success
  | .error code => code

def Request.perform (host : Host) (s : HostFileSystem) : Request → ResultCode × HostFileSystem
  | createFile uid gid path attr modes => s.createFile host uid gid path attr modes
  | createDirectory uid gid path attr modes => s.createDirectory host uid gid path attr modes
  | delete uid gid path => s.delete host uid gid path
  | rename uid gid oldPath newPath => s.rename host uid gid oldPath newPath
  | setMetadata callerUid path uid gid attr modes =>
    s.setMetadata host callerUid path uid gid attr modes
  | openFile _ _ path mode => (s.openFile host path mode).map resultCode id
  | seekFile fd offset mode => (s.seekFile fd offset mode).map resultCode id
  | readDirectory uid gid path => (s.readDirectory uid gid path).map resultCode id

def Call.perform (host : Host) (s : HostFileSystem) : Call → HostFileSystem
  | request r => (r.perform host s).2
  | format uid => (s.format host uid).2
  | close fd => (s.close fd).2
  | readBytesFromFile fd count => (s.readBytesFromFile host fd count).2
  | writeBytesToFile fd bytes => (s.writeBytesToFile host fd bytes).2
  | getMetadata uid gid path => (s.getMetadata uid gid path).2

def Request.dangles (host : Host) (s : HostFileSystem) : Request → Bool
  | rename uid gid oldPath newPath => s.renameDangles host uid gid oldPath newPath
  | _ => false

def Call.dangles (host : Host) (s : HostFileSystem) : Call → Bool
  | request r => r.dangles host s
  | _ => false

/-- The state after a call, `none` where what the call does is not defined. -/
def HostFileSystem.step (s : HostFileSystem) (x : Host × Call) : Option HostFileSystem :=
  if x.2.dangles x.1 s then none else some (x.2.perform x.1 s)

theorem HostFileSystem.step_eq_some {s s' : HostFileSystem} {x : Host × Call} :
    s.step x = some s' ↔ x.2.dangles x.1 s = false ∧ x.2.perform x.1 s = s' := by
  rw [step, Option.ite_none_left_eq_some, Bool.not_eq_true, Option.some.injEq]

def HostFileSystem.run (s : HostFileSystem) (calls : List (Host × Call)) : HostFileSystem :=
  calls.foldl (fun s x => x.2.perform x.1 s) s

end DolphinXR.IOS.FS
