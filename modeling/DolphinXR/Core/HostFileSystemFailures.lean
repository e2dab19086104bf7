import DolphinXR.Core.HostFileSystem

/- What a failed request leaves as it was. The checks of every request only look entries up, and
   looking up an entry changes no metadata: the entries it makes say what was said of them
   before, and the children it drops are of a file. So a request that fails has changed nothing,
   but for `Rename`, which deletes what is at the new path before the host is asked to move
   anything: the directory is gone where the host then does not move it, as between a path and
   itself or one below the other. -/
namespace DolphinXR.IOS.FS
open Common Lib

def Metadata.withoutKind (data : Metadata) : Metadata := { data with isFile := false }

def Metadata.onHost (data : Metadata) (isFile : Bool) (size : Nat) : Metadata :=
  { data with isFile, size }

theorem Metadata.onHost_congr {d d' : Metadata} (h : d.withoutKind = d'.withoutKind)
    (isFile : Bool) (size : Nat) : d.onHost isFile size = d'.onHost isFile size := by
  change d.withoutKind.onHost isFile size = d'.withoutKind.onHost isFile size
  rw [h]

namespace FstEntry

def defaultData : Metadata := (defaultEntry []).data

def dataAt (names : List Text) (entry : FstEntry) : Metadata :=
  ((entry.find names).getD (defaultEntry [])).data

theorem find_children_updateChild {name other : Text} {f : FstEntry → FstEntry}
    (hf : ∀ x, (f x).name = x.name) (children : List FstEntry) :
    (updateChild name f children).find? (·.name = other) =
      if name = other then
        some (f ((children.find? (·.name = name)).getD (defaultEntry name)))
      else children.find? (·.name = other) := by
  induction children with
  | nil =>
    have hname : (f (defaultEntry name)).name = name := hf _
    simp only [updateChild, List.find?_cons, List.find?_nil, hname]
    split_ifs with h
    all_goals simp [h]
  | cons child rest ih =>
    unfold updateChild
    rcases eq_or_ne child.name name with hchild | hchild
    · rw [if_pos hchild]
      rcases eq_or_ne name other with rfl | hother
      · simp [hf, hchild]
      · simp [hf, hchild, hother]
    · rw [if_neg hchild]
      rcases eq_or_ne name other with rfl | hother
      · simp [hchild, ih]
      · simp [List.find?_cons, ih, hother]

theorem updateAt_name {f : FstEntry → FstEntry} (hf : ∀ x, (f x).name = x.name)
    (names : List Text) (entry : FstEntry) : (updateAt f names entry).name = entry.name := by
  cases names with
  | nil => exact hf entry
  | cons name names => rfl

theorem dataAt_defaultEntry (name : Text) (names : List Text) :
    (defaultEntry name).dataAt names = defaultData := by
  cases names with
  | nil => rfl
  | cons => rfl

theorem find_cons (name : Text) (names : List Text) (entry : FstEntry) :
    entry.find (name :: names) =
      (entry.children.find? (·.name = name)).bind fun child => child.find names := rfl

theorem dataAt_cons (name : Text) (names : List Text) (entry : FstEntry) :
    entry.dataAt (name :: names) =
      ((entry.children.find? (·.name = name)).getD (defaultEntry name)).dataAt names := by
  rw [dataAt, find_cons]
  cases entry.children.find? (·.name = name) with
  | none => exact (dataAt_defaultEntry name names).symm
  | some child => rfl

theorem dataAt_updateAt_cons {f : FstEntry → FstEntry} (hf : ∀ x, (f x).name = x.name)
    (name other : Text) (names others : List Text) (entry : FstEntry) :
    (updateAt f (name :: names) entry).dataAt (other :: others) =
      if name = other then
        (updateAt f names ((entry.children.find? (·.name = name)).getD
          (defaultEntry name))).dataAt others
      else entry.dataAt (other :: others) := by
  rw [dataAt_cons, dataAt_cons, updateAt, find_children_updateChild fun x => updateAt_name hf _ x]
  split
  all_goals rfl

theorem dataAt_updateAt_refresh {isFile : Bool} {names others : List Text}
    (h : isFile = true → names <+: others → others = names) (entry : FstEntry) :
    ((updateAt (refresh isFile) names entry).dataAt others).withoutKind =
      (entry.dataAt others).withoutKind := by
  induction names generalizing others entry with
  | nil =>
    cases others with
    | nil => rfl
    | cons other others =>
      cases isFile with
      | true => exact absurd (h rfl List.nil_prefix) nofun
      | false => rw [dataAt_cons, dataAt_cons]; rfl
  | cons name names ih =>
    cases others with
    | nil => rfl
    | cons other others =>
      have hname : ∀ x, (refresh isFile x).name = x.name := fun _ => rfl
      rw [dataAt_updateAt_cons hname]
      rcases eq_or_ne name other with rfl | hne
      · have hbelow : isFile = true → names <+: others → others = names := fun hfile hp =>
          List.tail_eq_of_cons_eq (h hfile (List.cons_prefix_cons.2 ⟨rfl, hp⟩))
        rw [if_pos rfl, ih hbelow, ← dataAt_cons]
      · rw [if_neg hne]

theorem isFile_dataAt_updateAt_refresh (isFile : Bool) (names : List Text) (entry : FstEntry) :
    ((updateAt (refresh isFile) names entry).dataAt names).isFile = isFile := by
  induction names generalizing entry with
  | nil => rfl
  | cons name names ih =>
    have hname : ∀ x, (refresh isFile x).name = x.name := fun _ => rfl
    rw [dataAt_updateAt_cons hname, if_pos rfl]
    exact ih _

end FstEntry

namespace HostFileSystem

def Found (s : HostFileSystem) (path : Text) : Prop :=
  path = ['/'] ∨ isValidNonRootPath path ∧ Nand.present s.nand (buildFilename path)

/-- The metadata of what exists: the table's, but for the kind and the size, which are the
    host's. -/
def metadata (s : HostFileSystem) (path : Text) : Option Metadata :=
  let size := Nand.getSize s.nand (buildFilename path)
  if path = ['/'] then some { s.data [] with size }
  else if !isValidNonRootPath path then none
  else (Nand.fileInfo s.nand (buildFilename path)).map fun found =>
    (s.data (components path)).onHost found.isFile size

/-- The host tree with the contents of its files, the metadata of what exists and the handles. -/
structure Unchanged (s s' : HostFileSystem) : Prop where
  nand : s'.nand = s.nand
  metadata : ∀ path, s'.metadata path = s.metadata path
  handles : s'.handles = s.handles

theorem Unchanged.refl (s : HostFileSystem) : Unchanged s s := ⟨rfl, fun _ => rfl, rfl⟩

theorem Unchanged.trans {s₁ s₂ s₃ : HostFileSystem} (h : Unchanged s₁ s₂) (h' : Unchanged s₂ s₃) :
    Unchanged s₁ s₃ :=
  ⟨h'.nand.trans h.nand, fun path => (h'.metadata path).trans (h.metadata path),
    h'.handles.trans h.handles⟩

/-! ### Paths on the host -/

theorem valid_cons {path : Text} (h : isValidNonRootPath path = true) :
    ∃ t, path = '/' :: t ∧ t ≠ [] ∧ t.getLast? ≠ some '/' := by
  unfold isValidNonRootPath at h
  simp only [Bool.and_eq_true, decide_eq_true_eq, beq_iff_eq, bne_iff_ne] at h
  obtain ⟨⟨⟨hlength, -⟩, hhead⟩, hlast⟩ := h
  cases path with
  | nil => cases hhead
  | cons c t =>
    obtain rfl : c = '/' := Option.some.inj hhead
    have hne : t ≠ [] := fun hnil => by rw [hnil] at hlength; exact absurd hlength (by decide)
    exact ⟨t, rfl, hne, List.getLast?_cons_of_ne_nil hne ▸ hlast⟩

theorem resolve_buildFilename {path : Text} (h : isValidNonRootPath path = true) :
    resolve (buildFilename path) = hostNames (components path) := by
  obtain ⟨t, rfl, -, -⟩ := valid_cons h
  calc resolve (buildFilename ('/' :: t))
      = hostNames (splitString '/' ('/' :: t)) := resolve_escapePath _
    _ = hostNames ([] :: splitString '/' t) := by rw [splitString, if_pos rfl]
    _ = hostNames (components ('/' :: t)) := rfl

theorem getLast?_components {path : Text} (h : isValidNonRootPath path = true) :
    ∃ name, (components path).getLast? = some name ∧ name ≠ [] := by
  obtain ⟨t, rfl, hne, hlast⟩ := valid_cons h
  exact getLast?_splitString hne hlast

theorem resolve_ne_nil {path : Text} (h : isValidNonRootPath path = true) :
    resolve (buildFilename path) ≠ [] := by
  obtain ⟨name, hname, hne⟩ := getLast?_components h
  rw [resolve_buildFilename h]
  exact hostNames_ne_nil (List.mem_of_getLast? hname) hne

theorem fileInfo_below_file {nand : Nand} {path below : Text} {inode : Nat}
    (h : isValidNonRootPath path = true) (hbelow : isValidNonRootPath below = true)
    (hfile : Nand.fileInfo nand (buildFilename path) = some (.file inode))
    (hbefore : components path <+: components below) (hne : components below ≠ components path) :
    Nand.fileInfo nand (buildFilename below) = none := by
  obtain ⟨r, hr⟩ := hbefore
  obtain ⟨name, hname, hnamene⟩ := getLast?_components hbelow
  have hrne : r ≠ [] := by
    rintro rfl
    exact hne (hr.symm.trans (List.append_nil _))
  have hmem : name ∈ r := by
    rw [← hr, List.getLast?_append_of_ne_nil _ hrne] at hname
    exact List.mem_of_getLast? hname
  unfold Nand.fileInfo at hfile ⊢
  rw [resolve_buildFilename h] at hfile
  rw [resolve_buildFilename hbelow, ← hr, hostNames_append]
  exact FileTree.node_below_file hfile (hostNames_ne_nil hmem hnamene)

/-! ### Looking up an entry -/

theorem unchanged_refresh {s : HostFileSystem} {path : Text} {found : Node}
    (h : isValidNonRootPath path = true)
    (hfound : Nand.fileInfo s.nand (buildFilename path) = some found) :
    Unchanged s { s with
      rootEntry := s.rootEntry.updateAt (FstEntry.refresh found.isFile) (components path) } := by
  refine ⟨rfl, fun other => ?_, rfl⟩
  obtain ⟨name, hname, -⟩ := getLast?_components h
  obtain ⟨first, names, hnames⟩ : ∃ first names, components path = first :: names :=
    List.exists_cons_of_ne_nil fun hnil => by rw [hnil] at hname; cases hname
  unfold metadata
  split
  case isTrue => rw [hnames]; rfl
  case isFalse =>
    cases hother : isValidNonRootPath other with
    | false => rfl
    | true =>
      refine Option.map_congr fun a ha => ?_
      have hbelow : found.isFile = true → components path <+: components other →
          components other = components path := by
        intro hfile hp
        by_contra hne
        cases found with
        | dir => cases hfile
        | file inode =>
          exact absurd (ha.symm.trans (fileInfo_below_file h hother hfound hp hne)) nofun
      exact Metadata.onHost_congr (FstEntry.dataAt_updateAt_refresh hbelow s.rootEntry) _ _

theorem getFstEntryForPath_fst (path : Text) (s : HostFileSystem) :
    (Found s path → (getFstEntryForPath path s).1 = some (components path)) ∧
      (¬ Found s path → (getFstEntryForPath path s).1 = none) := by
  unfold getFstEntryForPath Found Nand.present
  split
  case isTrue hroot =>
    subst hroot
    exact ⟨fun _ => rfl, fun h => absurd (Or.inl rfl) h⟩
  case isFalse hroot =>
    cases hvalid : isValidNonRootPath path with
    | false => simp [hroot]
    | true =>
      cases hinfo : Nand.fileInfo s.nand (buildFilename path) with
      | none => simp [hroot]
      | some found => simp

theorem unchanged_getFstEntryForPath (path : Text) (s : HostFileSystem) :
    Unchanged s (getFstEntryForPath path s).2 := by
  unfold getFstEntryForPath
  split
  case isTrue => exact .refl s
  case isFalse =>
    cases hvalid : isValidNonRootPath path with
    | false => exact .refl s
    | true =>
      cases hinfo : Nand.fileInfo s.nand (buildFilename path) with
      | none => exact .refl s
      | some found => exact unchanged_refresh hvalid hinfo

theorem getFstEntryForPath_spec (path : Text) (s : HostFileSystem) :
    Found s path ∧ (getFstEntryForPath path s).1 = some (components path) ∨
      ¬ Found s path ∧ (getFstEntryForPath path s).1 = none := by
  by_cases h : Found s path
  · exact .inl ⟨h, (getFstEntryForPath_fst path s).1 h⟩
  · exact .inr ⟨h, (getFstEntryForPath_fst path s).2 h⟩

theorem Unchanged.found {s s' : HostFileSystem} (h : Unchanged s s') (path : Text) :
    Found s' path ↔ Found s path := by
  unfold Found
  rw [h.nand]

theorem Unchanged.isFileOpened {s s' : HostFileSystem} (h : Unchanged s s') (path : Text) :
    s'.isFileOpened path = s.isFileOpened path := by
  unfold HostFileSystem.isFileOpened
  rw [h.handles]

theorem Unchanged.isDirectoryInUse {s s' : HostFileSystem} (h : Unchanged s s') (path : Text) :
    s'.isDirectoryInUse path = s.isDirectoryInUse path := by
  unfold HostFileSystem.isDirectoryInUse
  rw [h.handles]

theorem Unchanged.checkPermission {s s' : HostFileSystem} (h : Unchanged s s') {path : Text}
    (hfound : Found s path) (uid gid mode : Nat) :
    (s'.data (components path)).checkPermission uid gid mode =
      (s.data (components path)).checkPermission uid gid mode := by
  have hpath := h.metadata path
  unfold HostFileSystem.metadata at hpath
  rcases hfound with rfl | ⟨hvalid, hpresent⟩
  · exact congrArg (fun d : Option Metadata => (d.getD {}).checkPermission uid gid mode) hpath
  · have hroot : path ≠ ['/'] := by rintro rfl; exact absurd hvalid (by decide)
    obtain ⟨a, ha⟩ := Option.isSome_iff_exists.1 hpresent
    rw [if_neg hroot, if_neg hroot, if_neg (by simp [hvalid]), if_neg (by simp [hvalid]), h.nand,
      ha] at hpath
    exact congrArg (fun d : Option Metadata => (d.getD {}).checkPermission uid gid mode) hpath

theorem isFile_getFstEntryForPath {path : Text} {s : HostFileSystem}
    (h : isValidNonRootPath path = true) {found : Node}
    (hfound : Nand.fileInfo s.nand (buildFilename path) = some found) :
    ((getFstEntryForPath path s).2.data (components path)).isFile = found.isFile := by
  have hroot : path ≠ ['/'] := by rintro rfl; exact absurd h (by decide)
  unfold getFstEntryForPath
  rw [if_neg hroot, if_neg (by simp [h]), hfound]
  exact FstEntry.isFile_dataAt_updateAt_refresh ..

theorem metadata_of_getMetadata {path : Text} {s : HostFileSystem} {data : Metadata}
    (h : (getMetadata 0 0 path s).1 = .ok data) : s.metadata path = some data := by
  unfold getMetadata at h
  dsimp only at h
  split_ifs at h with hroot hvalid
  · cases h
    exact if_pos hroot
  · have hparent := unchanged_getFstEntryForPath (splitPathAndBasename path).1 s
    generalize getFstEntryForPath (splitPathAndBasename path).1 s = found at hparent h
    obtain ⟨_ | parent, s₁⟩ := found
    · cases h
    dsimp only at h hparent
    split_ifs at h with hpermitted
    have hentry := unchanged_getFstEntryForPath path s₁
    rcases getFstEntryForPath_spec path s₁ with ⟨hfound, hget⟩ | ⟨-, hget⟩
    · obtain ⟨hval, hpresent⟩ := hfound.resolve_left hroot
      obtain ⟨a, ha⟩ := Option.isSome_iff_exists.1 hpresent
      have hkind := isFile_getFstEntryForPath hval ha
      generalize getFstEntryForPath path s₁ = looked at hentry hget hkind h
      obtain ⟨entry, s₂⟩ := looked
      cases hget
      cases h
      have hchain := hparent.trans hentry
      have hinfo : Nand.fileInfo s₂.nand (buildFilename path) = some a := by rw [hentry.nand]; exact ha
      rw [← hchain.metadata path, HostFileSystem.metadata, if_neg hroot, if_neg hvalid, hinfo,
        Option.map_some, ← hkind]
      rfl
    · generalize getFstEntryForPath path s₁ = looked at hget h
      obtain ⟨entry, s₂⟩ := looked
      cases hget
      cases h

/-! ### Requests that fail -/

theorem attempt_failed {host : Host} {operation : HostOperation} {result : Option Nand} {nand : Nand}
    (h : (Nand.attempt host operation result nand).1 = false) :
    (Nand.attempt host operation result nand).2 = nand := by
  unfold Nand.attempt at h ⊢
  cases hresult : (if host operation = true then result else none) with
  | none => rfl
  | some nand' => rw [hresult] at h; cases h

theorem make_failed {host : Host} {isFile : Bool} {hostPath : Text} {nand : Nand}
    (h : (Nand.make host isFile hostPath nand).1 = false) :
    (Nand.make host isFile hostPath nand).2 = nand := by
  unfold Nand.make Nand.createDir at h ⊢
  split_ifs at h ⊢
  · exact attempt_failed h
  · exact attempt_failed h

theorem createFileOrDirectory_failed {host : Host} {uid gid : Nat} {path : Text} {attr : Nat}
    {modes : Modes} {isFile : Bool} {s : HostFileSystem}
    (h : (createFileOrDirectory host uid gid path attr modes isFile s).1 ≠ .success) :
    Unchanged s (createFileOrDirectory host uid gid path attr modes isFile s).2 := by
  have hparent := unchanged_getFstEntryForPath (splitPathAndBasename path).1 s
  unfold createFileOrDirectory at h ⊢
  dsimp only at h ⊢
  generalize getFstEntryForPath (splitPathAndBasename path).1 s = found at hparent h ⊢
  obtain ⟨parent, s'⟩ := found
  split_ifs at h ⊢
  · exact .refl s
  · exact .refl s
  · cases parent with
    | none => exact hparent
    | some parent =>
      dsimp only at h ⊢
      split_ifs at h ⊢ with hpermitted hpresent hmade
      · exact hparent
      · exact hparent
      · rw [make_failed (by simpa using hmade)]
        exact hparent
      · split at h
        · exact absurd rfl h
        · exact absurd rfl h

theorem delete_failed {host : Host} {uid gid : Nat} {path : Text} {s : HostFileSystem}
    (h : (delete host uid gid path s).1 ≠ .success) : Unchanged s (delete host uid gid path s).2 := by
  have hparent := unchanged_getFstEntryForPath (splitPathAndBasename path).1 s
  unfold delete at h ⊢
  dsimp only at h ⊢
  generalize getFstEntryForPath (splitPathAndBasename path).1 s = found at hparent h ⊢
  obtain ⟨parent, s'⟩ := found
  split_ifs at h ⊢
  · exact .refl s
  · cases parent with
    | none => exact hparent
    | some parent =>
      dsimp only at h ⊢
      split_ifs at h ⊢
      · exact hparent
      · exact hparent
      · exact absurd rfl h
      · exact absurd rfl h
      · exact hparent

theorem setMetadata_failed {host : Host} {callerUid : Nat} {path : Text} {uid gid attr : Nat}
    {modes : Modes} {s : HostFileSystem}
    (h : (setMetadata host callerUid path uid gid attr modes s).1 ≠ .success) :
    Unchanged s (setMetadata host callerUid path uid gid attr modes s).2 := by
  have hentry := unchanged_getFstEntryForPath path s
  unfold setMetadata at h ⊢
  dsimp only at h ⊢
  generalize getFstEntryForPath path s = found at hentry h ⊢
  obtain ⟨entry, s'⟩ := found
  split_ifs at h ⊢
  · exact .refl s
  · cases entry with
    | none => exact hentry
    | some entry =>
      dsimp only at h ⊢
      split_ifs at h ⊢
      · exact hentry
      · exact hentry
      · exact hentry
      · exact absurd rfl h
      · exact absurd rfl h

theorem unchanged_readDirectory (uid gid : Nat) (path : Text) (s : HostFileSystem) :
    Unchanged s (readDirectory uid gid path s).2 := by
  have hentry := unchanged_getFstEntryForPath path s
  unfold readDirectory
  generalize getFstEntryForPath path s = found at hentry ⊢
  obtain ⟨entry, s'⟩ := found
  split_ifs
  · exact .refl s
  · cases entry with
    | none => exact hentry
    | some entry =>
      dsimp only
      split_ifs
      · exact hentry
      · exact hentry
      · exact hentry

theorem setHandle_none {s : HostFileSystem} {i : Fin 16} (h : s.assignFreeHandle = some i) :
    s.setHandle i none = s := by
  have hfree : s.handles i = none := by simpa using List.find?_some h
  unfold setHandle
  rw [← hfree, Function.update_eq_self]

theorem openFile_failed {host : Host} {path : Text} {mode : Nat} {s : HostFileSystem}
    {code : ResultCode} (h : (openFile host path mode s).1 = .error code) :
    (openFile host path mode s).2 = s := by
  unfold openFile at h ⊢
  split
  case h_1 => rfl
  case h_2 i hfree =>
    rw [hfree] at h
    dsimp only at h ⊢
    split_ifs at h ⊢
    · exact setHandle_none hfree
    · exact setHandle_none hfree
    · split
      · exact setHandle_none hfree
      · next hopen => rw [hopen] at h; cases h

theorem seekFile_failed {fd offset mode : Nat} {s : HostFileSystem} {code : ResultCode}
    (h : (seekFile fd offset mode s).1 = .error code) : (seekFile fd offset mode s).2 = s := by
  unfold seekFile at h ⊢
  split
  case h_1 => rfl
  case h_2 i handle hget =>
    rw [hget] at h
    dsimp only at h ⊢
    split
    case h_1 => rfl
    case h_2 fileOffset hposition =>
      rw [hposition] at h
      dsimp only at h ⊢
      split_ifs at h ⊢
      rfl

/-! ### Renaming -/

/-- The request passes the checks of `Rename`. -/
structure RenameAllowed (s : HostFileSystem) (uid gid : Nat) (oldPath newPath : Text) : Prop where
  valid : isValidNonRootPath oldPath ∧ isValidNonRootPath newPath
  parents : Found s (splitPathAndBasename oldPath).1 ∧ Found s (splitPathAndBasename newPath).1
  permitted : ∀ path ∈ [oldPath, newPath],
    (s.data (components (splitPathAndBasename path).1)).checkPermission uid gid Mode.write
  source : Nand.present s.nand (buildFilename oldPath)
  fileName : Nand.isFile s.nand (buildFilename oldPath) →
    (splitPathAndBasename oldPath).2 = (splitPathAndBasename newPath).2
  unused : if Nand.isFile s.nand (buildFilename oldPath) then s.isFileOpened oldPath = false
    else s.isDirectoryInUse oldPath = false

def nothingOpen (s : HostFileSystem) : HostFileSystem := { s with handles := fun _ => none }

theorem data_nothingOpen (s : HostFileSystem) : s.nothingOpen.data = s.data := rfl

theorem isFileOpened_nothingOpen (s : HostFileSystem) (path : Text) :
    s.nothingOpen.isFileOpened path = false :=
  List.any_eq_false.2 fun _ _ => Bool.false_ne_true

theorem isDirectoryInUse_nothingOpen (s : HostFileSystem) (path : Text) :
    s.nothingOpen.isDirectoryInUse path = false :=
  List.any_eq_false.2 fun _ _ => Bool.false_ne_true

theorem unused_nothingOpen (s : HostFileSystem) (path : Text) :
    if Nand.isFile s.nothingOpen.nand (buildFilename path) then
      s.nothingOpen.isFileOpened path = false
    else s.nothingOpen.isDirectoryInUse path = false := by
  split
  · exact isFileOpened_nothingOpen s path
  · exact isDirectoryInUse_nothingOpen s path

theorem RenameAllowed.nothingOpen {s : HostFileSystem} {uid gid : Nat} {oldPath newPath : Text}
    (h : RenameAllowed s uid gid oldPath newPath) :
    RenameAllowed s.nothingOpen uid gid oldPath newPath :=
  ⟨h.valid, h.parents, h.permitted, h.source, h.fileName, unused_nothingOpen s oldPath⟩

theorem renameChecks_spec (uid gid : Nat) (oldPath newPath : Text) (s : HostFileSystem) :
    Unchanged s (renameChecks uid gid oldPath newPath s).2 ∧
      ((∃ entry, (renameChecks uid gid oldPath newPath s).1 = .ok entry) ∧
          RenameAllowed s uid gid oldPath newPath ∨
        (∃ code, (renameChecks uid gid oldPath newPath s).1 = .error code ∧ code ≠ .success ∧
            (code = .inUse ↔ RenameAllowed s.nothingOpen uid gid oldPath newPath)) ∧
          ¬ RenameAllowed s uid gid oldPath newPath) := by
  -- What is refused for another reason than a file that is open.
  have hrefused : ∀ code : ResultCode, code ≠ .inUse →
      ¬ RenameAllowed s.nothingOpen uid gid oldPath newPath →
        (code = .inUse ↔ RenameAllowed s.nothingOpen uid gid oldPath newPath) ∧
          ¬ RenameAllowed s uid gid oldPath newPath :=
    fun code hcode hno => ⟨iff_of_false hcode hno, mt RenameAllowed.nothingOpen hno⟩
  unfold renameChecks
  dsimp only
  split_ifs with hvalid
  · obtain ⟨hcode, hnot⟩ := hrefused .invalid (by decide) fun hallowed => by
      simp [hallowed.valid.1, hallowed.valid.2] at hvalid
    exact ⟨.refl s, .inr ⟨⟨_, rfl, by decide, hcode⟩, hnot⟩⟩
  obtain ⟨hold, hnew⟩ : isValidNonRootPath oldPath = true ∧ isValidNonRootPath newPath = true := by
    simpa using hvalid
  -- The three entries are looked up one after the other, each in the table the last one left.
  have h₁ := unchanged_getFstEntryForPath (splitPathAndBasename oldPath).1 s
  have hspec₁ := getFstEntryForPath_spec (splitPathAndBasename oldPath).1 s
  generalize getFstEntryForPath (splitPathAndBasename oldPath).1 s = found₁ at h₁ hspec₁ ⊢
  obtain ⟨oldParent, s₁⟩ := found₁
  have h₂ := h₁.trans (unchanged_getFstEntryForPath (splitPathAndBasename newPath).1 s₁)
  have hspec₂ := getFstEntryForPath_spec (splitPathAndBasename newPath).1 s₁
  dsimp only at h₂ hspec₁ ⊢
  generalize getFstEntryForPath (splitPathAndBasename newPath).1 s₁ = found₂ at h₂ hspec₂ ⊢
  obtain ⟨newParent, s₂⟩ := found₂
  dsimp only at h₂ hspec₂ ⊢
  rw [h₁.found] at hspec₂
  rcases hspec₁ with ⟨hfound₁, rfl⟩ | ⟨hfound₁, rfl⟩
  case inr =>
    obtain ⟨hcode, hnot⟩ := hrefused .notFound (by decide) fun hallowed =>
      hfound₁ hallowed.parents.1
    exact ⟨h₂, .inr ⟨⟨_, rfl, by decide, hcode⟩, hnot⟩⟩
  rcases hspec₂ with ⟨hfound₂, rfl⟩ | ⟨hfound₂, rfl⟩
  case inr =>
    obtain ⟨hcode, hnot⟩ := hrefused .notFound (by decide) fun hallowed =>
      hfound₂ hallowed.parents.2
    exact ⟨h₂, .inr ⟨⟨_, rfl, by decide, hcode⟩, hnot⟩⟩
  dsimp only
  rw [h₂.checkPermission hfound₁, h₂.checkPermission hfound₂]
  split_ifs with hpermitted
  · obtain ⟨hcode, hnot⟩ := hrefused .accessDenied (by decide) fun hallowed => by
      have hold' := hallowed.permitted oldPath (List.mem_cons_self ..)
      have hnew' := hallowed.permitted newPath (List.mem_cons_of_mem _ (List.mem_cons_self ..))
      rw [data_nothingOpen] at hold' hnew'
      simp [hold', hnew'] at hpermitted
    exact ⟨h₂, .inr ⟨⟨_, rfl, by decide, hcode⟩, hnot⟩⟩
  have h₃ := h₂.trans (unchanged_getFstEntryForPath oldPath s₂)
  have hspec₃ := getFstEntryForPath_spec oldPath s₂
  have hkind : ∀ a, Nand.fileInfo s₂.nand (buildFilename oldPath) = some a →
      ((getFstEntryForPath oldPath s₂).2.data (components oldPath)).isFile = a.isFile :=
    fun a => isFile_getFstEntryForPath hold
  generalize getFstEntryForPath oldPath s₂ = found₃ at h₃ hspec₃ hkind ⊢
  obtain ⟨entry, s₃⟩ := found₃
  dsimp only at h₃ hspec₃ hkind ⊢
  rw [h₂.found] at hspec₃
  rcases hspec₃ with ⟨hfound₃, rfl⟩ | ⟨hfound₃, rfl⟩
  case inr =>
    obtain ⟨hcode, hnot⟩ := hrefused .notFound (by decide) fun hallowed =>
      hfound₃ (.inr ⟨hold, hallowed.source⟩)
    exact ⟨h₃, .inr ⟨⟨_, rfl, by decide, hcode⟩, hnot⟩⟩
  have hroot : oldPath ≠ ['/'] := by rintro rfl; exact absurd hold (by decide)
  have hsource := (hfound₃.resolve_left hroot).2
  obtain ⟨a, ha⟩ := Option.isSome_iff_exists.1 hsource
  have hisFile : Nand.isFile s.nand (buildFilename oldPath) = a.isFile := by
    rw [Nand.isFile, ha, Option.any_some]
  dsimp only
  rw [hkind a (by rw [h₂.nand]; exact ha), h₃.isFileOpened, h₃.isDirectoryInUse, ← hisFile]
  have hparents := And.intro hfound₁ hfound₂
  split_ifs with hname huse
  · obtain ⟨hcode, hnot⟩ := hrefused .invalid (by decide) fun hallowed => by
      obtain ⟨hfile, hne⟩ : _ ∧ _ := by simpa using hname
      exact hne (hallowed.fileName hfile)
    exact ⟨h₃, .inr ⟨⟨_, rfl, by decide, hcode⟩, hnot⟩⟩
  · refine ⟨h₃, .inr ⟨⟨_, rfl, by decide, iff_of_true rfl ?_⟩, fun hallowed => ?_⟩⟩
    · refine ⟨⟨hold, hnew⟩, hparents, ?_, hsource, ?_, unused_nothingOpen s oldPath⟩
      · simpa [data_nothingOpen] using hpermitted
      · have hname' : Nand.isFile s.nand (buildFilename oldPath) →
            (splitPathAndBasename oldPath).2 = (splitPathAndBasename newPath).2 := by
          simpa using hname
        exact hname'
    · have hunused := hallowed.unused
      rcases Bool.or_eq_true_iff.1 huse with hdir | hfile
      · obtain ⟨hnot, hin⟩ := Bool.and_eq_true_iff.1 hdir
        rw [if_neg (by simpa using hnot)] at hunused
        exact Bool.false_ne_true (hunused.symm.trans hin)
      · obtain ⟨hfile, hin⟩ := Bool.and_eq_true_iff.1 hfile
        rw [if_pos hfile] at hunused
        exact Bool.false_ne_true (hunused.symm.trans hin)
  · refine ⟨h₃, .inl ⟨⟨_, rfl⟩, ⟨hold, hnew⟩, hparents, ?_, hsource, ?_, ?_⟩⟩
    · simpa using hpermitted
    · simpa using hname
    · cases hfile : Nand.isFile s.nand (buildFilename oldPath) with
      | true => simpa [hfile] using huse
      | false => simpa [hfile] using huse

def deletion : Node → HostOperation
  | .file _ => .delete
  | .dir => .deleteDirRecursively

theorem attempt_some (host : Host) (operation : HostOperation) (result nand : Nand) :
    (Nand.attempt host operation (some result) nand).2 =
      if host operation then result else nand := by
  unfold Nand.attempt
  split_ifs
  all_goals rfl

theorem deleteTarget_eq {host : Host} {oldPath newPath : Text} {nand : Nand} {a b : Node}
    (ha : Nand.fileInfo nand (buildFilename oldPath) = some a)
    (hb : Nand.fileInfo nand (buildFilename newPath) = some b) :
    deleteTarget host oldPath newPath nand =
      if a.isFile = b.isFile then
        some (if host (deletion b) then nand.removeAll (resolve (buildFilename newPath)) else nand)
      else none := by
  have hpresent : Nand.present nand (buildFilename newPath) = true := by rw [Nand.present, hb]; rfl
  have hisFile : ∀ path found, Nand.fileInfo nand path = some found →
      Nand.isFile nand path = found.isFile := by
    intro path found hfound
    rw [Nand.isFile, hfound, Option.any_some]
  have hdelete : ∀ j, b = .file j → (Nand.delete host (buildFilename newPath) nand).2 =
      if host .delete then nand.removeAll (resolve (buildFilename newPath)) else nand := by
    rintro j rfl
    have hunlink : nand.unlink (resolve (buildFilename newPath)) =
        some (nand.removeAll (resolve (buildFilename newPath))) := by
      rw [FileTree.unlink, show nand.node (resolve (buildFilename newPath)) = _ from hb]
    rw [Nand.delete, hpresent, if_neg (by decide), hunlink, attempt_some]
  unfold deleteTarget
  dsimp only
  rw [if_pos hpresent, hisFile _ _ ha, hisFile _ _ hb]
  cases a with
  | file i =>
    cases b with
    | file j => exact congrArg some (hdelete j rfl)
    | dir => rfl
  | dir =>
    cases b with
    | file j => rfl
    | dir => exact congrArg some (attempt_some ..)

theorem deleteTarget_of_none {host : Host} {oldPath newPath : Text} {nand : Nand}
    (h : Nand.fileInfo nand (buildFilename newPath) = none) :
    deleteTarget host oldPath newPath nand = some nand := by
  unfold deleteTarget
  dsimp only
  rw [if_neg (by rw [Nand.present, h]; nofun)]

/-- What is at the new path is of the same type and is deleted, and then the host does not rename:
    it refuses to, or one path is the other or below it. -/
structure RenameLosesTarget (host : Host) (s : HostFileSystem) (uid gid : Nat)
    (oldPath newPath : Text) : Prop where
  allowed : RenameAllowed s uid gid oldPath newPath
  deleted : ∃ a b, Nand.fileInfo s.nand (buildFilename oldPath) = some a ∧
    Nand.fileInfo s.nand (buildFilename newPath) = some b ∧ a.isFile = b.isFile ∧ host (deletion b)
  stuck : host .rename = false ∨
    resolve (buildFilename oldPath) <+: resolve (buildFilename newPath) ∨
    resolve (buildFilename newPath) <+: resolve (buildFilename oldPath)

theorem rename_deleted {host : Host} {oldPath newPath : Text} {nand : Nand} {a b : Node}
    (hvalid : isValidNonRootPath newPath = true)
    (ha : Nand.fileInfo nand (buildFilename oldPath) = some a)
    (hb : Nand.fileInfo nand (buildFilename newPath) = some b) :
    (Nand.rename host (buildFilename oldPath) (buildFilename newPath)
      (nand.removeAll (resolve (buildFilename newPath)))).1 = false ↔
      host .rename = false ∨ resolve (buildFilename oldPath) <+: resolve (buildFilename newPath) ∨
        resolve (buildFilename newPath) <+: resolve (buildFilename oldPath) := by
  have hlost := FileTree.rename_removeAll ha hb (resolve_ne_nil hvalid)
  unfold Nand.rename Nand.attempt
  cases hhost : host .rename with
  | false => simp
  | true =>
    rw [← hlost, if_pos rfl]
    cases (nand.removeAll (resolve (buildFilename newPath))).rename
      (resolve (buildFilename oldPath)) (resolve (buildFilename newPath)) with
    | none => simp
    | some moved => simp

theorem renameOnHost_failed {host : Host} {oldParent : List Text} {oldPath newPath : Text}
    {nand : Nand} {s : HostFileSystem}
    (h : (Nand.rename host (buildFilename oldPath) (buildFilename newPath) nand).1 = false) :
    renameOnHost host oldParent oldPath newPath nand s = (.notFound, { s with nand }) := by
  unfold renameOnHost
  dsimp only
  have hsame : (Nand.rename host (buildFilename oldPath) (buildFilename newPath) nand).2 = nand :=
    attempt_failed h
  rw [h, hsame]
  rfl

theorem renameOnHost_succeeded {host : Host} {oldParent : List Text} {oldPath newPath : Text}
    {nand : Nand} {s : HostFileSystem}
    (h : (Nand.rename host (buildFilename oldPath) (buildFilename newPath) nand).1 = true) :
    (renameOnHost host oldParent oldPath newPath nand s).1 = .success := by
  unfold renameOnHost
  dsimp only
  rw [if_neg (by rw [h]; decide)]
  split
  all_goals rfl

theorem renameOnHost_kept {host : Host} {oldParent : List Text} {oldPath newPath : Text}
    {s s' : HostFileSystem} (hs : Unchanged s s')
    (h : (renameOnHost host oldParent oldPath newPath s'.nand s').1 ≠ .success) :
    Unchanged s (renameOnHost host oldParent oldPath newPath s'.nand s').2 := by
  cases hmoved : (Nand.rename host (buildFilename oldPath) (buildFilename newPath) s'.nand).1 with
  | true => exact absurd (renameOnHost_succeeded hmoved) h
  | false =>
    rw [renameOnHost_failed hmoved]
    exact hs

theorem rename_failed_iff (host : Host) (uid gid : Nat) (oldPath newPath : Text)
    (s : HostFileSystem) :
    ((rename host uid gid oldPath newPath s).1 ≠ .success →
        Unchanged s (rename host uid gid oldPath newPath s).2) ↔
      ¬ RenameLosesTarget host s uid gid oldPath newPath := by
  obtain ⟨hchecks, hresult⟩ := renameChecks_spec uid gid oldPath newPath s
  unfold rename
  generalize renameChecks uid gid oldPath newPath s = checked at hchecks hresult ⊢
  obtain ⟨result, s'⟩ := checked
  rcases hresult with ⟨⟨oldParent, rfl⟩, hallowed⟩ | ⟨⟨code, rfl, -⟩, hnot⟩
  case inr => exact ⟨fun _ hloses => hnot hloses.allowed, fun _ _ => hchecks⟩
  obtain ⟨a, ha⟩ := Option.isSome_iff_exists.1 hallowed.source
  have hnand : s'.nand = s.nand := hchecks.nand
  have hapart : ∀ b, Nand.fileInfo s.nand (buildFilename newPath) = some b →
      ¬ (a.isFile = b.isFile ∧ host (deletion b)) →
      ¬ RenameLosesTarget host s uid gid oldPath newPath := by
    intro b hb hnot hloses
    obtain ⟨a', b', ha', hb', hkind, hhost⟩ := hloses.deleted
    cases ha.symm.trans ha'
    cases hb.symm.trans hb'
    exact hnot ⟨hkind, hhost⟩
  dsimp only
  cases hb : Nand.fileInfo s.nand (buildFilename newPath) with
  | none =>
    rw [deleteTarget_of_none (hnand ▸ hb)]
    refine ⟨fun _ hloses => ?_, fun _ hfailed => renameOnHost_kept hchecks hfailed⟩
    obtain ⟨-, b, -, hb', -⟩ := hloses.deleted
    exact absurd (hb.symm.trans hb') nofun
  | some b =>
    rw [deleteTarget_eq (hnand ▸ ha) (hnand ▸ hb)]
    by_cases hkind : a.isFile = b.isFile
    case neg =>
      rw [if_neg hkind]
      exact ⟨fun _ => hapart b hb fun h => hkind h.1, fun _ _ => hchecks⟩
    case pos =>
      rw [if_pos hkind]
      cases hhost : host (deletion b) with
      | false =>
        refine ⟨fun _ => hapart b hb fun h => ?_, fun _ hfailed => renameOnHost_kept hchecks hfailed⟩
        exact absurd (hhost.symm.trans h.2) nofun
      | true =>
        have hlost := @rename_deleted host _ _ _ _ _ hallowed.valid.2 ha hb
        rw [if_pos rfl, hnand]
        dsimp only
        constructor
        · intro hkept hloses
          have hmoved := hlost.2 hloses.stuck
          rw [renameOnHost_failed hmoved] at hkept
          have hsame := (hkept nofun).nand
          have hgone : s.nand.node (resolve (buildFilename newPath)) = none := by
            rw [← hsame]
            exact (FileTree.node_removeAll ..).trans (if_pos List.prefix_rfl)
          exact absurd (hgone.symm.trans hb) nofun
        · intro hnot hfailed
          refine absurd ⟨hallowed, ⟨a, b, ha, hb, hkind, hhost⟩, hlost.1 ?_⟩ hnot
          cases hmoved : (Nand.rename host (buildFilename oldPath) (buildFilename newPath)
            (s.nand.removeAll (resolve (buildFilename newPath)))).1 with
          | false => rfl
          | true => exact absurd (renameOnHost_succeeded hmoved) hfailed

end HostFileSystem

open HostFileSystem

/-! ### Every request of a run -/

/-- What the request does is defined, and it changes nothing if it returns an error code. -/
def Request.KeepsOnFailure (r : Request) (host : Host) (s : HostFileSystem) : Prop :=
  r.dangles host s = false ∧
    ((r.perform host s).1 ≠ .success → Unchanged s (r.perform host s).2)

def Request.LosesTarget (r : Request) (host : Host) (s : HostFileSystem) : Prop :=
  match r with
  | rename uid gid oldPath newPath => RenameLosesTarget host s uid gid oldPath newPath
  | _ => False

theorem error_of_resultCode {α : Type} {x : Except ResultCode α} (h : resultCode x ≠ .success) :
    ∃ code, x = .error code := by
  cases x with
  | ok a => exact absurd rfl h
  | error code => exact ⟨code, rfl⟩

theorem keepsOnFailure_iff (r : Request) (host : Host) (s : HostFileSystem) :
    r.KeepsOnFailure host s ↔ r.dangles host s = false ∧ ¬ r.LosesTarget host s := by
  refine and_congr_right' ?_
  cases r with
  | rename uid gid oldPath newPath => exact rename_failed_iff host uid gid oldPath newPath s
  | createFile uid gid path attr modes =>
    exact iff_of_true createFileOrDirectory_failed id
  | createDirectory uid gid path attr modes =>
    exact iff_of_true createFileOrDirectory_failed id
  | delete uid gid path => exact iff_of_true delete_failed id
  | setMetadata callerUid path uid gid attr modes => exact iff_of_true setMetadata_failed id
  | openFile uid gid path mode =>
    refine iff_of_true (fun hfailed => ?_) id
    obtain ⟨code, hcode⟩ := error_of_resultCode hfailed
    have hsame : ((Request.openFile uid gid path mode).perform host s).2 = s := openFile_failed hcode
    rw [hsame]
    exact .refl s
  | seekFile fd offset mode =>
    refine iff_of_true (fun hfailed => ?_) id
    obtain ⟨code, hcode⟩ := error_of_resultCode hfailed
    have hsame : ((Request.seekFile fd offset mode).perform host s).2 = s := seekFile_failed hcode
    rw [hsame]
    exact .refl s
  | readDirectory uid gid path =>
    exact iff_of_true (fun _ => unchanged_readDirectory uid gid path s) id

/-- The requests of a run from any state that fail change nothing, just if none of them is a
    `Rename` that loses its target or whose pointer to the old parent dangles. -/
theorem failed_requests_keep (s : HostFileSystem) (calls : List (Host × Call)) :
    (∀ (n : Nat) (host : Host) (r : Request), calls[n]? = some (host, .request r) →
        r.KeepsOnFailure host (s.run (calls.take n))) ↔
      ∀ (n : Nat) (host : Host) (r : Request), calls[n]? = some (host, .request r) →
        r.dangles host (s.run (calls.take n)) = false ∧ ¬ r.LosesTarget host (s.run (calls.take n)) := by
  constructor
  · exact fun h n host r hr => (keepsOnFailure_iff r host _).1 (h n host r hr)
  · exact fun h n host r hr => (keepsOnFailure_iff r host _).2 (h n host r hr)

def formatted : HostFileSystem where
  nand := { entries := [([], .dir)], contents := [], nodup := by simp, closed := by simp }
  rootEntry := resetFst

/-- A directory with a file in it, renamed to itself on a host that refuses nothing. -/
def ontoItself : List (Host × Call) :=
  let modes : Modes := ⟨Mode.readWrite, Mode.readWrite, Mode.readWrite⟩
  [(fun _ => true, .request (.createDirectory 0 0 "/d".toList 0 modes)),
    (fun _ => true, .request (.createFile 0 0 "/d/f".toList 0 modes)),
    (fun _ => true, .request (.rename 0 0 "/d".toList "/d".toList))]

/-- The rename fails, and the directory is gone with the file. -/
theorem ontoItself_not_kept : ¬ ∀ (calls : List (Host × Call)) (n : Nat) (host : Host) (r : Request),
    calls[n]? = some (host, .request r) →
      r.KeepsOnFailure host (formatted.run (calls.take n)) := by
  intro h
  have hkept := h ontoItself 2 _ _ rfl
  have hfailed : ((Request.rename 0 0 "/d".toList "/d".toList).perform (fun _ => true)
      (formatted.run (ontoItself.take 2))).1 = .notFound := by decide +kernel
  have hsame := (hkept.2 (hfailed ▸ nofun)).nand
  have hbefore : (formatted.run (ontoItself.take 2)).nand.node ["d".toList, "f".toList] =
      some (.file 1) := by decide +kernel
  have hafter : ((Request.rename 0 0 "/d".toList "/d".toList).perform (fun _ => true)
      (formatted.run (ontoItself.take 2))).2.nand.node ["d".toList, "f".toList] = none := by
    decide +kernel
  rw [hsame, hbefore] at hafter
  cases hafter

end DolphinXR.IOS.FS
