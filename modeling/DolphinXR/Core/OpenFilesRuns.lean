import DolphinXR.Core.OpenFiles
import DolphinXR.Lib.Transition

/- Runs of the NAND file system with files open. Handles are found by the text of their path, and a
   directory is in use where its text is in front of theirs, so that a plain path, one without empty
   names, is in use if it leads to an open file or above one. `Rename` looks only at the path it
   moves: a run has to keep its new paths away from open files, and to open no file of the table's,
   and then every handle has the file open that its path leads to. -/
namespace DolphinXR.IOS.FS
open Common Lib

/-! ### Plain paths -/

structure Plain (path : Text) : Prop where
  valid : isValidNonRootPath path = true
  names : ∀ name ∈ components path, name ≠ []

instance (path : Text) : Decidable (Plain path) :=
  decidable_of_iff (isValidNonRootPath path = true ∧ ∀ name ∈ components path, name ≠ [])
    ⟨fun h => ⟨h.1, h.2⟩, fun h => ⟨h.valid, h.names⟩⟩

theorem join_append {as bs : List Text} (has : as ≠ []) (hbs : bs ≠ []) :
    join '/' (as ++ bs) = join '/' as ++ '/' :: join '/' bs := by
  fun_induction join '/' as with
  | case1 => exact absurd rfl has
  | case2 t =>
    obtain ⟨u, rest, rfl⟩ := List.exists_cons_of_ne_nil hbs
    rfl
  | case3 t u rest ih =>
    show t ++ '/' :: join '/' (u :: rest ++ bs) = _
    rw [ih (List.cons_ne_nil _ _), List.append_assoc, List.cons_append]

theorem join_splitString {t : Text} (h : t.getLast? ≠ some '/') :
    join '/' (splitString '/' t) = t := by
  induction t with
  | nil => rfl
  | cons c t ih =>
    rcases eq_or_ne t [] with rfl | ht
    · have hc : c ≠ '/' := fun hc => h (congrArg some hc)
      rw [splitString, if_neg hc]
      rfl
    · rw [List.getLast?_cons_of_ne_nil ht] at h
      obtain ⟨u, rest, hsplit⟩ := List.exists_cons_of_ne_nil (splitString_ne_nil ht)
      have hjoin := ih h
      rw [hsplit] at hjoin
      rw [splitString]
      split
      case isTrue hc => rw [hsplit, join, hjoin, hc]; rfl
      case isFalse hc =>
        rw [hsplit]
        dsimp only
        rw [← hjoin]
        cases rest with
        | nil => rfl
        | cons v rest => rfl

theorem eq_join_components {path : Text} (h : isValidNonRootPath path = true) :
    path = '/' :: join '/' (components path) := by
  obtain ⟨t, rfl, -, hlast⟩ := HostFileSystem.valid_cons h
  exact congrArg ('/' :: ·) (join_splitString hlast).symm

theorem Plain.place_eq {path : Text} (h : Plain path) :
    place path = (components path).map escapeFileName := by
  rw [place, HostFileSystem.resolve_buildFilename h.valid, hostNames]
  refine List.filter_eq_self.2 fun host hhost => ?_
  obtain ⟨name, hname, rfl⟩ := List.mem_map.1 hhost
  exact decide_eq_true (mt escapeFileName_eq_nil.1 (h.names name hname))

theorem Plain.components_prefix {path below : Text} (h : Plain path) (h' : Plain below)
    (hp : place path <+: place below) : components path <+: components below := by
  rw [h.place_eq, h'.place_eq] at hp
  exact (List.prefix_map_iff_of_injective
    (Function.LeftInverse.injective unescapeFileName_escapeFileName)).1 hp

theorem Plain.isPrefixOf {path below : Text} (h : Plain path) (h' : Plain below)
    (hp : place path <+: place below) : path.isPrefixOf below = true := by
  obtain ⟨r, hr⟩ := h.components_prefix h' hp
  rw [List.isPrefixOf_iff_prefix, eq_join_components h.valid, eq_join_components h'.valid, ← hr]
  rcases eq_or_ne r [] with rfl | hne
  · rw [List.append_nil]
  · obtain ⟨name, hname, -⟩ := HostFileSystem.getLast?_components h.valid
    have hcomponents : components path ≠ [] := fun hnil => by
      rw [hnil] at hname
      cases hname
    rw [join_append hcomponents hne, ← List.cons_append]
    exact List.prefix_append _ _

theorem Plain.eq_of_place {path other : Text} (h : Plain path) (h' : Plain other)
    (heq : place path = place other) : path = other := by
  rw [h.place_eq, h'.place_eq] at heq
  rw [eq_join_components h.valid, eq_join_components h'.valid,
    List.map_injective_iff.2 (Function.LeftInverse.injective unescapeFileName_escapeFileName) heq]

namespace HostFileSystem

/-! ### What is open -/

/-- The handles have plain paths, and the files open that these lead to. -/
structure Denoting (s : HostFileSystem) : Prop where
  valid : s.OpenFilesValid
  plain : ∀ handle, s.Opens handle → Plain handle.wiiPath

/-- `IsFileOpened` for a file and `IsDirectoryInUse` for anything else deny it. -/
def Unused (s : HostFileSystem) (path : Text) : Prop :=
  if Nand.isFile s.nand (buildFilename path) then s.isFileOpened path = false
  else s.isDirectoryInUse path = false

variable {s s' : HostFileSystem} {host : Host} {uid gid : Nat} {path : Text}

theorem isFileOpened_of_opens {handle : Handle} (h : s.Opens handle) :
    s.isFileOpened handle.wiiPath = true := by
  obtain ⟨i, hi⟩ := h
  refine List.any_eq_true.2 ⟨i, List.mem_finRange i, ?_⟩
  rw [hi, Option.any_some, beq_self_eq_true]

theorem isDirectoryInUse_of_opens {handle : Handle} (h : s.Opens handle)
    (hp : path.isPrefixOf handle.wiiPath = true) : s.isDirectoryInUse path = true := by
  obtain ⟨i, hi⟩ := h
  refine List.any_eq_true.2 ⟨i, List.mem_finRange i, ?_⟩
  rw [hi, Option.any_some, hp]

theorem Denoting.not_below (hs : s.Denoting) (hpath : Plain path) (hunused : s.Unused path)
    {handle : Handle} (hopen : s.Opens handle) : ¬ place path <+: place handle.wiiPath := by
  intro hp
  unfold Unused at hunused
  split at hunused
  case isTrue hfile =>
    obtain ⟨a, hnode, ha⟩ := (Option.any_eq_true _ _).1 hfile
    cases a with
    | dir => cases ha
    | file inode =>
      obtain ⟨r, hr⟩ := hp
      have hcurrent := (hs.valid.current handle hopen).file
      rw [← hr] at hcurrent
      have hnil : r = [] := by
        by_contra hne
        cases hcurrent.symm.trans (FileTree.node_below_file hnode hne)
      rw [hnil, List.append_nil] at hr
      obtain rfl := hpath.eq_of_place (hs.plain handle hopen) hr
      exact absurd (hunused.symm.trans (isFileOpened_of_opens hopen)) Bool.false_ne_true
  case isFalse =>
    have hprefix := hpath.isPrefixOf (hs.plain handle hopen) hp
    exact absurd (hunused.symm.trans (isDirectoryInUse_of_opens hopen hprefix)) Bool.false_ne_true

theorem Denoting.keep {G : List Text → Prop} (hs : s.Denoting) (hkeeps : KeepsFiles G s s')
    (hgone : ∀ handle, s.Opens handle → ¬ G (place handle.wiiPath)) : s'.Denoting := by
  refine ⟨hs.valid.keep hkeeps hgone, fun handle hopen => hs.plain handle ?_⟩
  unfold Opens at hopen ⊢
  rwa [hkeeps.handles] at hopen

theorem Denoting.keepAll (hs : s.Denoting) (hkeeps : KeepsFiles (fun _ => False) s s') :
    s'.Denoting := hs.keep hkeeps fun _ _ => id

theorem Denoting.unchanged (hs : s.Denoting) (h : Unchanged s s') : s'.Denoting :=
  hs.keepAll h.keepsFiles

theorem Denoting.of_none (h : ∀ i, s.handles i = none) : s.Denoting := by
  refine ⟨.of_none h, fun handle hopen => ?_⟩
  obtain ⟨i, hi⟩ := hopen
  rw [h i] at hi
  cases hi

theorem Denoting.of_handles (hs : s.Denoting) (hnode : ∀ k, s'.nand.node k = s.nand.node k)
    (h : ∀ handle', s'.Opens handle' → ∃ handle, s.Opens handle ∧
      handle'.wiiPath = handle.wiiPath ∧ handle'.hostFile = handle.hostFile) : s'.Denoting := by
  refine ⟨⟨fun handle' hopen' => ?_, fun handle₁ handle₂ h₁ h₂ heq => ?_⟩,
    fun handle' hopen' => ?_⟩
  · obtain ⟨handle, hopen, hpath, hfile⟩ := h handle' hopen'
    obtain ⟨hnode', hname, hapart⟩ := hs.valid.current handle hopen
    refine ⟨?_, ?_, hpath ▸ hapart⟩
    · rw [hpath, hfile, hnode, hnode']
    · rw [hpath, hfile, hname]
  · obtain ⟨handle, hopen, hpath, -⟩ := h handle₁ h₁
    obtain ⟨handle', hopen', hpath', -⟩ := h handle₂ h₂
    rw [hpath, hpath'] at heq ⊢
    exact hs.valid.names handle handle' hopen hopen' heq
  · obtain ⟨handle, hopen, hpath, -⟩ := h handle' hopen'
    exact hpath ▸ hs.plain handle hopen

theorem Denoting.setHandle {i : Fin 16} {next : Option Handle} (hs : s.Denoting)
    (h : ∀ handle' ∈ next, ∃ handle, s.handles i = some handle ∧
      handle'.wiiPath = handle.wiiPath ∧ handle'.hostFile = handle.hostFile) :
    (s.setHandle i next).Denoting := by
  refine hs.of_handles (fun _ => rfl) fun handle' hopen' => ?_
  obtain ⟨j, hj⟩ := hopen'
  change Function.update s.handles i next j = some handle' at hj
  rcases eq_or_ne j i with rfl | hne
  · rw [Function.update_self] at hj
    obtain ⟨handle, hhandle, hsame⟩ := h handle' hj
    exact ⟨handle, ⟨j, hhandle⟩, hsame⟩
  · rw [Function.update_of_ne hne] at hj
    exact ⟨handle', ⟨j, hj⟩, rfl, rfl⟩

theorem getHandleFromFd_eq_some {fd : Nat} {i : Fin 16} {handle : Handle}
    (h : s.getHandleFromFd fd = some (i, handle)) : s.handles i = some handle := by
  unfold getHandleFromFd at h
  split at h
  case isTrue hlt =>
    obtain ⟨handle', hhandle, heq⟩ := Option.map_eq_some_iff.1 h
    obtain ⟨rfl, rfl⟩ := Prod.mk.inj heq
    exact hhandle
  case isFalse => cases h

/-! ### Calls -/

theorem Denoting.close (hs : s.Denoting) (fd : Nat) : (s.close fd).2.Denoting := by
  unfold HostFileSystem.close
  split
  · exact hs
  · exact hs.setHandle (by rintro _ ⟨⟩)

theorem Denoting.seekFile (hs : s.Denoting) (fd offset mode : Nat) :
    (s.seekFile fd offset mode).2.Denoting := by
  unfold HostFileSystem.seekFile
  split
  · exact hs
  · next i handle hget =>
    dsimp only
    split
    · exact hs
    · split
      · exact hs
      · refine hs.setHandle fun handle' hhandle' => ?_
        obtain rfl := Option.some.inj hhandle'
        exact ⟨handle, getHandleFromFd_eq_some hget, rfl, rfl⟩

theorem Denoting.readBytesFromFile (hs : s.Denoting) (host : Host) (fd count : Nat) :
    (s.readBytesFromFile host fd count).2.Denoting := by
  unfold HostFileSystem.readBytesFromFile
  split
  · exact hs
  · next i handle hget =>
    dsimp only
    split_ifs
    all_goals try exact hs
    all_goals
      refine hs.setHandle fun handle' hhandle' => ?_
      obtain rfl := Option.some.inj hhandle'
      exact ⟨handle, getHandleFromFd_eq_some hget, rfl, rfl⟩

theorem Denoting.writeBytesToFile (hs : s.Denoting) (host : Host) (fd : Nat) (bytes : Bytes) :
    (s.writeBytesToFile host fd bytes).2.Denoting := by
  unfold HostFileSystem.writeBytesToFile
  split
  · exact hs
  · next i handle hget =>
    dsimp only
    split_ifs
    · exact hs
    · exact hs
    · refine Denoting.setHandle (hs.of_handles (fun _ => rfl) fun handle' hopen' => ?_)
        fun handle' hhandle' => ?_
      · exact ⟨handle', hopen', rfl, rfl⟩
      · obtain rfl := Option.some.inj hhandle'
        exact ⟨handle, getHandleFromFd_eq_some hget, rfl, rfl⟩

theorem unchanged_getMetadata (uid gid : Nat) (path : Text) (s : HostFileSystem) :
    Unchanged s (getMetadata uid gid path s).2 := by
  have hparent := unchanged_getFstEntryForPath (splitPathAndBasename path).1 s
  unfold getMetadata
  dsimp only
  generalize getFstEntryForPath (splitPathAndBasename path).1 s = found at hparent ⊢
  obtain ⟨parent, s₁⟩ := found
  split_ifs
  · exact .refl s
  · exact .refl s
  · cases parent with
    | none => exact hparent
    | some parent =>
      dsimp only at hparent ⊢
      have hentry := hparent.trans (unchanged_getFstEntryForPath path s₁)
      split_ifs
      · exact hparent
      · generalize getFstEntryForPath path s₁ = looked at hentry ⊢
        obtain ⟨entry, s₂⟩ := looked
        cases entry with
        | none => exact hentry
        | some entry => exact hentry

theorem unused_of_delete (h : (delete host uid gid path s).1 = .success) : s.Unused path := by
  have hparent := unchanged_getFstEntryForPath (splitPathAndBasename path).1 s
  unfold delete at h
  dsimp only at h
  generalize getFstEntryForPath (splitPathAndBasename path).1 s = found at hparent h
  obtain ⟨parent, s₁⟩ := found
  split_ifs at h
  cases parent with
  | none => cases h
  | some parent =>
    dsimp only at h hparent
    rw [hparent.isFileOpened, hparent.isDirectoryInUse, hparent.nand] at h
    unfold Unused
    split_ifs at h with _ _ hfile hdir
    · obtain ⟨hisFile, hnot⟩ := Bool.and_eq_true_iff.1 hfile
      rw [if_pos hisFile]
      exact by simpa using hnot
    · obtain ⟨hisDir, hnot⟩ := Bool.and_eq_true_iff.1 hdir
      have hisFile : Nand.isFile s.nand (buildFilename path) = false := by
        rw [Nand.isFile, beq_iff_eq.1 hisDir]
        rfl
      rw [if_neg (Bool.eq_false_iff.1 hisFile)]
      exact by simpa using hnot

theorem valid_of_delete (h : (delete host uid gid path s).1 = .success) :
    isValidNonRootPath path = true := by
  unfold delete at h
  split at h
  case isTrue => cases h
  case isFalse hvalid => simpa using hvalid

theorem Denoting.delete (hs : s.Denoting) (host : Host) (uid gid : Nat)
    (hpath : isValidNonRootPath path = true → Plain path) :
    (s.delete host uid gid path).2.Denoting := by
  by_cases h : (s.delete host uid gid path).1 = .success
  · exact hs.keep (keepsFiles_delete host uid gid path s) fun handle hopen =>
      hs.not_below (hpath (valid_of_delete h)) (unused_of_delete h) hopen
  · exact hs.unchanged (delete_failed h)

theorem Denoting.rename (hs : s.Denoting) (host : Host) (uid gid : Nat) {oldPath newPath : Text}
    (hold : isValidNonRootPath oldPath = true → Plain oldPath)
    (hnew : ∀ handle, s.Opens handle → ¬ place newPath <+: place handle.wiiPath) :
    (s.rename host uid gid oldPath newPath).2.Denoting := by
  rcases keepsFiles_rename host uid gid oldPath newPath s with hsame | ⟨hallowed, hkeeps⟩
  · exact hs.unchanged hsame
  · refine hs.keep hkeeps fun handle hopen => not_or.2 ⟨?_, hnew handle hopen⟩
    exact hs.not_below (hold hallowed.valid.1) hallowed.unused hopen

theorem openFiles_eq {hostFile : HostFile} (h : hostFile ∈ s.openFiles) :
    ∃ handle, s.Opens handle ∧ handle.hostFile = hostFile := by
  obtain ⟨i, -, hi⟩ := List.mem_filterMap.1 h
  obtain ⟨handle, hhandle, hfile⟩ := Option.map_eq_some_iff.1 hi
  exact ⟨handle, ⟨i, hhandle⟩, hfile⟩

theorem Denoting.openHostFile (hs : s.Denoting) {hostFile : HostFile}
    (h : openHostFile host (buildFilename path) s = some hostFile) :
    s.nand.node (place path) = some (.file hostFile.inode) ∧
      hostFile.path = buildFilename path := by
  unfold HostFileSystem.openHostFile at h
  split at h
  case h_1 shared hfind =>
    obtain rfl := Option.some.inj h
    have hname : shared.path = buildFilename path := by simpa using List.find?_some hfind
    obtain ⟨handle, hopen, rfl⟩ := openFiles_eq (List.mem_of_find?_eq_some hfind)
    obtain ⟨hnode, hhost, -⟩ := hs.valid.current handle hopen
    have hplace : place path = place handle.wiiPath :=
      congrArg resolve (hname.symm.trans hhost)
    exact ⟨hplace ▸ hnode, hname⟩
  case h_2 =>
    split at h
    · next inode hnode =>
      split at h
      · obtain rfl := Option.some.inj h
        exact ⟨hnode, rfl⟩
      · cases h
    · cases h

theorem Denoting.openFile (hs : s.Denoting) (host : Host) (hpath : Plain path)
    (hapart : ¬ IsFstPlace (place path)) (mode : Nat) : (s.openFile host path mode).2.Denoting := by
  cases hresult : (s.openFile host path mode).1 with
  | error code => rw [openFile_failed hresult]; exact hs
  | ok i =>
    unfold HostFileSystem.openFile at hresult ⊢
    split
    case h_1 hfree => exact hs
    case h_2 j hfree =>
      rw [hfree] at hresult
      dsimp only at hresult ⊢
      split_ifs at hresult ⊢
      split
      case h_1 hnone => rw [hnone] at hresult; cases hresult
      case h_2 hostFile hopened =>
        obtain ⟨hnode, hname⟩ := hs.openHostFile hopened
        let new : Handle := { mode, wiiPath := path, hostFile }
        have hopens : ∀ handle, (s.setHandle j (some new)).Opens handle →
            handle = new ∨ s.Opens handle := by
          rintro handle ⟨k, hk⟩
          change Function.update s.handles j (some new) k = some handle at hk
          rcases eq_or_ne k j with rfl | hne
          · rw [Function.update_self] at hk
            exact .inl (Option.some.inj hk).symm
          · rw [Function.update_of_ne hne] at hk
            exact .inr ⟨k, hk⟩
        have hplain : ∀ handle, (s.setHandle j (some new)).Opens handle → Plain handle.wiiPath := by
          intro handle hopen
          rcases hopens handle hopen with rfl | hold
          · exact hpath
          · exact hs.plain handle hold
        refine ⟨⟨fun handle hopen => ?_, fun handle handle' hopen hopen' heq => ?_⟩, hplain⟩
        · rcases hopens handle hopen with rfl | hold
          · exact ⟨hnode, hname, hapart⟩
          · exact hs.valid.current handle hold
        · exact (hplain handle hopen).eq_of_place (hplain handle' hopen') heq

theorem Denoting.format (hs : s.Denoting) (uid : Nat) (hmade : host .createDir = true) :
    (s.format host uid).2.Denoting := by
  unfold HostFileSystem.format
  dsimp only
  split
  · exact hs
  · split
    case isTrue hrefused =>
      rw [Nand.deleteDirRecursively] at hrefused ⊢
      rw [attempt_failed (by simpa using hrefused)]
      exact hs
    case isFalse hdeleted =>
      have hgone : (Nand.deleteDirRecursively host (buildFilename ['/']) s.nand).2 =
          s.nand.removeAll [] := by
        rw [Bool.not_eq_true', Bool.not_eq_false] at hdeleted
        exact (Option.some.inj (attempt_succeeded hdeleted)).symm
      split
      case isTrue hrefused =>
        have hplaces : (s.nand.removeAll []).Places [] :=
          ⟨by rw [FileTree.node_removeAll, if_pos List.prefix_rfl], .inl rfl⟩
        have hroot : resolve (buildFilename ['/']) = [] := by decide
        have hnotDir : Nand.isDirectory (s.nand.removeAll []) (buildFilename ['/']) = false := by
          rw [Nand.isDirectory, Nand.fileInfo, hroot, hplaces.1]
          rfl
        rw [hgone, Nand.createDir, hnotDir, if_neg Bool.false_ne_true, Nand.attempt, hroot, hmade,
          if_pos rfl, FileTree.mkdir, dif_pos hplaces] at hrefused
        exact absurd hrefused Bool.false_ne_true
      case isFalse => exact .of_none fun _ => rfl

end HostFileSystem

open HostFileSystem

/-- The calls, each with what the host lets succeed during it, from a state without handles where no
    two files share their contents. -/
def callSystem : System HostFileSystem (Host × Call) where
  init s := (∀ i, s.handles i = none) ∧ s.nand.Owned
  step := HostFileSystem.step

/-- What is opened has a plain path, and so has what is deleted or moved if its path is valid; no
    file of the table's is opened, nothing is moved onto an open file or above one, and a directory
    that `Format` deletes can be made again. -/
def CallOk (s : HostFileSystem) : Host × Call → Prop
  | (_, .request (.delete _ _ path)) => isValidNonRootPath path = true → Plain path
  | (_, .request (.rename _ _ oldPath newPath)) =>
    (isValidNonRootPath oldPath = true → Plain oldPath) ∧
      ∀ handle, s.Opens handle → ¬ place newPath <+: place handle.wiiPath
  | (_, .request (.openFile _ _ path _)) => Plain path ∧ ¬ IsFstPlace (place path)
  | (host, .format _) => host .createDir = true
  | _ => True

theorem HostFileSystem.Denoting.perform {s : HostFileSystem} (hs : s.Denoting) (host : Host)
    (call : Call) (hok : CallOk s (host, call)) : (call.perform host s).Denoting := by
  cases call with
  | request r =>
    cases r with
    | createFile uid gid path attr modes =>
      exact hs.keepAll (keepsFiles_createFileOrDirectory host uid gid path attr modes true s)
    | createDirectory uid gid path attr modes =>
      exact hs.keepAll (keepsFiles_createFileOrDirectory host uid gid path attr modes false s)
    | delete uid gid path => exact hs.delete host uid gid hok
    | rename uid gid oldPath newPath => exact hs.rename host uid gid hok.1 hok.2
    | setMetadata callerUid path uid gid attr modes =>
      exact hs.keepAll (keepsFiles_setMetadata host callerUid path uid gid attr modes s)
    | openFile uid gid path mode => exact hs.openFile host hok.1 hok.2 mode
    | seekFile fd offset mode => exact hs.seekFile fd offset mode
    | readDirectory uid gid path => exact hs.unchanged (unchanged_readDirectory uid gid path s)
  | format uid => exact hs.format uid hok
  | close fd => exact hs.close fd
  | readBytesFromFile fd count => exact hs.readBytesFromFile host fd count
  | writeBytesToFile fd bytes => exact hs.writeBytesToFile host fd bytes
  | getMetadata uid gid path => exact hs.unchanged (unchanged_getMetadata uid gid path s)

/-! ### What is in the files -/

namespace HostFileSystem
variable {s s' : HostFileSystem} {host : Host} {nand : Nand} {hostPath : Text}

theorem evolves_make (h : nand.Evolves s.nand) (isFile : Bool) :
    nand.Evolves (Nand.make host isFile hostPath s.nand).2 := by
  unfold Nand.make Nand.createDir
  split
  · exact attempt_keeps h fun nand' hmade => h.create hmade
  · split
    · exact h
    · exact attempt_keeps h fun nand' hmade => h.mkdir hmade

theorem evolves_delete {tree : Nand} (h : nand.Evolves tree) :
    nand.Evolves (Nand.delete host hostPath tree).2 := by
  unfold Nand.delete
  split
  · exact h
  · refine attempt_keeps h fun nand' hgone => ?_
    unfold FileTree.unlink at hgone
    split at hgone
    · rw [← Option.some.inj hgone]
      exact h.removeAll
    · cases hgone

theorem evolves_deleteDirRecursively {tree : Nand} (h : nand.Evolves tree) :
    nand.Evolves (Nand.deleteDirRecursively host hostPath tree).2 := by
  refine attempt_keeps h fun nand' hgone => ?_
  rw [← Option.some.inj hgone]
  exact h.removeAll

theorem evolves_saveFst (h : nand.Evolves s.nand) : nand.Evolves (saveFst host s).nand := by
  unfold saveFst
  dsimp only
  split
  case isFalse => exact h
  case isTrue hwritten =>
    have hmade := h.create (attempt_succeeded hwritten)
    exact attempt_keeps hmade fun nand' hmoved => hmade.rename hmoved

theorem evolves_getFstEntryForPath (h : nand.Evolves s.nand) (path : Text) :
    nand.Evolves (getFstEntryForPath path s).2.nand := by
  rw [(unchanged_getFstEntryForPath path s).nand]
  exact h

theorem evolves_createFileOrDirectory (uid gid : Nat) (path : Text) (attr : Nat) (modes : Modes)
    (isFile : Bool) :
    s.nand.Evolves (createFileOrDirectory host uid gid path attr modes isFile s).2.nand := by
  have hparent := evolves_getFstEntryForPath (.refl : s.nand.Evolves s.nand)
    (splitPathAndBasename path).1
  unfold createFileOrDirectory
  dsimp only
  generalize getFstEntryForPath (splitPathAndBasename path).1 s = found at hparent ⊢
  obtain ⟨parent, s₁⟩ := found
  split_ifs
  · exact .refl
  · exact .refl
  · cases parent with
    | none => exact hparent
    | some parent =>
      dsimp only at hparent ⊢
      have hmade : s.nand.Evolves (Nand.make host isFile (buildFilename path) s₁.nand).2 :=
        evolves_make hparent isFile
      have hchild := evolves_getFstEntryForPath
        (s := { s₁ with nand := (Nand.make host isFile (buildFilename path) s₁.nand).2 }) hmade path
      split_ifs
      · exact hparent
      · exact hparent
      · exact hmade
      · split
        · next heq =>
          rw [heq] at hchild
          exact hchild
        · next heq =>
          rw [heq] at hchild
          exact evolves_saveFst hchild

theorem evolves_setMetadata (callerUid : Nat) (path : Text) (uid gid attr : Nat) (modes : Modes) :
    s.nand.Evolves (setMetadata host callerUid path uid gid attr modes s).2.nand := by
  have hentry := evolves_getFstEntryForPath (.refl : s.nand.Evolves s.nand) path
  unfold setMetadata
  dsimp only
  generalize getFstEntryForPath path s = found at hentry ⊢
  obtain ⟨entry, s₁⟩ := found
  split_ifs
  · exact .refl
  · cases entry with
    | none => exact hentry
    | some entry =>
      dsimp only at hentry ⊢
      split_ifs
      · exact hentry
      · exact hentry
      · exact hentry
      · exact evolves_saveFst hentry
      · exact hentry

theorem evolves_deleteRequest (uid gid : Nat) (path : Text) :
    s.nand.Evolves (s.delete host uid gid path).2.nand := by
  have hparent := evolves_getFstEntryForPath (.refl : s.nand.Evolves s.nand)
    (splitPathAndBasename path).1
  unfold delete
  dsimp only
  generalize getFstEntryForPath (splitPathAndBasename path).1 s = found at hparent ⊢
  obtain ⟨parent, s₁⟩ := found
  split_ifs
  · exact .refl
  · cases parent with
    | none => exact hparent
    | some parent =>
      dsimp only at hparent ⊢
      split_ifs
      · exact hparent
      · exact hparent
      · exact evolves_saveFst (evolves_delete hparent)
      · exact evolves_saveFst (evolves_deleteDirRecursively hparent)
      · exact hparent

theorem evolves_rename (uid gid : Nat) (oldPath newPath : Text) :
    s.nand.Evolves (s.rename host uid gid oldPath newPath).2.nand := by
  have hchecks := (renameChecks_spec uid gid oldPath newPath s).1
  unfold rename
  generalize renameChecks uid gid oldPath newPath s = checked at hchecks ⊢
  obtain ⟨result, s₁⟩ := checked
  dsimp only at hchecks
  have hrefl : s.nand.Evolves s₁.nand := hchecks.nand ▸ .refl
  cases result with
  | error code => exact hrefl
  | ok oldParent =>
    dsimp only
    cases htarget : deleteTarget host oldPath newPath s₁.nand with
    | none => exact hrefl
    | some tree =>
      have htree : s.nand.Evolves tree := by
        unfold deleteTarget at htarget
        dsimp only at htarget
        split at htarget
        · split at htarget
          · obtain rfl := Option.some.inj htarget
            exact evolves_delete hrefl
          · obtain rfl := Option.some.inj htarget
            exact evolves_deleteDirRecursively hrefl
          · cases htarget
        · obtain rfl := Option.some.inj htarget
          exact hrefl
      have hmoved : s.nand.Evolves
          (Nand.rename host (buildFilename oldPath) (buildFilename newPath) tree).2 :=
        attempt_keeps htree fun nand' h => htree.rename h
      have hentry := evolves_getFstEntryForPath (s := { s₁ with
        nand := (Nand.rename host (buildFilename oldPath) (buildFilename newPath) tree).2 })
        hmoved newPath
      dsimp only
      unfold renameOnHost
      dsimp only
      split_ifs
      · exact hmoved
      · split
        · next heq =>
          rw [heq] at hentry
          exact hentry
        · next heq =>
          rw [heq] at hentry
          exact evolves_saveFst hentry

theorem evolves_format (uid : Nat) : s.nand.Evolves (s.format host uid).2.nand := by
  have hdeleted : s.nand.Evolves
      (Nand.deleteDirRecursively host (buildFilename ['/']) s.nand).2 :=
    evolves_deleteDirRecursively .refl
  have hmade : s.nand.Evolves (Nand.createDir host (buildFilename ['/'])
      (Nand.deleteDirRecursively host (buildFilename ['/']) s.nand).2).2 :=
    evolves_make (s := { s with
      nand := (Nand.deleteDirRecursively host (buildFilename ['/']) s.nand).2 }) hdeleted false
  unfold HostFileSystem.format
  dsimp only
  split_ifs
  · exact .refl
  · exact hdeleted
  · exact hmade
  · exact evolves_saveFst (s := { s with nand := _, rootEntry := resetFst }) hmade

theorem evolves_openFile (path : Text) (mode : Nat) :
    (s.openFile host path mode).2.nand = s.nand := by
  unfold openFile
  split
  · rfl
  · dsimp only
    split_ifs
    · rfl
    · rfl
    · split
      · rfl
      · rfl

theorem nand_seekFile (fd offset mode : Nat) : (s.seekFile fd offset mode).2.nand = s.nand := by
  unfold seekFile
  split
  · rfl
  · dsimp only
    split
    · rfl
    · split
      · rfl
      · rfl

theorem nand_readBytesFromFile (fd count : Nat) :
    (s.readBytesFromFile host fd count).2.nand = s.nand := by
  unfold readBytesFromFile
  split
  · rfl
  · dsimp only
    split_ifs
    all_goals rfl

theorem nand_close (fd : Nat) : (s.close fd).2.nand = s.nand := by
  unfold close
  split
  · rfl
  · rfl

theorem evolves_writeBytesToFile (fd : Nat) (bytes : Bytes) :
    s.nand.Evolves (s.writeBytesToFile host fd bytes).2.nand := by
  unfold writeBytesToFile
  split
  · exact .refl
  · dsimp only
    split_ifs
    · exact .refl
    · exact .refl
    · exact .write .refl

def written (old : Bytes) (position : Nat) (bytes : Bytes) : Bytes :=
  old.take position ++ List.replicate (position - old.length) 0 ++ bytes ++
    old.drop (position + bytes.length)

theorem nand_writeBytesToFile {fd n : Nat} {i : Fin 16} {handle : Handle} {bytes : Bytes}
    (hget : s.getHandleFromFd fd = some (i, handle))
    (hwrite : (s.writeBytesToFile host fd bytes).1 = .ok n) :
    (s.writeBytesToFile host fd bytes).2.nand =
      s.nand.write handle.hostFile.inode (written (s.content handle) handle.fileOffset bytes) := by
  unfold writeBytesToFile at hwrite ⊢
  rw [hget] at hwrite ⊢
  dsimp only at hwrite ⊢
  split_ifs at hwrite ⊢
  rfl

theorem readBytesFromFile_written {fd : Nat} {i : Fin 16} {handle : Handle} {old bytes : Bytes}
    (hget : s.getHandleFromFd fd = some (i, handle)) (hmode : handle.mode &&& Mode.read ≠ 0)
    (hwritten : s.content handle = written old handle.fileOffset bytes)
    (hsize : (s.content handle).length < 2 ^ 32) :
    (s.readBytesFromFile host fd bytes.length).1 = .ok bytes := by
  have hfront : (old.take handle.fileOffset ++
      List.replicate (handle.fileOffset - old.length) 0).length = handle.fileOffset := by
    rw [List.length_append, List.length_take, List.length_replicate]
    omega
  have hslice : slice (s.content handle) handle.fileOffset bytes.length = bytes := by
    rw [hwritten, written, slice, List.append_assoc, List.drop_left' hfront, List.take_left' rfl]
  have hlength : handle.fileOffset + bytes.length ≤ (s.content handle).length := by
    rw [hwritten, written, List.length_append, List.length_append, hfront]
    omega
  have hcut : ¬ (s.content handle).length % 2 ^ 32 <
      (bytes.length + handle.fileOffset) % 2 ^ 32 := by
    rw [Nat.mod_eq_of_lt hsize, Nat.mod_eq_of_lt (by omega)]
    omega
  unfold readBytesFromFile
  rw [hget]
  dsimp only
  rw [if_neg hmode, if_neg hcut, hslice]
  simp

/-- What the handles of a later state see of the bytes that were written through one: the files of
    its path have them, and they are read at their place. -/
structure SeesWrite (s t : HostFileSystem) (handle : Handle) (bytes : Bytes) : Prop where
  content : ∀ handle', t.Opens handle' → t.content handle' =
    if handle'.wiiPath = handle.wiiPath then written (s.content handle) handle.fileOffset bytes
    else s.content handle'
  read : ∀ host fd i handle', t.getHandleFromFd fd = some (i, handle') →
    handle'.wiiPath = handle.wiiPath → handle'.mode &&& Mode.read ≠ 0 →
      handle'.fileOffset = handle.fileOffset → (t.content handle').length < 2 ^ 32 →
        (t.readBytesFromFile host fd bytes.length).1 = .ok bytes

theorem Denoting.seesWrite {t : HostFileSystem} {handle : Handle} {bytes : Bytes}
    (hs : s.Denoting) (howned : s.nand.Owned) (hopen : s.Opens handle) (ht : t.Denoting)
    (hnand : t.nand = s.nand.write handle.hostFile.inode
      (written (s.content handle) handle.fileOffset bytes)) : s.SeesWrite t handle bytes := by
  have hcurrent := (hs.valid.current handle hopen).file
  have hbound := howned.bound _ _ hcurrent
  have hcontent : ∀ handle', t.Opens handle' → t.content handle' =
      if handle'.wiiPath = handle.wiiPath then
        written (s.content handle) handle.fileOffset bytes
      else s.content handle' := by
    intro handle' hopen'
    have hcurrent' := (ht.valid.current handle' hopen').file
    rw [hnand] at hcurrent'
    change s.nand.node (place handle'.wiiPath) = _ at hcurrent'
    rw [HostFileSystem.content, hnand]
    change (s.nand.contents.set _ _).getD _ _ = _
    split
    case isTrue heq =>
      rw [heq, hcurrent] at hcurrent'
      have hinode := Node.file.inj (Option.some.inj hcurrent')
      rw [← hinode, List.getD_eq_getElem?_getD, List.getElem?_set_self hbound, Option.getD_some]
    case isFalse hne =>
      have hinode : handle.hostFile.inode ≠ handle'.hostFile.inode := by
        intro heq
        rw [← heq] at hcurrent'
        have hplace := howned.own _ _ _ hcurrent' hcurrent
        exact hne ((ht.plain handle' hopen').eq_of_place (hs.plain handle hopen) hplace)
      rw [List.getD_eq_getElem?_getD, List.getElem?_set_ne hinode, HostFileSystem.content,
        List.getD_eq_getElem?_getD]
  refine ⟨hcontent, fun host fd i handle' hget hpath hmode hoffset hsize => ?_⟩
  have hwritten := hcontent handle' ⟨i, getHandleFromFd_eq_some hget⟩
  rw [if_pos hpath, ← hoffset] at hwritten
  exact readBytesFromFile_written hget hmode hwritten hsize

theorem evolves_perform (call : Call) (host : Host) (s : HostFileSystem) :
    s.nand.Evolves (call.perform host s).nand := by
  have hsame : ∀ t : Nand, t = s.nand → s.nand.Evolves t := fun t h => h ▸ .refl
  cases call with
  | request r =>
    cases r with
    | createFile uid gid path attr modes =>
      exact evolves_createFileOrDirectory uid gid path attr modes true
    | createDirectory uid gid path attr modes =>
      exact evolves_createFileOrDirectory uid gid path attr modes false
    | delete uid gid path => exact evolves_deleteRequest uid gid path
    | rename uid gid oldPath newPath => exact evolves_rename uid gid oldPath newPath
    | setMetadata callerUid path uid gid attr modes =>
      exact evolves_setMetadata callerUid path uid gid attr modes
    | openFile uid gid path mode => exact hsame _ (evolves_openFile path mode)
    | seekFile fd offset mode => exact hsame _ (nand_seekFile fd offset mode)
    | readDirectory uid gid path => exact hsame _ (unchanged_readDirectory uid gid path s).nand
  | format uid => exact evolves_format uid
  | close fd => exact hsame _ (nand_close fd)
  | readBytesFromFile fd count => exact hsame _ (nand_readBytesFromFile fd count)
  | writeBytesToFile fd bytes => exact evolves_writeBytesToFile fd bytes
  | getMetadata uid gid path => exact hsame _ (unchanged_getMetadata uid gid path s).nand

/-! ### What is in use -/

theorem nand_nothingOpen (s : HostFileSystem) : s.nothingOpen.nand = s.nand := rfl

theorem getFstEntryForPath_nothingOpen (path : Text) (s : HostFileSystem) :
    getFstEntryForPath path s.nothingOpen =
      ((getFstEntryForPath path s).1, (getFstEntryForPath path s).2.nothingOpen) := by
  unfold getFstEntryForPath
  split_ifs
  · rfl
  · rfl
  · rw [nand_nothingOpen]
    cases Nand.fileInfo s.nand (buildFilename path) with
    | none => rfl
    | some found => rfl

theorem delete_inUse_iff (host : Host) (uid gid : Nat) (path : Text) (s : HostFileSystem) :
    (s.delete host uid gid path).1 = .inUse ↔
      (s.nothingOpen.delete host uid gid path).1 = .success ∧ ¬ s.Unused path := by
  have hparent := unchanged_getFstEntryForPath (splitPathAndBasename path).1 s
  unfold delete
  dsimp only
  rw [getFstEntryForPath_nothingOpen]
  generalize getFstEntryForPath (splitPathAndBasename path).1 s = found at hparent ⊢
  obtain ⟨parent, s₁⟩ := found
  dsimp only at hparent ⊢
  have hunused : s₁.Unused path ↔ s.Unused path := by
    unfold Unused
    rw [hparent.isFileOpened, hparent.isDirectoryInUse, hparent.nand]
  rw [← hunused]
  by_cases hvalid : (!isValidNonRootPath path) = true
  · rw [if_pos hvalid, if_pos hvalid]
    exact iff_of_false (by rintro ⟨⟩) (by rintro ⟨⟨⟩, -⟩)
  rw [if_neg hvalid, if_neg hvalid]
  cases parent with
  | none => exact iff_of_false (by rintro ⟨⟩) (by rintro ⟨⟨⟩, -⟩)
  | some parent =>
    dsimp only
    rw [isFileOpened_nothingOpen, isDirectoryInUse_nothingOpen, data_nothingOpen, nand_nothingOpen]
    unfold Unused Nand.present Nand.isFile Nand.isDirectory
    cases Nand.fileInfo s₁.nand (buildFilename path) with
    | none => split_ifs <;> simp_all
    | some a =>
      cases a with
      | dir => split_ifs <;> simp_all [Node.isFile]
      | file inode => split_ifs <;> simp_all [Node.isFile]

theorem rename_inUse_iff (host : Host) (uid gid : Nat) (oldPath newPath : Text)
    (s : HostFileSystem) : (s.rename host uid gid oldPath newPath).1 = .inUse ↔
      RenameAllowed s.nothingOpen uid gid oldPath newPath ∧ ¬ s.Unused oldPath := by
  have hresult := (renameChecks_spec uid gid oldPath newPath s).2
  unfold HostFileSystem.rename
  generalize renameChecks uid gid oldPath newPath s = checked at hresult ⊢
  obtain ⟨result, s₁⟩ := checked
  rcases hresult with ⟨⟨oldParent, rfl⟩, hallowed⟩ | ⟨⟨code, rfl, -, hcode⟩, hnot⟩
  · refine iff_of_false ?_ fun h => h.2 hallowed.unused
    dsimp only
    cases deleteTarget host oldPath newPath s₁.nand with
    | none => rintro ⟨⟩
    | some nand =>
      dsimp only [renameOnHost]
      split_ifs
      · rintro ⟨⟩
      · generalize getFstEntryForPath newPath _ = found
        obtain ⟨entry, s₂⟩ := found
        cases entry with
        | none => rintro ⟨⟩
        | some entry => rintro ⟨⟩
  · refine hcode.trans ⟨fun h => ⟨h, fun hunused => hnot ?_⟩, And.left⟩
    exact ⟨h.valid, h.parents, h.permitted, h.source, h.fileName, hunused⟩

theorem Denoting.not_unused_iff (hs : s.Denoting) (hpath : Plain path)
    (hbelow : ∀ handle, s.Opens handle → path.isPrefixOf handle.wiiPath = true →
      place path <+: place handle.wiiPath) :
    ¬ s.Unused path ↔ ∃ handle, s.Opens handle ∧ place path <+: place handle.wiiPath := by
  constructor
  · intro hused
    unfold Unused at hused
    split at hused
    · obtain ⟨i, -, hi⟩ := List.any_eq_true.1 (Bool.eq_true_of_not_eq_false hused)
      obtain ⟨handle, hhandle, heq⟩ := (Option.any_eq_true _ _).1 hi
      exact ⟨handle, ⟨i, hhandle⟩, beq_iff_eq.1 heq ▸ List.prefix_rfl⟩
    · obtain ⟨i, -, hi⟩ := List.any_eq_true.1 (Bool.eq_true_of_not_eq_false hused)
      obtain ⟨handle, hhandle, hprefix⟩ := (Option.any_eq_true _ _).1 hi
      exact ⟨handle, ⟨i, hhandle⟩, hbelow handle ⟨i, hhandle⟩ hprefix⟩
  · rintro ⟨handle, hopen, hp⟩ hunused
    exact hs.not_below hpath hunused hopen hp

end HostFileSystem

/-! ### Reachable states -/

theorem reachable_denoting {s : HostFileSystem} (hs : callSystem.ReachableBy CallOk s) :
    s.Denoting ∧ s.nand.Owned := by
  have hinit : ∀ s, callSystem.init s → s.Denoting ∧ s.nand.Owned :=
    fun s hinit => ⟨.of_none hinit.1, hinit.2⟩
  refine hs.invariant hinit fun s x s' h hok hstep => ?_
  obtain ⟨-, rfl⟩ := HostFileSystem.step_eq_some.1 hstep
  exact ⟨h.1.perform x.1 x.2 hok, (evolves_perform x.2 x.1 s).owned h.2⟩

/-- A file that is made and opened twice, on a host that refuses nothing. -/
def openedTwice : List (Host × Call) :=
  let modes : Modes := ⟨Mode.readWrite, Mode.readWrite, Mode.readWrite⟩
  [(fun _ => true, .request (.createFile 0 0 "/f".toList 0 modes)),
    (fun _ => true, .request (.openFile 0 0 "/f".toList Mode.readWrite)),
    (fun _ => true, .request (.openFile 0 0 "/f".toList Mode.readWrite))]

theorem owned_formatted : formatted.nand.Owned := by
  have hfile : ∀ p inode, formatted.nand.node p ≠ some (.file inode) := by
    intro p inode h
    cases List.mem_singleton.1 (FileTree.node_eq_some.1 h)
  exact ⟨fun p inode h => absurd h (hfile p inode), fun p q inode h => absurd h (hfile p inode)⟩

theorem reachable_openedTwice : callSystem.ReachableBy CallOk (formatted.run openedTwice) := by
  have hplain : Plain "/f".toList ∧ ¬ IsFstPlace (place "/f".toList) := by decide +kernel
  have hinit : callSystem.init formatted := ⟨fun _ => rfl, owned_formatted⟩
  have hok : ∀ call ∈ openedTwice, ∀ s, CallOk s call := by
    intro call hcall s
    rcases List.mem_cons.1 hcall with rfl | hcall
    · exact trivial
    rcases List.mem_cons.1 hcall with rfl | hcall
    · exact hplain
    · obtain rfl := List.mem_singleton.1 hcall
      exact hplain
  have hrun : callSystem.run formatted openedTwice = some (formatted.run openedTwice) := rfl
  exact (System.ReachableBy.init hinit).run hok hrun

/-- Every open file is what its path leads to, and handles of one path share it. `Delete` and
    `Rename`, where they come to ask, answer that a path is in use exactly if an open file is there
    or below, unless an open path merely begins with its text. What is written through a handle is
    what all handles of its path have, those of files that are opened next too. -/
theorem open_files_denote {s : HostFileSystem} (hs : callSystem.ReachableBy CallOk s) :
    (∀ handle, s.Opens handle →
      s.nand.node (place handle.wiiPath) = some (.file handle.hostFile.inode)) ∧
    (∀ handle handle', s.Opens handle → s.Opens handle' → handle.wiiPath = handle'.wiiPath →
      handle.hostFile = handle'.hostFile) ∧
    (∀ path, Plain path →
      (∀ handle, s.Opens handle → path.isPrefixOf handle.wiiPath = true →
        place path <+: place handle.wiiPath) →
      ∀ host uid gid,
        ((s.delete host uid gid path).1 = .inUse ↔
          (s.nothingOpen.delete host uid gid path).1 = .success ∧
            ∃ handle, s.Opens handle ∧ place path <+: place handle.wiiPath) ∧
        ∀ newPath, s.renameDangles host uid gid path newPath = false →
          ((s.rename host uid gid path newPath).1 = .inUse ↔
            RenameAllowed s.nothingOpen uid gid path newPath ∧
              ∃ handle, s.Opens handle ∧ place path <+: place handle.wiiPath)) ∧
    ∀ host fd n i handle bytes, s.getHandleFromFd fd = some (i, handle) →
      (s.writeBytesToFile host fd bytes).1 = .ok n →
        s.SeesWrite (s.writeBytesToFile host fd bytes).2 handle bytes ∧
        ∀ host' path mode, Plain path → ¬ IsFstPlace (place path) →
          s.SeesWrite ((s.writeBytesToFile host fd bytes).2.openFile host' path mode).2 handle
            bytes := by
  obtain ⟨hdenoting, howned⟩ := reachable_denoting hs
  refine ⟨fun handle hopen => (hdenoting.valid.current handle hopen).file, ?_, ?_, ?_⟩
  · intro handle handle' hopen hopen' heq
    obtain ⟨hfile, hpath, -⟩ := hdenoting.valid.current handle hopen
    obtain ⟨hfile', hpath', -⟩ := hdenoting.valid.current handle' hopen'
    rw [heq, hfile'] at hfile
    cases h : handle.hostFile
    cases h' : handle'.hostFile
    rw [h] at hfile hpath
    rw [h'] at hfile hpath'
    cases hfile
    rw [HostFile.mk.injEq]
    exact ⟨hpath.trans ((congrArg buildFilename heq).trans hpath'.symm), rfl⟩
  · intro path hpath hbelow host uid gid
    have hused := hdenoting.not_unused_iff hpath hbelow
    refine ⟨?_, fun newPath _ => ?_⟩
    · exact (delete_inUse_iff host uid gid path s).trans (and_congr_right' hused)
    · exact (rename_inUse_iff host uid gid path newPath s).trans (and_congr_right' hused)
  · intro host fd n i handle bytes hget hwrite
    have hopen : s.Opens handle := ⟨i, getHandleFromFd_eq_some hget⟩
    have hwritten := hdenoting.writeBytesToFile host fd bytes
    have hnand := nand_writeBytesToFile hget hwrite
    refine ⟨hdenoting.seesWrite howned hopen hwritten hnand, fun host' path mode hpath hapart => ?_⟩
    exact hdenoting.seesWrite howned hopen (hwritten.openFile host' hpath hapart mode)
      ((evolves_openFile path mode).trans hnand)

/-- The file is read as it was written through the other handle, and it cannot be deleted. -/
theorem open_files_denote_openedTwice :
    (((formatted.run openedTwice).writeBytesToFile (fun _ => true) 0 [7, 8]).2.readBytesFromFile
      (fun _ => true) 1 2).1 = .ok [7, 8] ∧
    ((formatted.run openedTwice).delete (fun _ => true) 0 0 "/f".toList).1 = .inUse := by
  obtain ⟨-, -, hinUse, hwrites⟩ := open_files_denote reachable_openedTwice
  let handle : Handle := ⟨Mode.readWrite, "/f".toList, ⟨buildFilename "/f".toList, 0⟩, 0⟩
  have hplain : Plain "/f".toList := by decide +kernel
  have hopen : (formatted.run openedTwice).Opens handle := ⟨0, by decide +kernel⟩
  refine ⟨?_, ?_⟩
  · have hget : (formatted.run openedTwice).getHandleFromFd 0 = some (0, handle) := by
      decide +kernel
    have hget' : ((formatted.run openedTwice).writeBytesToFile (fun _ => true) 0
        [7, 8]).2.getHandleFromFd 1 = some (1, handle) := by decide +kernel
    have hsize : (((formatted.run openedTwice).writeBytesToFile (fun _ => true) 0
        [7, 8]).2.content handle).length < 2 ^ 32 := by decide +kernel
    have hsees := (hwrites (fun _ => true) 0 2 0 handle [7, 8] hget rfl).1
    exact hsees.read (fun _ => true) 1 1 handle hget' rfl (by decide) rfl hsize
  · have hbelow : ∀ handle, (formatted.run openedTwice).Opens handle →
        List.isPrefixOf "/f".toList handle.wiiPath = true →
          place "/f".toList <+: place handle.wiiPath := by
      have hall : ∀ i, ((formatted.run openedTwice).handles i).all
          (fun handle => handle.wiiPath == "/f".toList) = true := by decide +kernel
      rintro handle ⟨i, hi⟩ -
      have hpath := hall i
      rw [hi, Option.all_some, beq_iff_eq] at hpath
      rw [hpath]
    have hdelete := (hinUse _ hplain hbelow (fun _ => true) 0 0).1
    exact hdelete.2 ⟨by decide +kernel, handle, hopen, List.prefix_rfl⟩

/-- A file that is renamed to the path of an open one, which goes without a question. -/
def ontoOpen : List (Host × Call) :=
  let modes : Modes := ⟨Mode.readWrite, Mode.readWrite, Mode.readWrite⟩
  [(fun _ => true, .request (.createDirectory 0 0 "/d".toList 0 modes)),
    (fun _ => true, .request (.createFile 0 0 "/d/f".toList 0 modes)),
    (fun _ => true, .request (.createFile 0 0 "/f".toList 0 modes)),
    (fun _ => true, .request (.openFile 0 0 "/f".toList Mode.readWrite)),
    (fun _ => true, .request (.rename 0 0 "/d/f".toList "/f".toList))]

/-- Neither holds of every run: a file can be renamed to the path of an open one, and who may not
    write to the directory is told that instead. -/
theorem ontoOpen_not_denoting :
    (¬ ∀ s, callSystem.Reachable s → ∀ handle, s.Opens handle →
      s.nand.node (place handle.wiiPath) = some (.file handle.hostFile.inode)) ∧
    ¬ ∀ s, callSystem.Reachable s → ∀ host uid gid path, (s.delete host uid gid path).1 = .inUse ↔
      ∃ handle, s.Opens handle ∧ place path <+: place handle.wiiPath := by
  have hinit : callSystem.init formatted := ⟨fun _ => rfl, owned_formatted⟩
  refine ⟨fun h => ?_, fun h => ?_⟩
  · let handle : Handle := ⟨Mode.readWrite, "/f".toList, ⟨buildFilename "/f".toList, 3⟩, 0⟩
    have hrun : callSystem.run formatted ontoOpen = some (formatted.run ontoOpen) := rfl
    have hreach := (System.Reachable.init hinit).run hrun
    have hopen : (formatted.run ontoOpen).Opens handle := ⟨0, by decide +kernel⟩
    have hnode : (formatted.run ontoOpen).nand.node (place "/f".toList) ≠ some (.file 3) := by
      decide +kernel
    exact hnode (h _ hreach handle hopen)
  · let handle : Handle := ⟨Mode.readWrite, "/f".toList, ⟨buildFilename "/f".toList, 0⟩, 0⟩
    have hrun : callSystem.run formatted openedTwice = some (formatted.run openedTwice) := rfl
    have hreach := (System.Reachable.init hinit).run hrun
    have hopen : (formatted.run openedTwice).Opens handle := ⟨0, by decide +kernel⟩
    have hdenied : ((formatted.run openedTwice).delete (fun _ => true) 2 2 "/f".toList).1 ≠
        .inUse := by decide +kernel
    exact hdenied ((h _ hreach _ 2 2 _).2 ⟨handle, hopen, List.prefix_rfl⟩)

end DolphinXR.IOS.FS
