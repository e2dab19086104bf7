import DolphinXR.Core.HostFileSystemFailures

/- Files that handles have open (HostBackend/File.cpp). A handle knows the path it was opened with;
   the host tree may change under it. `OpenFilesValid` says that it does not: what a handle has open
   is the file that its path leads to. Requests change the tree at the paths they name and where the
   table is saved, so that it is enough that no open file is at or below these. -/
namespace DolphinXR.IOS.FS
open Common Lib

def place (path : Text) : List Text := resolve (buildFilename path)

def IsFstPlace (p : List Text) : Prop :=
  p = resolve ("/fst.bin".toList ++ ".xxx".toList) ∨ p = resolve "/fst.bin".toList

instance (p : List Text) : Decidable (IsFstPlace p) := inferInstanceAs (Decidable (_ ∨ _))

namespace HostFileSystem

def Opens (s : HostFileSystem) (handle : Handle) : Prop := ∃ i, s.handles i = some handle

/-- A handle has the file open that its path leads to, and it is not the table's. -/
structure Current (nand : Nand) (handle : Handle) : Prop where
  file : nand.node (place handle.wiiPath) = some (.file handle.hostFile.inode)
  path : handle.hostFile.path = buildFilename handle.wiiPath
  apart : ¬ IsFstPlace (place handle.wiiPath)

structure OpenFilesValid (s : HostFileSystem) : Prop where
  current : ∀ handle, s.Opens handle → Current s.nand handle
  names : ∀ handle handle', s.Opens handle → s.Opens handle' →
    place handle.wiiPath = place handle'.wiiPath → handle.wiiPath = handle'.wiiPath

/-! ### Files that are kept -/

/-- The handles stay, and so do the files but for the table's and those that are gone. -/
structure KeepsFiles (G : List Text → Prop) (s s' : HostFileSystem) : Prop where
  handles : s'.handles = s.handles
  files : ∀ k inode, s.nand.node k = some (.file inode) → ¬ IsFstPlace k → ¬ G k →
    s'.nand.node k = some (.file inode)

variable {s s' s'' : HostFileSystem} {G : List Text → Prop}

theorem KeepsFiles.trans (h : KeepsFiles G s s') (h' : KeepsFiles G s' s'') :
    KeepsFiles G s s'' := by
  refine ⟨h'.handles.trans h.handles, fun k inode hk hfst hgone => ?_⟩
  exact h'.files k inode (h.files k inode hk hfst hgone) hfst hgone

theorem Unchanged.keepsFiles (h : Unchanged s s') : KeepsFiles G s s' := by
  refine ⟨h.handles, fun k inode hk _ _ => ?_⟩
  rw [h.nand]
  exact hk

theorem KeepsFiles.of_nand {nand : Nand} (rootEntry : FstEntry)
    (h : ∀ k inode, s.nand.node k = some (.file inode) → ¬ G k →
      nand.node k = some (.file inode)) : KeepsFiles G s { s with nand, rootEntry } :=
  ⟨rfl, fun k inode hk _ hgone => h k inode hk hgone⟩

theorem OpenFilesValid.keep (h : s.OpenFilesValid) (hkeeps : KeepsFiles G s s')
    (hgone : ∀ handle, s.Opens handle → ¬ G (place handle.wiiPath)) : s'.OpenFilesValid := by
  have hopens : ∀ handle, s'.Opens handle ↔ s.Opens handle := fun handle => by
    unfold Opens
    rw [hkeeps.handles]
  refine ⟨fun handle hopen => ?_, fun handle handle' hopen hopen' => ?_⟩
  · obtain ⟨hfile, hpath, hapart⟩ := h.current handle ((hopens handle).1 hopen)
    exact ⟨hkeeps.files _ _ hfile hapart (hgone handle ((hopens handle).1 hopen)), hpath, hapart⟩
  · exact h.names handle handle' ((hopens handle).1 hopen) ((hopens handle').1 hopen')

theorem OpenFilesValid.of_none (h : ∀ i, s.handles i = none) : s.OpenFilesValid := by
  have hnot : ∀ handle, ¬ s.Opens handle := fun handle ⟨i, hi⟩ => by
    rw [h i] at hi
    cases hi
  exact ⟨fun handle hopen => absurd hopen (hnot handle),
    fun handle _ hopen => absurd hopen (hnot handle)⟩

theorem attempt_keeps {P : Nand → Prop} {host : Host} {operation : HostOperation}
    {result : Option Nand} {nand : Nand} (h : P nand)
    (hresult : ∀ nand', result = some nand' → P nand') :
    P (Nand.attempt host operation result nand).2 := by
  unfold Nand.attempt
  cases host operation with
  | false => exact h
  | true =>
    cases result with
    | none => exact h
    | some nand' => exact hresult nand' rfl

theorem attempt_succeeded {host : Host} {operation : HostOperation} {result : Option Nand}
    {nand : Nand} (h : (Nand.attempt host operation result nand).1 = true) :
    result = some (Nand.attempt host operation result nand).2 := by
  unfold Nand.attempt at h ⊢
  cases hresult : (if host operation then result else none) with
  | none =>
    rw [hresult] at h
    cases h
  | some nand' =>
    obtain ⟨-, heq⟩ := Option.ite_none_right_eq_some.1 hresult
    exact heq

section
variable {host : Host} {nand : Nand} {k : List Text} {a : Node} {hostPath : Text}

theorem node_make {isFile : Bool} (h : nand.node k = some a) :
    (Nand.make host isFile hostPath nand).2.node k = some a := by
  unfold Nand.make Nand.createDir
  split
  · exact attempt_keeps h fun nand' hmade => FileTree.node_create hmade h
  · split
    · exact h
    · exact attempt_keeps h fun nand' hmade => FileTree.node_mkdir hmade h

theorem node_removeAll_of_not {p : List Text} (h : nand.node k = some a) (hnot : ¬ p <+: k) :
    (nand.removeAll p).node k = some a := by
  rw [FileTree.node_removeAll, if_neg hnot, h]

theorem node_delete (h : nand.node k = some a) (hnot : ¬ resolve hostPath <+: k) :
    (Nand.delete host hostPath nand).2.node k = some a := by
  unfold Nand.delete
  split
  · exact h
  · refine attempt_keeps (P := fun n => n.node k = some a) h fun nand' hgone => ?_
    unfold FileTree.unlink at hgone
    split at hgone
    · rw [← Option.some.inj hgone]
      exact node_removeAll_of_not h hnot
    · cases hgone

theorem node_deleteDirRecursively (h : nand.node k = some a) (hnot : ¬ resolve hostPath <+: k) :
    (Nand.deleteDirRecursively host hostPath nand).2.node k = some a := by
  refine attempt_keeps (P := fun n => n.node k = some a) h fun nand' hgone => ?_
  rw [← Option.some.inj hgone]
  exact node_removeAll_of_not h hnot

theorem node_rename {target : Text} (h : nand.node k = some a) (hsource : ¬ resolve hostPath <+: k)
    (htarget : ¬ resolve target <+: k) :
    (Nand.rename host hostPath target nand).2.node k = some a := by
  refine attempt_keeps h fun nand' hmoved => FileTree.node_rename hmoved h hsource ?_
  rintro rfl
  exact htarget List.prefix_rfl

end

theorem keepsFiles_saveFst (host : Host) (s : HostFileSystem) :
    KeepsFiles G s (saveFst host s) := by
  unfold saveFst
  dsimp only
  split
  case isFalse => exact ⟨rfl, fun k inode hk _ _ => hk⟩
  case isTrue hwritten =>
    refine ⟨rfl, fun k inode hk hfst _ => ?_⟩
    obtain ⟨htemp, hdest⟩ := not_or.1 hfst
    have hmade := attempt_succeeded hwritten
    have hkept := FileTree.node_create hmade hk
    obtain ⟨temp, hfile⟩ := FileTree.node_create_self hmade
    refine attempt_keeps hkept fun nand' hmoved => FileTree.node_rename hmoved hkept ?_ hdest
    rintro ⟨r, rfl⟩
    have hne : r ≠ [] := by
      rintro rfl
      exact htemp (List.append_nil _)
    rw [FileTree.node_below_file hfile hne] at hkept
    cases hkept

/-! ### Requests that keep every file -/

theorem keepsFiles_getFstEntryForPath (path : Text) (s : HostFileSystem) :
    KeepsFiles G s (getFstEntryForPath path s).2 :=
  (unchanged_getFstEntryForPath path s).keepsFiles

theorem keepsFiles_createFileOrDirectory (host : Host) (uid gid : Nat) (path : Text) (attr : Nat)
    (modes : Modes) (isFile : Bool) (s : HostFileSystem) :
    KeepsFiles G s (createFileOrDirectory host uid gid path attr modes isFile s).2 := by
  have hparent := keepsFiles_getFstEntryForPath (G := G) (splitPathAndBasename path).1 s
  unfold createFileOrDirectory
  dsimp only
  generalize getFstEntryForPath (splitPathAndBasename path).1 s = found at hparent ⊢
  obtain ⟨parent, s₁⟩ := found
  split_ifs
  · exact Unchanged.keepsFiles (.refl s)
  · exact Unchanged.keepsFiles (.refl s)
  · cases parent with
    | none => exact hparent
    | some parent =>
      dsimp only at hparent ⊢
      have hmade : KeepsFiles G s₁
          { s₁ with nand := (Nand.make host isFile (buildFilename path) s₁.nand).2 } :=
        KeepsFiles.of_nand s₁.rootEntry fun k inode hk _ => node_make hk
      have hchild := hmade.trans (keepsFiles_getFstEntryForPath path _)
      split_ifs
      · exact hparent
      · exact hparent
      · exact hparent.trans hmade
      · split
        · next heq =>
          rw [heq] at hchild
          exact hparent.trans hchild
        · next heq =>
          rw [heq] at hchild
          refine hparent.trans (hchild.trans ?_)
          exact KeepsFiles.trans (KeepsFiles.of_nand _ fun _ _ hk _ => hk) (keepsFiles_saveFst host _)

theorem keepsFiles_setMetadata (host : Host) (callerUid : Nat) (path : Text) (uid gid attr : Nat)
    (modes : Modes) (s : HostFileSystem) :
    KeepsFiles G s (setMetadata host callerUid path uid gid attr modes s).2 := by
  have hentry := keepsFiles_getFstEntryForPath (G := G) path s
  unfold setMetadata
  dsimp only
  generalize getFstEntryForPath path s = found at hentry ⊢
  obtain ⟨entry, s₁⟩ := found
  split_ifs
  · exact Unchanged.keepsFiles (.refl s)
  · cases entry with
    | none => exact hentry
    | some entry =>
      dsimp only at hentry ⊢
      split_ifs
      · exact hentry
      · exact hentry
      · exact hentry
      · refine hentry.trans ?_
        exact KeepsFiles.trans (KeepsFiles.of_nand _ fun _ _ hk _ => hk) (keepsFiles_saveFst host _)
      · exact hentry

/-! ### Delete and Rename -/

theorem keepsFiles_delete (host : Host) (uid gid : Nat) (path : Text) (s : HostFileSystem) :
    KeepsFiles (fun k => place path <+: k) s (delete host uid gid path s).2 := by
  have hparent := keepsFiles_getFstEntryForPath (G := fun k => place path <+: k)
    (splitPathAndBasename path).1 s
  unfold delete
  dsimp only
  generalize getFstEntryForPath (splitPathAndBasename path).1 s = found at hparent ⊢
  obtain ⟨parent, s₁⟩ := found
  split_ifs
  · exact Unchanged.keepsFiles (.refl s)
  · cases parent with
    | none => exact hparent
    | some parent =>
      dsimp only at hparent ⊢
      split_ifs
      · exact hparent
      · exact hparent
      · refine hparent.trans (KeepsFiles.trans ?_ (keepsFiles_saveFst host _))
        exact KeepsFiles.of_nand _ fun k inode hk hnot => node_delete hk hnot
      · refine hparent.trans (KeepsFiles.trans ?_ (keepsFiles_saveFst host _))
        exact KeepsFiles.of_nand _ fun k inode hk hnot => node_deleteDirRecursively hk hnot
      · exact hparent

theorem node_deleteTarget {host : Host} {oldPath newPath : Text} {nand nand' : Nand}
    {k : List Text} {a : Node} (h : deleteTarget host oldPath newPath nand = some nand')
    (hk : nand.node k = some a) (hnot : ¬ place newPath <+: k) : nand'.node k = some a := by
  unfold deleteTarget at h
  dsimp only at h
  split at h
  · split at h
    · obtain rfl := Option.some.inj h
      exact node_delete hk hnot
    · obtain rfl := Option.some.inj h
      exact node_deleteDirRecursively hk hnot
    · cases h
  · obtain rfl := Option.some.inj h
    exact hk

/-- What a `Rename` that passes its checks may change. -/
def RenameTouches (oldPath newPath : Text) (k : List Text) : Prop :=
  place oldPath <+: k ∨ place newPath <+: k

theorem keepsFiles_renameOnHost {host : Host} {oldParent : List Text} {oldPath newPath : Text}
    {nand : Nand} {s : HostFileSystem}
    (hnand : ∀ k inode, s.nand.node k = some (.file inode) → ¬ RenameTouches oldPath newPath k →
      nand.node k = some (.file inode)) :
    KeepsFiles (RenameTouches oldPath newPath) s
      (renameOnHost host oldParent oldPath newPath nand s).2 := by
  have hmoved : KeepsFiles (RenameTouches oldPath newPath) s { s with
      nand := (Nand.rename host (buildFilename oldPath) (buildFilename newPath) nand).2 } := by
    refine KeepsFiles.of_nand s.rootEntry fun k inode hk hnot => ?_
    obtain ⟨hsource, htarget⟩ := not_or.1 hnot
    exact node_rename (hnand k inode hk hnot) hsource htarget
  have hentry := hmoved.trans (keepsFiles_getFstEntryForPath newPath _)
  unfold renameOnHost
  dsimp only
  split_ifs
  · exact hmoved
  · split
    · next heq =>
      rw [heq] at hentry
      exact hentry
    · next heq =>
      rw [heq] at hentry
      refine hentry.trans ?_
      exact KeepsFiles.trans (KeepsFiles.of_nand _ fun _ _ hk _ => hk) (keepsFiles_saveFst host _)

theorem keepsFiles_rename (host : Host) (uid gid : Nat) (oldPath newPath : Text)
    (s : HostFileSystem) :
    Unchanged s (rename host uid gid oldPath newPath s).2 ∨
      RenameAllowed s uid gid oldPath newPath ∧
        KeepsFiles (RenameTouches oldPath newPath) s
          (rename host uid gid oldPath newPath s).2 := by
  obtain ⟨hchecks, hresult⟩ := renameChecks_spec uid gid oldPath newPath s
  unfold rename
  generalize renameChecks uid gid oldPath newPath s = checked at hchecks hresult ⊢
  obtain ⟨result, s₁⟩ := checked
  cases result with
  | error code => exact .inl hchecks
  | ok oldParent =>
    have hallowed : RenameAllowed s uid gid oldPath newPath := by
      rcases hresult with ⟨-, hallowed⟩ | ⟨⟨code, hcode, -⟩, -⟩
      · exact hallowed
      · cases hcode
    dsimp only at hchecks ⊢
    cases htarget : deleteTarget host oldPath newPath s₁.nand with
    | none => exact .inl hchecks
    | some nand =>
      refine .inr ⟨hallowed, hchecks.keepsFiles.trans (keepsFiles_renameOnHost ?_)⟩
      exact fun k inode hk hnot => node_deleteTarget htarget hk fun hp => hnot (.inr hp)

end HostFileSystem
end DolphinXR.IOS.FS
