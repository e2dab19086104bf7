import DolphinXR.Core.FstFile
import DolphinXR.Core.HostFileSystemFailures

/- What calls do to the entries of the table. A call makes the entries that its paths lack, changes
   the metadata of one, takes one out, or moves one with all that is below it. Whatever is said of
   each entry's depth, name and metadata alone so still holds of all, where it holds of the entries
   on the paths of the call and of what is moved, at its new depth. What is moved is found where it
   was, as the host moves nothing below itself. -/
namespace DolphinXR.IOS.FS
open Common Lib

namespace FstEntry

/-- It is said of the depth and the name, and of the metadata, each on its own, and not of whether
    the entry is a file. -/
structure Separate (P : Nat → FstEntry → Prop) : Prop where
  mix : ∀ {depth other : Nat} {a b : FstEntry} (children : List FstEntry), P depth a → P other b →
    P depth ⟨a.name, b.data, children⟩
  isFile : ∀ {depth : Nat} {a : FstEntry} (isFile : Bool), P depth a →
    P depth { a with data := { a.data with isFile } }

/-- It holds of the entries that are made for names, below an entry of some depth. -/
def Makes (P : Nat → FstEntry → Prop) : Nat → List Text → Prop
  | _, [] => True
  | depth, name :: names => P (depth + 1) (defaultEntry name) ∧ Makes P (depth + 1) names

/-- It holds of what is below the entry that names lead to, as if that were at some depth. -/
def Below (P : Nat → FstEntry → Prop) (depth : Nat) (names : List Text) (root : FstEntry) : Prop :=
  ∀ found, root.find names = some found → ∀ child ∈ found.children, Everywhere P (depth + 1) child

def Sets (P : Nat → FstEntry → Prop) (uid gid attr : Nat) (modes : Modes) : Prop :=
  ∀ {depth : Nat} {entry : FstEntry}, P depth entry →
    P depth { entry with data := { entry.data with gid, uid, attr, modes } }

section Table
variable {P : Nat → FstEntry → Prop} {depth : Nat} {f : FstEntry → FstEntry}

theorem Makes.append {names others : List Text} :
    Makes P depth (names ++ others) ↔
      Makes P depth names ∧ Makes P (depth + names.length) others := by
  induction names generalizing depth with
  | nil => simp [Makes]
  | cons name names ih =>
    rw [List.cons_append, Makes, Makes, ih, List.length_cons, and_assoc,
      Nat.add_right_comm, Nat.add_assoc]

theorem mem_updateChild {name : Text} {children : List FstEntry} {child : FstEntry}
    (h : child ∈ updateChild name f children) :
    child ∈ children ∨ child = f (defaultEntry name) ∨ ∃ old ∈ children, child = f old := by
  induction children with
  | nil => exact .inr (.inl (List.mem_singleton.1 h))
  | cons first rest ih =>
    unfold updateChild at h
    split at h
    all_goals rcases List.mem_cons.1 h with rfl | h
    · exact .inr (.inr ⟨first, List.mem_cons_self .., rfl⟩)
    · exact .inl (List.mem_cons_of_mem _ h)
    · exact .inl (List.mem_cons_self ..)
    · rcases ih h with h | h | ⟨old, hold, rfl⟩
      · exact .inl (List.mem_cons_of_mem _ h)
      · exact .inr (.inl h)
      · exact .inr (.inr ⟨old, List.mem_cons_of_mem _ hold, rfl⟩)

theorem everywhere_leaf {entry : FstEntry} (h : P depth entry) (hleaf : entry.children = []) :
    Everywhere P depth entry :=
  .intro h fun _ hchild => absurd (hleaf ▸ hchild) List.not_mem_nil

theorem everywhere_updateAt (hP : Separate P) {names : List Text} {entry : FstEntry}
    (hentry : Everywhere P depth entry) (hmakes : Makes P depth names)
    (hf : ∀ x, Everywhere P (depth + names.length) x → Everywhere P (depth + names.length) (f x)) :
    Everywhere P depth (updateAt f names entry) := by
  induction names generalizing depth entry with
  | nil => exact hf entry hentry
  | cons name names ih =>
    have hdepth : depth + (names.length + 1) = depth + 1 + names.length := by omega
    rw [List.length_cons, hdepth] at hf
    have hchild : ∀ x, Everywhere P (depth + 1) x → Everywhere P (depth + 1) (updateAt f names x) :=
      fun x hx => ih hx hmakes.2 hf
    refine .intro (hP.mix _ hentry.here hentry.here) fun child hmem => ?_
    rcases mem_updateChild hmem with hmem | rfl | ⟨old, hold, rfl⟩
    · exact hentry.child child hmem
    · exact hchild _ (everywhere_leaf hmakes.1 rfl)
    · exact hchild _ (hentry.child old hold)

theorem everywhere_refresh (hP : Separate P) (isFile : Bool) {entry : FstEntry}
    (h : Everywhere P depth entry) : Everywhere P depth (refresh isFile entry) := by
  have hhere := hP.isFile isFile h.here
  refine .intro (hP.mix _ hhere hhere) fun child hchild => ?_
  cases isFile with
  | true => exact absurd hchild List.not_mem_nil
  | false => exact h.child child hchild

theorem everywhere_eraseChild (hP : Separate P) (name : Text) {entry : FstEntry}
    (h : Everywhere P depth entry) : Everywhere P depth (eraseChild name entry) :=
  .intro (hP.mix _ h.here h.here) fun child hchild => h.child child (List.mem_of_mem_eraseP hchild)

theorem everywhere_find {names : List Text} {entry found : FstEntry}
    (h : Everywhere P depth entry) (hfound : entry.find names = some found) :
    Everywhere P (depth + names.length) found := by
  induction names generalizing depth entry with
  | nil =>
    obtain rfl := Option.some.inj hfound
    exact h
  | cons name names ih =>
    rw [find_cons] at hfound
    obtain ⟨child, hchild, hrest⟩ := Option.bind_eq_some_iff.1 hfound
    have hmem := List.mem_of_find?_eq_some hchild
    have hlast := ih (h.child child hmem) hrest
    rwa [Nat.add_right_comm, Nat.add_assoc] at hlast

def Trims (f : FstEntry → FstEntry) : Prop :=
  ∀ x, (f x).name = x.name ∧ ((f x).children = x.children ∨ (f x).children = [])

theorem trims_refresh (isFile : Bool) : Trims (refresh isFile) := by
  intro x
  cases isFile with
  | true => exact ⟨rfl, .inr rfl⟩
  | false => exact ⟨rfl, .inl rfl⟩

theorem trims_id : Trims id := fun _ => ⟨rfl, .inl rfl⟩

theorem below_leaf {names : List Text} {entry : FstEntry} (hleaf : entry.children = []) :
    Below P depth names entry := by
  intro found hfound child hchild
  cases names with
  | nil =>
    obtain rfl := Option.some.inj hfound
    exact absurd (hleaf ▸ hchild) List.not_mem_nil
  | cons name names =>
    rw [find_cons, hleaf] at hfound
    cases hfound

theorem below_updateAt (hf : Trims f) {names others : List Text} {root : FstEntry}
    (h : Below P depth names root) (hapart : names <+: others → names = others) :
    Below P depth names (updateAt f others root) := by
  induction names generalizing others root with
  | nil =>
    obtain rfl := hapart List.nil_prefix
    intro found hfound child hchild
    obtain rfl := Option.some.inj hfound
    rcases (hf root).2 with hsame | hnone
    · exact h root rfl child (hsame ▸ hchild)
    · exact absurd (hnone ▸ hchild) List.not_mem_nil
  | cons name names ih =>
    cases others with
    | nil =>
      rcases (hf root).2 with hsame | hnone
      · intro found hfound
        refine h found ?_
        rwa [find_cons, ← hsame]
      · exact below_leaf hnone
    | cons other others =>
      have hname := fun x => updateAt_name (fun y => (hf y).1) others x
      intro found hfound
      rw [find_cons, updateAt, find_children_updateChild hname] at hfound
      split at hfound
      case isFalse =>
        refine h found ?_
        rwa [find_cons]
      case isTrue hsame =>
        subst hsame
        have hchild : Below P depth names
            ((root.children.find? (·.name = other)).getD (defaultEntry other)) := by
          cases hfind : root.children.find? (·.name = other) with
          | none => exact below_leaf rfl
          | some child =>
            intro found hfound
            refine h found ?_
            rw [find_cons, hfind]
            exact hfound
        have hbelow := ih hchild fun hp =>
          (List.cons.inj (hapart (List.cons_prefix_cons.2 ⟨rfl, hp⟩))).2
        exact hbelow found hfound

theorem updateAt_lastName (names : List Text) (name : Text) (root : FstEntry) :
    updateAt (fun entry => { entry with name }) (names ++ [name]) root =
      updateAt id (names ++ [name]) root := by
  have hchildren : ∀ children, updateChild name (fun entry => { entry with name }) children =
      updateChild name id children := by
    intro children
    induction children with
    | nil => rfl
    | cons child rest ih =>
      unfold updateChild
      rw [ih]
      split
      case isTrue hname =>
        cases child with
        | mk => exact congrArg (· :: rest) (by rw [← hname]; rfl)
      case isFalse => rfl
  induction names generalizing root with
  | nil =>
    change { root with children := _ } = { root with children := _ }
    exact congrArg (FstEntry.mk _ _) (hchildren _)
  | cons first names ih =>
    change { root with children := _ } = { root with children := _ }
    exact congrArg (fun f => FstEntry.mk _ _ (updateChild first f root.children)) (funext ih)

theorem everywhere_moveEntry (hP : Separate P) {oldParent newNames : List Text}
    {oldName newName : Text} {root : FstEntry} (hroot : Everywhere P 0 root)
    (hold : Makes P 0 oldParent) (hnew : Makes P 0 (newNames ++ [newName]))
    (hbelow : Below P (newNames ++ [newName]).length (oldParent ++ [oldName]) root)
    (hapart : oldParent ++ [oldName] <+: newNames ++ [newName] →
      oldParent ++ [oldName] = newNames ++ [newName]) :
    Everywhere P 0
      (HostFileSystem.moveEntry oldParent oldName (newNames ++ [newName]) newName root) := by
  unfold HostFileSystem.moveEntry
  rw [updateAt_lastName]
  have hnamed := everywhere_updateAt hP hroot hnew (f := id) fun _ => id
  have hmoved := below_updateAt trims_id hbelow hapart
  dsimp only
  split
  case h_1 => exact hnamed
  case h_2 found hfound =>
    have hdata := (everywhere_find hnamed hfound).here
    have hput := everywhere_updateAt hP hnamed hnew
      (f := fun entry => { entry with data := found.data, children := found.children })
      fun entry hentry => by
        rw [Nat.zero_add] at hentry ⊢
        exact .intro (hP.mix _ hentry.here hdata) (hmoved found hfound)
    exact everywhere_updateAt hP hput hold fun _ => everywhere_eraseChild hP oldName

end Table

end FstEntry

namespace HostFileSystem

/-! ### Paths -/

theorem splitPathAndBasename_append {t name : Text} (h : '/' ∉ name) :
    splitPathAndBasename (t ++ '/' :: name) = ((t ++ '/' :: name).take (max 1 t.length), name) := by
  have hidx : (t ++ '/' :: name).reverse.idxOf '/' = name.length := by
    rw [List.reverse_append, List.reverse_cons, List.append_assoc,
      List.idxOf_append_of_notMem (by rwa [List.mem_reverse])]
    simp
  have hlast : (t ++ '/' :: name).length - 1 - (t ++ '/' :: name).reverse.idxOf '/' = t.length := by
    rw [hidx, List.length_append, List.length_cons]
    omega
  rw [splitPathAndBasename, hlast]
  exact congrArg (Prod.mk _) (by simp [List.drop_append])

theorem components_split {path : Text} (h : isValidNonRootPath path = true) :
    ∃ empty : List Text, (∀ name ∈ empty, name = []) ∧
      components path =
        components (splitPathAndBasename path).1 ++ empty ++ [(splitPathAndBasename path).2] := by
  obtain ⟨t, rfl, hne, hlast⟩ := valid_cons h
  obtain ⟨back, front, hsplit, hback⟩ := List.eq_append_cons_of_mem
    (List.mem_reverse.2 (List.mem_cons_self (a := '/') (l := t)))
  have hpath : '/' :: t = front.reverse ++ '/' :: back.reverse := by
    rw [← List.reverse_reverse ('/' :: t), hsplit, List.reverse_append, List.reverse_cons,
      List.append_assoc]
    rfl
  have hname : '/' ∉ back.reverse := by rwa [List.mem_reverse]
  have hnamene : back.reverse ≠ [] := by
    intro hnil
    rw [hnil] at hpath
    have hend := congrArg List.getLast? hpath
    rw [List.getLast?_cons_of_ne_nil hne, List.getLast?_concat] at hend
    exact hlast hend
  rw [hpath, splitPathAndBasename_append hname]
  cases hfront : front.reverse with
  | nil =>
    refine ⟨[], by simp, ?_⟩
    exact splitString_last hname hnamene
  | cons c front =>
    rw [hfront] at hpath
    obtain ⟨rfl, ht⟩ := List.cons.inj hpath
    obtain ⟨empty, hempty, hcomponents⟩ := splitString_append '/' front back.reverse
    have hparent : (('/' :: front) ++ '/' :: back.reverse).take (max 1 ('/' :: front).length) =
        '/' :: front := by
      have hmax : max 1 ('/' :: front).length = ('/' :: front).length :=
        Nat.max_eq_right (Nat.succ_le_succ (Nat.zero_le _))
      rw [hmax, List.take_left]
    refine ⟨empty, hempty, ?_⟩
    rw [hparent, ← splitString_last hname hnamene]
    exact hcomponents

/-! ### Calls -/

theorem getFstEntryForPath_table {I : FstEntry → Prop} {path : Text} {s : HostFileSystem}
    (hI : ∀ isFile, I (s.rootEntry.updateAt (FstEntry.refresh isFile) (components path)))
    (hs : I s.rootEntry) : I (getFstEntryForPath path s).2.rootEntry := by
  unfold getFstEntryForPath
  split_ifs
  · exact hs
  · exact hs
  · cases Nand.fileInfo s.nand (buildFilename path) with
    | none => exact hs
    | some found => exact hI found.isFile

@[simp] theorem saveFst_rootEntry (host : Host) (s : HostFileSystem) :
    (saveFst host s).rootEntry = s.rootEntry := by
  unfold saveFst
  dsimp only
  split_ifs
  all_goals rfl

section Calls
variable {P : Nat → FstEntry → Prop} {s : HostFileSystem} {path : Text}

theorem makes_parent (h : isValidNonRootPath path = true)
    (hpath : FstEntry.Makes P 0 (components path)) :
    FstEntry.Makes P 0 (components (splitPathAndBasename path).1) := by
  obtain ⟨empty, -, hsplit⟩ := components_split h
  rw [hsplit, List.append_assoc] at hpath
  exact (FstEntry.Makes.append.1 hpath).1

theorem makes_last (h : isValidNonRootPath path = true)
    (hpath : FstEntry.Makes P 0 (components path)) :
    P (components path).length (FstEntry.defaultEntry (splitPathAndBasename path).2) := by
  obtain ⟨empty, -, hsplit⟩ := components_split h
  rw [hsplit] at hpath ⊢
  have hlast := (FstEntry.Makes.append.1 hpath).2.1
  rw [Nat.zero_add] at hlast
  rwa [List.length_append]

theorem everywhere_lookup (hP : FstEntry.Separate P) (hs : s.rootEntry.Everywhere P 0)
    (hpath : FstEntry.Makes P 0 (components path)) :
    (getFstEntryForPath path s).2.rootEntry.Everywhere P 0 :=
  getFstEntryForPath_table
    (fun isFile => FstEntry.everywhere_updateAt hP hs hpath
      fun _ => FstEntry.everywhere_refresh hP isFile) hs

theorem everywhere_createFileOrDirectory (hP : FstEntry.Separate P) {host : Host} {uid gid : Nat}
    {attr : Nat} {modes : Modes} {isFile : Bool} (hs : s.rootEntry.Everywhere P 0)
    (hpath : FstEntry.Makes P 0 (components path))
    (hdata : FstEntry.Sets P uid gid attr modes) :
    (createFileOrDirectory host uid gid path attr modes isFile s).2.rootEntry.Everywhere P 0 := by
  unfold createFileOrDirectory
  dsimp only
  split_ifs with hvalid hdepth
  · exact hs
  · exact hs
  have hpathValid : isValidNonRootPath path = true := by
    by_contra hnot
    exact hvalid (by simp [hnot])
  have hparent := everywhere_lookup hP hs (makes_parent hpathValid hpath)
  generalize getFstEntryForPath (splitPathAndBasename path).1 s = found at hparent ⊢
  obtain ⟨_ | parent, s₁⟩ := found
  · exact hparent
  dsimp only at hparent ⊢
  split_ifs
  · exact hparent
  · exact hparent
  · exact hparent
  have hchild := everywhere_lookup (s := { s₁ with
    nand := (Nand.make host isFile (buildFilename path) s₁.nand).2 }) hP hparent hpath
  have hnames := getFstEntryForPath_spec path { s₁ with
    nand := (Nand.make host isFile (buildFilename path) s₁.nand).2 }
  generalize getFstEntryForPath path _ = found at hchild hnames ⊢
  obtain ⟨_ | child, s₂⟩ := found
  · exact hchild
  rcases hnames with ⟨-, hname⟩ | ⟨-, hname⟩
  case inr => cases hname
  obtain rfl := Option.some.inj hname
  rw [saveFst_rootEntry]
  refine FstEntry.everywhere_updateAt hP hchild hpath fun _ _ => FstEntry.everywhere_leaf ?_ rfl
  rw [Nat.zero_add]
  exact hP.isFile isFile (hdata (makes_last hpathValid hpath))

theorem everywhere_delete (hP : FstEntry.Separate P) {host : Host} {uid gid : Nat}
    (hs : s.rootEntry.Everywhere P 0)
    (hpath : FstEntry.Makes P 0 (components (splitPathAndBasename path).1)) :
    (delete host uid gid path s).2.rootEntry.Everywhere P 0 := by
  unfold delete
  dsimp only
  split_ifs
  · exact hs
  have hparent := everywhere_lookup hP hs hpath
  have hnames := getFstEntryForPath_spec (splitPathAndBasename path).1 s
  generalize getFstEntryForPath (splitPathAndBasename path).1 s = found at hparent hnames ⊢
  obtain ⟨_ | parent, s₁⟩ := found
  · exact hparent
  rcases hnames with ⟨-, hname⟩ | ⟨-, hname⟩
  case inr => cases hname
  obtain rfl := Option.some.inj hname
  have herased := FstEntry.everywhere_updateAt hP hparent hpath
    fun _ => FstEntry.everywhere_eraseChild hP (splitPathAndBasename path).2
  dsimp only at hparent ⊢
  split_ifs
  · exact hparent
  · exact hparent
  · rwa [saveFst_rootEntry]
  · rwa [saveFst_rootEntry]
  · exact hparent

theorem everywhere_setMetadata (hP : FstEntry.Separate P) {host : Host} {callerUid uid gid : Nat}
    {attr : Nat} {modes : Modes} (hs : s.rootEntry.Everywhere P 0)
    (hpath : FstEntry.Makes P 0 (components path))
    (hdata : FstEntry.Sets P uid gid attr modes) :
    (setMetadata host callerUid path uid gid attr modes s).2.rootEntry.Everywhere P 0 := by
  unfold setMetadata
  dsimp only
  split_ifs
  · exact hs
  have hentry := everywhere_lookup hP hs hpath
  have hnames := getFstEntryForPath_spec path s
  generalize getFstEntryForPath path s = found at hentry hnames ⊢
  obtain ⟨_ | entry, s₁⟩ := found
  · exact hentry
  rcases hnames with ⟨-, hname⟩ | ⟨-, hname⟩
  case inr => cases hname
  obtain rfl := Option.some.inj hname
  have hchanged := FstEntry.everywhere_updateAt hP hentry hpath
    (f := fun entry => { entry with data := { entry.data with gid, uid, attr, modes } })
    fun _ hx => .intro (hdata hx.here) hx.child
  dsimp only at hentry ⊢
  split_ifs
  all_goals first | exact hentry | rwa [saveFst_rootEntry]

theorem everywhere_readDirectory (hP : FstEntry.Separate P) {uid gid : Nat}
    (hs : s.rootEntry.Everywhere P 0) (hpath : FstEntry.Makes P 0 (components path)) :
    (readDirectory uid gid path s).2.rootEntry.Everywhere P 0 := by
  unfold readDirectory
  split_ifs
  · exact hs
  have hentry := everywhere_lookup hP hs hpath
  generalize getFstEntryForPath path s = found at hentry ⊢
  obtain ⟨_ | entry, s₁⟩ := found
  · exact hentry
  dsimp only at hentry ⊢
  split_ifs
  all_goals exact hentry

theorem everywhere_getMetadata (hP : FstEntry.Separate P) {uid gid : Nat}
    (hs : s.rootEntry.Everywhere P 0) (hpath : FstEntry.Makes P 0 (components path)) :
    (getMetadata uid gid path s).2.rootEntry.Everywhere P 0 := by
  unfold getMetadata
  dsimp only
  split_ifs with hroot hvalid
  · exact hs
  · exact hs
  have hpathValid : isValidNonRootPath path = true := by simpa using hvalid
  have hparent := everywhere_lookup hP hs (makes_parent hpathValid hpath)
  generalize getFstEntryForPath (splitPathAndBasename path).1 s = found at hparent ⊢
  obtain ⟨_ | parent, s₁⟩ := found
  · exact hparent
  dsimp only at hparent ⊢
  split_ifs
  · exact hparent
  have hentry := everywhere_lookup hP hparent hpath
  generalize getFstEntryForPath path s₁ = found at hentry ⊢
  obtain ⟨_ | entry, s₂⟩ := found
  · exact hentry
  · exact hentry

/-! ### Renaming -/

variable {oldPath newPath : Text} {uid gid : Nat}

theorem renameChecks_table {I : FstEntry → Prop}
    (hI : ∀ path ∈ [(splitPathAndBasename oldPath).1, (splitPathAndBasename newPath).1, oldPath],
      ∀ isFile root, I root → I (root.updateAt (FstEntry.refresh isFile) (components path)))
    (hs : I s.rootEntry) : I (renameChecks uid gid oldPath newPath s).2.rootEntry := by
  obtain ⟨hold, hrest⟩ := List.forall_mem_cons.1 hI
  obtain ⟨hnew, hrest⟩ := List.forall_mem_cons.1 hrest
  have hpath := hrest oldPath (List.mem_cons_self ..)
  unfold renameChecks
  dsimp only
  split_ifs
  · exact hs
  have h₁ := getFstEntryForPath_table (s := s) (fun isFile => hold isFile _ hs) hs
  generalize getFstEntryForPath (splitPathAndBasename oldPath).1 s = found at h₁ ⊢
  obtain ⟨oldParent, s₁⟩ := found
  have h₂ := getFstEntryForPath_table (s := s₁) (fun isFile => hnew isFile _ h₁) h₁
  dsimp only at h₂ ⊢
  generalize getFstEntryForPath (splitPathAndBasename newPath).1 s₁ = found at h₂ ⊢
  obtain ⟨newParent, s₂⟩ := found
  dsimp only at h₂ ⊢
  split
  case h_2 => exact h₂
  case h_1 =>
    split_ifs
    · exact h₂
    have h₃ := getFstEntryForPath_table (s := s₂) (fun isFile => hpath isFile _ h₂) h₂
    generalize getFstEntryForPath oldPath s₂ = found at h₃ ⊢
    obtain ⟨_ | entry, s₃⟩ := found
    · exact h₃
    dsimp only at h₃ ⊢
    split_ifs
    all_goals exact h₃

theorem renameChecks_ok {parent : List Text}
    (h : (renameChecks uid gid oldPath newPath s).1 = .ok parent) :
    isValidNonRootPath oldPath = true ∧ isValidNonRootPath newPath = true ∧
      parent = components (splitPathAndBasename oldPath).1 := by
  unfold renameChecks at h
  dsimp only at h
  split_ifs at h with hvalid
  obtain ⟨hold, hnew⟩ : isValidNonRootPath oldPath = true ∧ isValidNonRootPath newPath = true := by
    simpa using hvalid
  refine ⟨hold, hnew, ?_⟩
  have hname := getFstEntryForPath_spec (splitPathAndBasename oldPath).1 s
  generalize getFstEntryForPath (splitPathAndBasename oldPath).1 s = found at hname h
  obtain ⟨oldParent, s₁⟩ := found
  dsimp only at hname h
  generalize getFstEntryForPath (splitPathAndBasename newPath).1 s₁ = found at h
  obtain ⟨newParent, s₂⟩ := found
  dsimp only at h
  split at h
  case h_2 => cases h
  case h_1 =>
    rcases hname with ⟨-, hname⟩ | ⟨-, hname⟩
    case inr => cases hname
    obtain rfl := Option.some.inj hname
    split_ifs at h
    generalize getFstEntryForPath oldPath s₂ = found at h
    obtain ⟨_ | entry, s₃⟩ := found
    · cases h
    dsimp only at h
    split_ifs at h
    exact (Except.ok.inj h).symm

/-- The names of the entry that is moved: the last name of the path, below its parent. -/
def movedNames (oldPath : Text) : List Text :=
  components (splitPathAndBasename oldPath).1 ++ [(splitPathAndBasename oldPath).2]

theorem apart_of_rename {host : Host} {nand : Nand} (hold : isValidNonRootPath oldPath = true)
    (hnew : isValidNonRootPath newPath = true)
    (h : (Nand.rename host (buildFilename oldPath) (buildFilename newPath) nand).1 = true)
    (hstarts : movedNames oldPath <+: components newPath) :
    movedNames oldPath = components newPath := by
  obtain ⟨behind, hbehind⟩ := hstarts
  by_contra hne
  have hbehindne : behind ≠ [] := by
    rintro rfl
    exact hne (by rwa [List.append_nil] at hbehind)
  have hsame : hostNames (components oldPath) = hostNames (movedNames oldPath) := by
    obtain ⟨empty, hempty, hsplit⟩ := components_split hold
    have hnone : hostNames empty = [] := by
      refine List.filter_eq_nil_iff.2 fun name hname => ?_
      obtain ⟨t, ht, rfl⟩ := List.mem_map.1 hname
      rw [hempty t ht]
      decide
    rw [hsplit, movedNames, hostNames_append, hostNames_append, hostNames_append, hnone,
      List.append_nil]
  have hnewNames : hostNames (components newPath) =
      hostNames (movedNames oldPath) ++ hostNames behind := by rw [← hbehind, hostNames_append]
  have hmore : hostNames behind ≠ [] := by
    obtain ⟨name, hname, hnamene⟩ := getLast?_components hnew
    rw [← hbehind, List.getLast?_append_of_ne_nil _ hbehindne] at hname
    exact hostNames_ne_nil (List.mem_of_getLast? hname) hnamene
  unfold Nand.rename Nand.attempt at h
  rw [resolve_buildFilename hold, resolve_buildFilename hnew, hsame, hnewNames] at h
  have hnone : FileTree.rename nand (hostNames (movedNames oldPath))
      (hostNames (movedNames oldPath) ++ hostNames behind) = none := by
    unfold FileTree.rename
    rw [if_neg, dif_neg]
    · exact fun hrenames => hrenames.apart (List.prefix_append ..)
    · exact fun heq => hmore (List.self_eq_append_right.1 heq)
  rw [hnone] at h
  split at h
  case h_1 hsome => split at hsome <;> cases hsome
  case h_2 => cases h

theorem everywhere_renameOnHost (hP : FstEntry.Separate P) {host : Host} {nand : Nand}
    (hold : isValidNonRootPath oldPath = true) (hnew : isValidNonRootPath newPath = true)
    (hs : s.rootEntry.Everywhere P 0)
    (holdPath : FstEntry.Makes P 0 (components oldPath))
    (hnewPath : FstEntry.Makes P 0 (components newPath))
    (hbelow : (movedNames oldPath <+: components newPath →
        movedNames oldPath = components newPath) →
      s.rootEntry.Below P (components newPath).length (movedNames oldPath)) :
    (renameOnHost host (components (splitPathAndBasename oldPath).1) oldPath newPath nand
      s).2.rootEntry.Everywhere P 0 := by
  unfold renameOnHost
  dsimp only
  split_ifs with hmoved
  · exact hs
  have hapart : movedNames oldPath <+: components newPath →
      movedNames oldPath = components newPath :=
    apart_of_rename hold hnew (by simpa using hmoved)
  let moved := { s with
    nand := (Nand.rename host (buildFilename oldPath) (buildFilename newPath) nand).2 }
  have hlooked : (getFstEntryForPath newPath moved).2.rootEntry.Everywhere P 0 :=
    everywhere_lookup hP (s := moved) hs hnewPath
  have hbelowNew : (getFstEntryForPath newPath moved).2.rootEntry.Below P
      (components newPath).length (movedNames oldPath) :=
    getFstEntryForPath_table (s := moved)
      (fun isFile => FstEntry.below_updateAt (FstEntry.trims_refresh isFile) (hbelow hapart) hapart)
      (hbelow hapart)
  have hnames := getFstEntryForPath_spec newPath moved
  generalize getFstEntryForPath newPath moved = found at hlooked hbelowNew hnames
  obtain ⟨_ | newEntry, s₁⟩ := found
  · exact hlooked
  rcases hnames with ⟨-, hname⟩ | ⟨-, hname⟩
  case inr => cases hname
  obtain rfl := Option.some.inj hname
  obtain ⟨empty, -, hsplit⟩ := components_split hnew
  dsimp only at hlooked hbelowNew ⊢
  rw [saveFst_rootEntry]
  rw [hsplit] at hnewPath hbelowNew hapart ⊢
  exact FstEntry.everywhere_moveEntry hP hlooked (makes_parent hold holdPath) hnewPath hbelowNew
    hapart

theorem movedNames_eq (hold : isValidNonRootPath oldPath = true)
    (h : movedNames oldPath <+: components oldPath) : movedNames oldPath = components oldPath := by
  obtain ⟨empty, hempty, hsplit⟩ := components_split hold
  obtain ⟨name, hname, hne⟩ := getLast?_components hold
  rw [hsplit, movedNames, List.append_assoc] at h ⊢
  cases empty with
  | nil => rfl
  | cons first empty =>
    have hfirst := (List.cons_prefix_cons.1 ((List.prefix_append_right_inj _).1 h)).1
    rw [hempty first (List.mem_cons_self ..)] at hfirst
    rw [hsplit, List.getLast?_concat, hfirst] at hname
    exact absurd (Option.some.inj hname).symm hne

theorem below_renameChecks (hold : isValidNonRootPath oldPath = true)
    (hnew : isValidNonRootPath newPath = true)
    (hapart : movedNames oldPath <+: components newPath → movedNames oldPath = components newPath)
    {depth : Nat} (h : s.rootEntry.Below P depth (movedNames oldPath)) :
    (renameChecks uid gid oldPath newPath s).2.rootEntry.Below P depth (movedNames oldPath) := by
  refine renameChecks_table (I := FstEntry.Below P depth (movedNames oldPath))
    (fun path hpath isFile root hroot => ?_) h
  refine FstEntry.below_updateAt (FstEntry.trims_refresh isFile) hroot fun hstarts => ?_
  have hlength := hstarts.length_le
  simp only [List.mem_cons, List.not_mem_nil, or_false] at hpath
  rcases hpath with rfl | rfl | rfl
  · rw [movedNames, List.length_append, List.length_singleton] at hlength
    omega
  · obtain ⟨empty, -, hsplit⟩ := components_split hnew
    have hbefore : components (splitPathAndBasename newPath).1 <+: components newPath := by
      rw [hsplit, List.append_assoc]
      exact List.prefix_append ..
    rw [hapart (hstarts.trans hbefore), hsplit, List.length_append, List.length_append,
      List.length_singleton] at hlength
    omega
  · exact movedNames_eq hold hstarts

theorem everywhere_rename (hP : FstEntry.Separate P) {host : Host} (hs : s.rootEntry.Everywhere P 0)
    (holdPath : FstEntry.Makes P 0 (components oldPath))
    (hnewPath : FstEntry.Makes P 0 (components newPath))
    (hbelow : s.rootEntry.Below P (components newPath).length (movedNames oldPath)) :
    (rename host uid gid oldPath newPath s).2.rootEntry.Everywhere P 0 := by
  have hinvalid : ¬ (isValidNonRootPath oldPath = true ∧ isValidNonRootPath newPath = true) →
      (renameChecks uid gid oldPath newPath s).2 = s := by
    intro hnot
    unfold renameChecks
    rw [if_pos]
    cases hold : isValidNonRootPath oldPath with
    | false => rfl
    | true => cases hnew : isValidNonRootPath newPath with
      | false => rfl
      | true => exact absurd ⟨hold, hnew⟩ hnot
  have hchecked : (renameChecks uid gid oldPath newPath s).2.rootEntry.Everywhere P 0 := by
    by_cases hvalid : isValidNonRootPath oldPath = true ∧ isValidNonRootPath newPath = true
    case neg => rwa [hinvalid hvalid]
    case pos =>
      refine renameChecks_table (I := FstEntry.Everywhere P 0)
        (fun path hpath isFile root hroot => ?_) hs
      have hmakes : FstEntry.Makes P 0 (components path) := by
        simp only [List.mem_cons, List.not_mem_nil, or_false] at hpath
        rcases hpath with rfl | rfl | rfl
        · exact makes_parent hvalid.1 holdPath
        · exact makes_parent hvalid.2 hnewPath
        · exact holdPath
      exact FstEntry.everywhere_updateAt hP hroot hmakes
        fun _ => FstEntry.everywhere_refresh hP isFile
  unfold rename
  have hok : ∀ parent, (renameChecks uid gid oldPath newPath s).1 = .ok parent →
      isValidNonRootPath oldPath = true ∧ isValidNonRootPath newPath = true ∧
        parent = components (splitPathAndBasename oldPath).1 := fun _ => renameChecks_ok
  have hbelowChecked : isValidNonRootPath oldPath = true → isValidNonRootPath newPath = true →
      (movedNames oldPath <+: components newPath → movedNames oldPath = components newPath) →
      (renameChecks uid gid oldPath newPath s).2.rootEntry.Below P (components newPath).length
        (movedNames oldPath) := fun hold hnew hapart => below_renameChecks hold hnew hapart hbelow
  generalize renameChecks uid gid oldPath newPath s = checked at hchecked hok hbelowChecked
  obtain ⟨code | oldParent, s₁⟩ := checked
  · exact hchecked
  obtain ⟨hold, hnew, rfl⟩ := hok oldParent rfl
  dsimp only at hchecked hbelowChecked ⊢
  split
  · exact hchecked
  · exact everywhere_renameOnHost hP hold hnew hchecked holdPath hnewPath
      (hbelowChecked hold hnew)

end Calls

end HostFileSystem

/-! ### What calls keep -/

section Perform
open HostFileSystem
variable {P : Nat → FstEntry → Prop}

/-- It holds of the entries that a request makes, and of what it moves. -/
def Request.Keeps (P : Nat → FstEntry → Prop) (root : FstEntry) : Request → Prop
  | createFile uid gid path attr modes | createDirectory uid gid path attr modes =>
    FstEntry.Makes P 0 (components path) ∧ FstEntry.Sets P uid gid attr modes
  | delete _ _ path => FstEntry.Makes P 0 (components (splitPathAndBasename path).1)
  | rename _ _ oldPath newPath =>
    (FstEntry.Makes P 0 (components oldPath) ∧ FstEntry.Makes P 0 (components newPath)) ∧
      root.Below P (components newPath).length (movedNames oldPath)
  | setMetadata _ path uid gid attr modes =>
    FstEntry.Makes P 0 (components path) ∧ FstEntry.Sets P uid gid attr modes
  | openFile .. => True
  | seekFile .. => True
  | readDirectory _ _ path => FstEntry.Makes P 0 (components path)

def Call.Keeps (P : Nat → FstEntry → Prop) (root : FstEntry) : Call → Prop
  | request r => r.Keeps P root
  | getMetadata _ _ path => FstEntry.Makes P 0 (components path)
  | _ => True

theorem everywhere_request (hP : FstEntry.Separate P) {host : Host} {s : HostFileSystem}
    {r : Request} (hs : s.rootEntry.Everywhere P 0) (h : r.Keeps P s.rootEntry) :
    (r.perform host s).2.rootEntry.Everywhere P 0 := by
  cases r with
  | createFile uid gid path attr modes =>
    exact everywhere_createFileOrDirectory hP hs h.1 h.2
  | createDirectory uid gid path attr modes =>
    exact everywhere_createFileOrDirectory hP hs h.1 h.2
  | delete uid gid path => exact everywhere_delete hP hs h
  | rename uid gid oldPath newPath => exact everywhere_rename hP hs h.1.1 h.1.2 h.2
  | setMetadata callerUid path uid gid attr modes => exact everywhere_setMetadata hP hs h.1 h.2
  | openFile uid gid path mode =>
    change (s.openFile host path mode).2.rootEntry.Everywhere P 0
    unfold HostFileSystem.openFile
    dsimp only
    split
    · exact hs
    · split_ifs
      · exact hs
      · exact hs
      · split <;> exact hs
  | seekFile fd offset mode =>
    change (s.seekFile fd offset mode).2.rootEntry.Everywhere P 0
    unfold HostFileSystem.seekFile
    dsimp only
    split
    · exact hs
    · split
      · exact hs
      · split_ifs <;> exact hs
  | readDirectory uid gid path => exact everywhere_readDirectory hP hs h

theorem everywhere_perform (hP : FstEntry.Separate P) (hreset : P 0 resetFst) {host : Host}
    {s : HostFileSystem} {call : Call} (hs : s.rootEntry.Everywhere P 0)
    (h : call.Keeps P s.rootEntry) : (call.perform host s).rootEntry.Everywhere P 0 := by
  cases call with
  | request r => exact everywhere_request hP hs h
  | format uid =>
    change (s.format host uid).2.rootEntry.Everywhere P 0
    unfold HostFileSystem.format
    dsimp only
    split_ifs
    · exact hs
    · exact hs
    · exact hs
    · change (saveFst host _).rootEntry.Everywhere P 0
      rw [saveFst_rootEntry]
      exact FstEntry.everywhere_leaf hreset rfl
  | close fd =>
    change (s.close fd).2.rootEntry.Everywhere P 0
    unfold HostFileSystem.close
    split <;> exact hs
  | readBytesFromFile fd count =>
    change (s.readBytesFromFile host fd count).2.rootEntry.Everywhere P 0
    unfold HostFileSystem.readBytesFromFile
    dsimp only
    split
    · exact hs
    · split_ifs <;> exact hs
  | writeBytesToFile fd bytes =>
    change (s.writeBytesToFile host fd bytes).2.rootEntry.Everywhere P 0
    unfold HostFileSystem.writeBytesToFile
    dsimp only
    split
    · exact hs
    · split_ifs <;> exact hs
  | getMetadata uid gid path => exact everywhere_getMetadata hP hs h

end Perform

end DolphinXR.IOS.FS
