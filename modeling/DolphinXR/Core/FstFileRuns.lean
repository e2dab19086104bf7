import DolphinXR.Core.FstFileCalls
import DolphinXR.Lib.Transition

/- That the table can be read back after any run of calls. The types of the source hold of every
   entry that calls make, and what the file can hold of a name and a depth does too, for calls with
   paths that it can hold. `CreateFile` checks neither: a file below the deepest directory there
   can be is written to the file, and then nothing of the file is read. -/
namespace DolphinXR.IOS.FS
open Common Lib

structure Metadata.Passed (uid gid attr : Nat) (modes : Modes) : Prop where
  uid : uid < 2 ^ 32
  gid : gid < 2 ^ 16
  attr : attr < 256
  owner : modes.owner < 256
  group : modes.group < 256
  other : modes.other < 256

def TypedPath (path : Text) : Prop := ∀ c ∈ path, c.toNat < 256

def Request.Typed : Request → Prop
  | createFile uid gid path attr modes | createDirectory uid gid path attr modes =>
    TypedPath path ∧ Metadata.Passed uid gid attr modes
  | delete _ _ path => TypedPath path
  | rename _ _ oldPath newPath => TypedPath oldPath ∧ TypedPath newPath
  | setMetadata _ path uid gid attr modes => TypedPath path ∧ Metadata.Passed uid gid attr modes
  | openFile .. => True
  | seekFile .. => True
  | readDirectory _ _ path => TypedPath path

def Call.Typed : Call → Prop
  | request r => r.Typed
  | getMetadata _ _ path => TypedPath path
  | _ => True

/-- The names of a path, and how many there are, are what the file can hold. -/
structure ShortPath (path : Text) : Prop where
  depth : (components path).length ≤ maxPathDepth
  length : ∀ name ∈ components path, name.length ≤ maxFilenameLength
  ended : ∀ name ∈ components path, '\x00' ∉ name

/-- The file can hold the paths of the request (of `Delete`, the parent), and what is below a
    renamed directory also below its new path. -/
def Request.Fits (root : FstEntry) : Request → Prop
  | createFile _ _ path _ _ | createDirectory _ _ path _ _ => ShortPath path
  | delete _ _ path => ShortPath (splitPathAndBasename path).1
  | rename _ _ oldPath newPath =>
    (ShortPath oldPath ∧ ShortPath newPath) ∧
      root.Below FstEntry.Short (components newPath).length (HostFileSystem.movedNames oldPath)
  | setMetadata _ path _ _ _ _ => ShortPath path
  | openFile .. => True
  | seekFile .. => True
  | readDirectory _ _ path => ShortPath path

def Call.Fits (root : FstEntry) : Call → Prop
  | request r => r.Fits root
  | getMetadata _ _ path => ShortPath path
  | _ => True

section Fits
open FstEntry

theorem separate_typed : Separate Typed where
  mix := fun _ ha hb => ⟨ha.name, hb.uid, hb.gid, hb.attr, hb.owner, hb.group, hb.other, hb.size,
    hb.fstIndex⟩
  isFile := fun _ ha => ⟨ha.name, ha.uid, ha.gid, ha.attr, ha.owner, ha.group, ha.other, ha.size,
    ha.fstIndex⟩

theorem separate_short : Separate Short where
  mix := fun _ ha _ => ⟨ha.depth, ha.length, ha.ended⟩
  isFile := fun _ ha => ⟨ha.depth, ha.length, ha.ended⟩

theorem sets_typed {uid gid attr : Nat} {modes : Modes} (h : Metadata.Passed uid gid attr modes) :
    Sets Typed uid gid attr modes :=
  fun ha => ⟨ha.name, h.uid, h.gid, h.attr, h.owner, h.group, h.other, ha.size, ha.fstIndex⟩

theorem sets_short {uid gid attr : Nat} {modes : Modes} : Sets Short uid gid attr modes :=
  fun ha => ⟨ha.depth, ha.length, ha.ended⟩

theorem everywhere_typed {depth other : Nat} {entry : FstEntry} (h : Everywhere Typed depth entry) :
    Everywhere Typed other entry := by
  induction h generalizing other with
  | intro here below ih =>
    exact .intro ⟨here.name, here.uid, here.gid, here.attr, here.owner, here.group, here.other,
      here.size, here.fstIndex⟩ fun child hchild => ih child hchild

theorem typed_defaultEntry {depth : Nat} {name : Text} (h : ∀ c ∈ name, c.toNat < 256) :
    Typed depth (defaultEntry name) where
  name := h
  uid := show 0 < 2 ^ 32 by decide
  gid := show 0 < 2 ^ 16 by decide
  attr := show 0 < 256 by decide
  owner := show Mode.readWrite < 256 by decide
  group := show Mode.readWrite < 256 by decide
  other := show Mode.readWrite < 256 by decide
  size := rfl
  fstIndex := rfl

theorem makes_typed {path : Text} (h : TypedPath path) (depth : Nat) :
    Makes Typed depth (components path) := by
  have hgeneral : ∀ names depth, (∀ name ∈ names, ∀ c ∈ name, c.toNat < 256) →
      Makes Typed depth names := by
    intro names
    induction names with
    | nil => exact fun _ _ => trivial
    | cons name names ih =>
      intro depth hnames
      obtain ⟨hname, hrest⟩ := List.forall_mem_cons.1 hnames
      exact ⟨typed_defaultEntry hname, ih _ hrest⟩
  exact hgeneral _ depth fun name hname c hc =>
    h c (List.mem_of_mem_tail (mem_of_mem_splitString hname hc))

theorem makes_short {path : Text} (h : ShortPath path) : Makes Short 0 (components path) := by
  have hgeneral : ∀ names depth, depth + names.length ≤ maxPathDepth →
      (∀ name ∈ names, name.length ≤ maxFilenameLength ∧ '\x00' ∉ name) →
      Makes Short depth names := by
    intro names
    induction names with
    | nil => exact fun _ _ _ => trivial
    | cons name names ih =>
      intro depth hdepth hnames
      obtain ⟨hname, hrest⟩ := List.forall_mem_cons.1 hnames
      rw [List.length_cons] at hdepth
      exact ⟨⟨by omega, hname.1, hname.2⟩, ih _ (by omega) hrest⟩
  exact hgeneral _ 0 (by rw [Nat.zero_add]; exact h.depth)
    fun name hname => ⟨h.length name hname, h.ended name hname⟩

theorem keeps_typed {call : Call} {root : FstEntry} (h : call.Typed)
    (hroot : root.Everywhere Typed 0) : call.Keeps Typed root := by
  cases call with
  | request r =>
    cases r with
    | createFile uid gid path attr modes => exact ⟨makes_typed h.1 0, sets_typed h.2⟩
    | createDirectory uid gid path attr modes => exact ⟨makes_typed h.1 0, sets_typed h.2⟩
    | delete uid gid path =>
      refine makes_typed (fun c hc => h c ?_) 0
      exact List.mem_of_mem_take hc
    | rename uid gid oldPath newPath =>
      refine ⟨⟨makes_typed h.1 0, makes_typed h.2 0⟩, fun found hfound child hchild => ?_⟩
      exact everywhere_typed ((everywhere_find hroot hfound).child child hchild)
    | setMetadata callerUid path uid gid attr modes => exact ⟨makes_typed h.1 0, sets_typed h.2⟩
    | openFile uid gid path mode => trivial
    | seekFile fd offset mode => trivial
    | readDirectory uid gid path => exact makes_typed h 0
  | getMetadata uid gid path => exact makes_typed h 0
  | format uid => trivial
  | close fd => trivial
  | readBytesFromFile fd count => trivial
  | writeBytesToFile fd bytes => trivial

theorem keeps_short {call : Call} {root : FstEntry} (h : call.Fits root) :
    call.Keeps Short root := by
  cases call with
  | request r =>
    cases r with
    | createFile uid gid path attr modes => exact ⟨makes_short h, sets_short⟩
    | createDirectory uid gid path attr modes => exact ⟨makes_short h, sets_short⟩
    | delete uid gid path => exact makes_short h
    | rename uid gid oldPath newPath => exact ⟨⟨makes_short h.1.1, makes_short h.1.2⟩, h.2⟩
    | setMetadata callerUid path uid gid attr modes => exact ⟨makes_short h, sets_short⟩
    | openFile uid gid path mode => trivial
    | seekFile fd offset mode => trivial
    | readDirectory uid gid path => exact makes_short h
  | getMetadata uid gid path => exact makes_short h
  | format uid => trivial
  | close fd => trivial
  | readBytesFromFile fd count => trivial
  | writeBytesToFile fd bytes => trivial

/-- The file that `SaveFst` writes is read back as the table it was written from. -/
def HostFileSystem.Kept (s : HostFileSystem) : Prop :=
  loadFst s.rootEntry.serialize = some s.rootEntry

def startedSystem (file : Option Bytes) : System HostFileSystem (Host × Call) where
  init s := s.rootEntry = startFst file
  step := HostFileSystem.step

theorem typed_of_reachable {file : Option Bytes} {s : HostFileSystem}
    (hs : (startedSystem file).ReachableBy (fun _ x => x.2.Typed) s) :
    s.rootEntry.Everywhere Typed 0 := by
  have hreset := (everywhere_startFst none).here
  refine hs.invariant (P := fun s => s.rootEntry.Everywhere Typed 0) (fun s hinit => ?_)
    fun s x s' h htyped hstep => ?_
  · have hstart := everywhere_startFst file
    rw [← show s.rootEntry = startFst file from hinit] at hstart
    exact hstart.mono fun _ _ h => h.1
  · obtain ⟨-, rfl⟩ := HostFileSystem.step_eq_some.1 hstep
    exact everywhere_perform separate_typed hreset.1 h (keeps_typed htyped h)

theorem short_of_reachable {file : Option Bytes} {s : HostFileSystem}
    (hs : (startedSystem file).ReachableBy (fun s x => x.2.Typed ∧ x.2.Fits s.rootEntry) s) :
    s.rootEntry.Everywhere Short 0 := by
  have hreset := (everywhere_startFst none).here
  refine hs.invariant (P := fun s => s.rootEntry.Everywhere Short 0) (fun s hinit => ?_)
    fun s x s' h hcall hstep => ?_
  · have hstart := everywhere_startFst file
    rw [← show s.rootEntry = startFst file from hinit] at hstart
    exact hstart.mono fun _ _ h => h.2.1
  · obtain ⟨-, rfl⟩ := HostFileSystem.step_eq_some.1 hstep
    exact everywhere_perform separate_short hreset.2.1 h (keeps_short hcall.2)

/-- In a run from a start, as long as what the calls do is defined, the file keeps the table just
    where it can hold the depth, the name and the number of children of each entry; and as far as
    depths and names go it can, if it can hold those of every call. -/
theorem fst_file_kept (file : Option Bytes) :
    (∀ s, (startedSystem file).ReachableBy (fun _ x => x.2.Typed) s →
      (s.Kept ↔ s.rootEntry.Everywhere (fun depth entry => Short depth entry ∧ Counted depth entry)
        0)) ∧
    ∀ s, (startedSystem file).ReachableBy (fun s x => x.2.Typed ∧ x.2.Fits s.rootEntry) s →
      s.rootEntry.Everywhere Counted 0 → s.Kept := by
  have hkept : ∀ s, (startedSystem file).ReachableBy (fun _ x => x.2.Typed) s →
      (s.Kept ↔ s.rootEntry.Everywhere (fun depth entry => Short depth entry ∧ Counted depth entry)
        0) := by
    intro s hs
    refine (loadFst_serialize _).trans ⟨fun h => h.mono fun _ _ hheld => hheld.2, fun h => ?_⟩
    exact (typed_of_reachable hs).and h
  refine ⟨hkept, fun s hs hcounted => (hkept s (hs.mono fun _ _ h => h.1)).2 ?_⟩
  exact (short_of_reachable hs).and hcounted

/-- A directory with a file in it, which is then renamed. -/
def renamedDirectory : List (Host × Call) :=
  [(fun _ => true, .request (.createDirectory 0 0 "/d".toList 0 ⟨3, 3, 3⟩)),
    (fun _ => true, .request (.createFile 0 0 "/d/f".toList 5 ⟨3, 1, 0⟩)),
    (fun _ => true, .request (.rename 0 0 "/d".toList "/e".toList))]

theorem reachable_renamedDirectory : (startedSystem none).ReachableBy
    (fun s x => x.2.Typed ∧ x.2.Fits s.rootEntry) (formatted.run renamedDirectory) := by
  have hpath : ∀ path ∈ ["/d".toList, "/d/f".toList, "/e".toList], TypedPath path ∧ ShortPath path := by
    intro path hmem
    have hall : ∀ path ∈ ["/d".toList, "/d/f".toList, "/e".toList],
        path.all (fun c => decide (c.toNat < 256)) = true ∧
          (components path).length ≤ maxPathDepth ∧
          (∀ name ∈ components path, name.length ≤ maxFilenameLength) ∧
          ∀ name ∈ components path, '\x00' ∉ name := by decide
    obtain ⟨htyped, hdepth, hlength, hended⟩ := hall path hmem
    exact ⟨fun c hc => of_decide_eq_true (List.all_eq_true.1 htyped c hc), hdepth, hlength, hended⟩
  have hstart : (startedSystem none).ReachableBy (fun s x => x.2.Typed ∧ x.2.Fits s.rootEntry)
      formatted := .init rfl
  have hmade := hstart.step (a := renamedDirectory[0]) ⟨⟨(hpath _ (by decide)).1, by decide,
    by decide, by decide, by decide, by decide, by decide⟩, (hpath _ (by decide)).2⟩ rfl
  have hfilled := hmade.step (a := renamedDirectory[1]) ⟨⟨(hpath _ (by decide)).1, by decide,
    by decide, by decide, by decide, by decide, by decide⟩, (hpath _ (by decide)).2⟩ rfl
  refine hfilled.step (a := renamedDirectory[2]) ⟨⟨(hpath _ (by decide)).1, (hpath _ (by decide)).1⟩,
    ⟨(hpath _ (by decide)).2, (hpath _ (by decide)).2⟩, ?_⟩ ?_
  · intro found hfound child hchild
    have hentry : (formatted.run (renamedDirectory.take 2)).rootEntry.find
        (HostFileSystem.movedNames "/d".toList) =
          some { name := ['d'], data := { modes := ⟨3, 3, 3⟩ }, children := [
            { name := ['f'], data := { attr := 5, modes := ⟨3, 1, 0⟩, isFile := true } }] } := by
      rfl
    cases hentry.symm.trans hfound
    rw [List.mem_singleton.1 hchild]
    exact everywhere_leaf ⟨by decide, by decide, by decide⟩ rfl
  · have hdefined : renamedDirectory[2].2.dangles renamedDirectory[2].1
        (formatted.run (renamedDirectory.take 2)) = false := by decide +kernel
    exact HostFileSystem.step_eq_some.2 ⟨hdefined, rfl⟩

theorem fst_file_kept_renamedDirectory : (formatted.run renamedDirectory).Kept := by
  refine (fst_file_kept none).2 _ reachable_renamedDirectory ?_
  have htable : (formatted.run renamedDirectory).rootEntry =
      { resetFst with
        children := [{ name := ['e'], data := { modes := ⟨3, 3, 3⟩ }, children := [
          { name := ['f'], data := { attr := 5, modes := ⟨3, 1, 0⟩, isFile := true } }] }] } := by
    rfl
  rw [htable]
  refine .intro (by unfold Counted; decide) fun child hchild => ?_
  rw [List.mem_singleton.1 hchild]
  refine .intro (by unfold Counted; decide) fun child hchild => ?_
  rw [List.mem_singleton.1 hchild]
  exact everywhere_leaf (by unfold Counted; decide) rfl

/-- Directories down to the deepest that can be made, and a file in the last. -/
def deepRequests : List Request :=
  let path := fun depth => (List.replicate depth "/d".toList).flatten
  (List.range' 1 8).map (fun depth => .createDirectory 0 0 (path depth) 0 ⟨3, 3, 3⟩) ++
    [.createFile 0 0 (path 9) 0 ⟨3, 3, 3⟩]

def deepFile : List (Host × Call) := deepRequests.map fun r => (fun _ => true, .request r)

/-- All is made, and nothing of the file is read. -/
theorem deepFile_not_kept : ¬ ∀ calls : List (Host × Call),
    (∀ (n : Nat) (host : Host) (r : Request), calls[n]? = some (host, .request r) →
      (r.perform host (formatted.run (calls.take n))).1 = .success) →
    (formatted.run calls).Kept := by
  intro h
  have hsuccess : ∀ n < 9, ((deepRequests[n]?).all fun r =>
      decide ((r.perform (fun _ => true) (formatted.run (deepFile.take n))).1 = .success)) =
        true := by decide +kernel
  have hlost : (loadFst (formatted.run deepFile).rootEntry.serialize).isNone = true := by
    decide +kernel
  have hkept := h deepFile fun n host r hr => by
    have hn : n < 9 := (List.getElem?_eq_some_iff.1 hr).1
    rw [deepFile, List.getElem?_map] at hr
    obtain ⟨r', hrequest, heq⟩ := Option.map_eq_some_iff.1 hr
    cases heq
    have hone := hsuccess n hn
    rw [hrequest] at hone
    exact of_decide_eq_true hone
  rw [HostFileSystem.Kept] at hkept
  rw [hkept] at hlost
  cases hlost

end Fits

end DolphinXR.IOS.FS
