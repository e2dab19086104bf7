import DolphinXR.Core.HostFileSystem

/- What is read of the file that `SaveFst` writes (`LoadFst`, Core/IOS/FS/HostBackend/FS.cpp). The
   file has 0x20 bytes for each entry, in front of those of its children. An entry deeper than
   `MaxPathDepth` makes the whole file invalid, and a name ends behind 12 characters or in front of
   a zero. So a table is read back as it was just if each of its entries is one that the file can
   hold: all that is read is such a table, and each such table is read back. -/
namespace DolphinXR.IOS.FS
open Common Lib

/-- As many as a count says, one behind the other. -/
def readMany {α : Type} (read : Bytes → Option (α × Bytes)) : Nat → Bytes → Option (List α × Bytes)
  | 0, file => some ([], file)
  | count + 1, file =>
    match read file with
    | none => none
    | some (first, file) => (readMany read count file).map fun x => (first :: x.1, x.2)

namespace FstEntry

def getName (entry : Bytes) : Text :=
  ((entry.take 12).takeWhile (· ≠ 0)).map fun b => Char.ofNat b.toNat

/-- What a `SerializedFstEntry` says, but for the children. -/
def ofSerialized (entry : Bytes) : FstEntry :=
  let byte := fun i => (entry.getD i 0).toNat
  { name := getName entry
    data :=
      { uid := readBE (slice entry 12 4)
        gid := readBE (slice entry 16 2)
        isFile := byte 18 ≠ 0
        modes := ⟨byte 19, byte 20, byte 21⟩
        attr := byte 22 } }

def numChildren (entry : Bytes) : Nat := readBE (slice entry 28 4)

/-- `parse_entry`, with the number of levels that are left; what is read and what is behind it. -/
def parseEntry : Nat → Bytes → Option (FstEntry × Bytes)
  | 0, _ => none
  | levels + 1, file =>
    if file.length < 0x20 then none
    else
      let entry := file.take 0x20
      (readMany (parseEntry levels) (numChildren entry) (file.drop 0x20)).map fun x =>
        ({ ofSerialized entry with children := x.1 }, x.2)

end FstEntry

/-- The depths are 0 to `MaxPathDepth`. -/
def loadFst (file : Bytes) : Option FstEntry :=
  (FstEntry.parseEntry (maxPathDepth + 1) file).map Prod.fst

/-- The table of a file system that is made where there is such a file, or none. -/
def startFst (file : Option Bytes) : FstEntry := (file.bind loadFst).getD resetFst

namespace FstEntry

/-- It holds of an entry and of all below it, each at its depth. -/
inductive Everywhere (P : Nat → FstEntry → Prop) : Nat → FstEntry → Prop where
  | intro {depth : Nat} {entry : FstEntry} (here : P depth entry)
      (below : ∀ child ∈ entry.children, Everywhere P (depth + 1) child) : Everywhere P depth entry

section Everywhere
variable {P Q : Nat → FstEntry → Prop} {depth : Nat} {entry : FstEntry}

theorem Everywhere.here (h : Everywhere P depth entry) : P depth entry := by
  cases h with
  | intro here below => exact here

theorem Everywhere.child (h : Everywhere P depth entry) :
    ∀ child ∈ entry.children, Everywhere P (depth + 1) child := by
  cases h with
  | intro here below => exact below

theorem Everywhere.mono (hPQ : ∀ depth entry, P depth entry → Q depth entry)
    (h : Everywhere P depth entry) : Everywhere Q depth entry := by
  induction h with
  | intro here below ih => exact .intro (hPQ _ _ here) ih

theorem Everywhere.and (hP : Everywhere P depth entry) (hQ : Everywhere Q depth entry) :
    Everywhere (fun depth entry => P depth entry ∧ Q depth entry) depth entry := by
  induction hP with
  | intro here below ih =>
    exact .intro ⟨here, hQ.here⟩ fun child hchild => ih child hchild (hQ.child child hchild)

end Everywhere

/-- The types of the source hold what the entry says. What the file leaves out has its default. -/
structure Typed (_ : Nat) (entry : FstEntry) : Prop where
  name : ∀ c ∈ entry.name, c.toNat < 256
  uid : entry.data.uid < 2 ^ 32
  gid : entry.data.gid < 2 ^ 16
  attr : entry.data.attr < 256
  owner : entry.data.modes.owner < 256
  group : entry.data.modes.group < 256
  other : entry.data.modes.other < 256
  size : entry.data.size = 0
  fstIndex : entry.data.fstIndex = 0

structure Short (depth : Nat) (entry : FstEntry) : Prop where
  depth : depth ≤ maxPathDepth
  length : entry.name.length ≤ maxFilenameLength
  ended : '\x00' ∉ entry.name

def Counted (_ : Nat) (entry : FstEntry) : Prop := entry.children.length < 2 ^ 32

/-! ### What is read -/

section ReadMany
variable {α : Type} {read : Bytes → Option (α × Bytes)} {file rest : Bytes} {xs : List α}

theorem readMany_succ {count : Nat} (h : readMany read (count + 1) file = some (xs, rest)) :
    ∃ first others behind, read file = some (first, behind) ∧
      readMany read count behind = some (others, rest) ∧ xs = first :: others := by
  unfold readMany at h
  cases hread : read file with
  | none => rw [hread] at h; cases h
  | some x =>
    rw [hread] at h
    obtain ⟨y, hy, hxs⟩ := Option.map_eq_some_iff.1 h
    obtain ⟨rfl, rfl⟩ := Prod.mk.inj hxs
    exact ⟨x.1, y.1, x.2, rfl, hy, rfl⟩

theorem length_readMany {count : Nat} (h : readMany read count file = some (xs, rest)) :
    xs.length = count := by
  induction count generalizing file xs with
  | zero =>
    obtain ⟨rfl, -⟩ := Prod.mk.inj (Option.some.inj h)
    rfl
  | succ count ih =>
    obtain ⟨first, others, behind, -, hothers, rfl⟩ := readMany_succ h
    rw [List.length_cons, ih hothers]

theorem forall_readMany {P : α → Prop} (hread : ∀ file x rest, read file = some (x, rest) → P x)
    {count : Nat} (h : readMany read count file = some (xs, rest)) : ∀ x ∈ xs, P x := by
  induction count generalizing file xs with
  | zero =>
    obtain ⟨rfl, -⟩ := Prod.mk.inj (Option.some.inj h)
    exact fun x hx => absurd hx List.not_mem_nil
  | succ count ih =>
    obtain ⟨first, others, behind, hfirst, hothers, rfl⟩ := readMany_succ h
    exact List.forall_mem_cons.2 ⟨hread _ _ _ hfirst, ih hothers⟩

end ReadMany

theorem toNat_ofByte (b : UInt8) : (Char.ofNat b.toNat).toNat = b.toNat := by
  have hb := b.toNat_lt
  rw [Char.ofNat, dif_pos (.inl (by omega))]
  rfl

theorem typed_ofSerialized (depth : Nat) (entry : Bytes) (children : List FstEntry) :
    Typed depth { ofSerialized entry with children } := by
  have hnumber : ∀ off width, readBE (slice entry off width) < 256 ^ width := by
    intro off width
    refine (readBE_lt _).trans_le (Nat.pow_le_pow_right (by decide) ?_)
    rw [slice]
    exact List.length_take_le ..
  refine ⟨?_, hnumber 12 4, hnumber 16 2, UInt8.toNat_lt _, UInt8.toNat_lt _, UInt8.toNat_lt _,
    UInt8.toNat_lt _, rfl, rfl⟩
  intro c hc
  obtain ⟨b, -, rfl⟩ := List.mem_map.1 hc
  rw [toNat_ofByte]
  exact b.toNat_lt

theorem short_ofSerialized {depth : Nat} (hdepth : depth ≤ maxPathDepth) (entry : Bytes)
    (children : List FstEntry) : Short depth { ofSerialized entry with children } := by
  refine ⟨hdepth, ?_, ?_⟩
  · change (getName entry).length ≤ 12
    rw [getName, List.length_map]
    exact (List.takeWhile_sublist _).length_le.trans (List.length_take_le ..)
  · intro hzero
    obtain ⟨b, hb, hchar⟩ := List.mem_map.1 hzero
    have hne : b ≠ 0 := by simpa using List.mem_takeWhile_imp hb
    have hnat := congrArg Char.toNat hchar
    rw [toNat_ofByte] at hnat
    exact hne (UInt8.toNat_inj.1 hnat)

def Held (depth : Nat) (entry : FstEntry) : Prop :=
  Typed depth entry ∧ Short depth entry ∧ Counted depth entry

theorem everywhere_of_parseEntry {levels depth : Nat} {file rest : Bytes} {entry : FstEntry}
    (hdepth : depth + levels = maxPathDepth + 1)
    (h : parseEntry levels file = some (entry, rest)) : Everywhere Held depth entry := by
  induction levels generalizing depth file rest entry with
  | zero => cases h
  | succ levels ih =>
    unfold parseEntry at h
    split at h
    case isTrue => cases h
    case isFalse =>
      obtain ⟨⟨children, behind⟩, hchildren, heq⟩ := Option.map_eq_some_iff.1 h
      obtain ⟨rfl, rfl⟩ := Prod.mk.inj heq
      have hcount : children.length < 2 ^ 32 := by
        have hlt := readBE_lt (slice (file.take 0x20) 28 4)
        rw [length_readMany hchildren]
        exact hlt.trans_le (Nat.pow_le_pow_right (show 0 < 256 by decide) (List.length_take_le ..))
      have hle : depth ≤ maxPathDepth := by omega
      refine .intro ⟨typed_ofSerialized .., short_ofSerialized hle .., hcount⟩ ?_
      exact forall_readMany (fun file child rest hchild => ih (by omega) hchild) hchildren

/-! ### What is written -/

def byte (n : Nat) : UInt8 := UInt8.ofNat n

/-- What `SetName` makes of a name. -/
def setName (name : Text) : Bytes :=
  let cut := (name.take 12).map fun c => byte c.toNat
  cut ++ List.replicate (12 - cut.length) 0

def flags (data : Metadata) : Bytes :=
  [byte data.isFile.toNat, byte data.modes.owner, byte data.modes.group, byte data.modes.other,
    byte data.attr, 0]

/-- The `SerializedFstEntry` of an entry. -/
def serialized (entry : FstEntry) : Bytes :=
  setName entry.name ++ be 4 entry.data.uid ++ be 2 entry.data.gid ++ flags entry.data ++
    be 4 0 ++ be 4 entry.children.length

theorem serialize_eq (entry : FstEntry) :
    entry.serialize = entry.serialized ++ serialize.serializeAll entry.children := by
  cases entry with
  | mk name data children => rw [serialize]; rfl

theorem toNat_byte {n : Nat} (h : n < 256) : (byte n).toNat = n := by
  rw [byte, UInt8.toNat_ofNat', Nat.mod_eq_of_lt h]

theorem length_setName (name : Text) : (setName name).length = 12 := by
  have hle : (name.take 12).length ≤ 12 := List.length_take_le ..
  rw [setName, List.length_append, List.length_replicate, List.length_map]
  omega

theorem length_serialized (entry : FstEntry) : entry.serialized.length = 0x20 := by
  simp [serialized, length_setName, flags]

theorem getName_setName {name : Text} (rest : Bytes) (hchar : ∀ c ∈ name, c.toNat < 256)
    (hlength : name.length ≤ 12) (hended : '\x00' ∉ name) :
    getName (setName name ++ rest) = name := by
  have hread : ∀ c ∈ name, Char.ofNat (byte c.toNat).toNat = c := by
    intro c hc
    rw [toNat_byte (hchar c hc), Char.ofNat_toNat]
  have hzero : ∀ b ∈ name.map fun c => byte c.toNat, decide (b ≠ 0) = true := by
    intro b hb
    obtain ⟨c, hc, rfl⟩ := List.mem_map.1 hb
    refine decide_eq_true fun hzero => hended ?_
    have hchar := hread c hc
    rw [hzero] at hchar
    rwa [← hchar] at hc
  have hpad : ∀ n, (List.replicate n (0 : UInt8)).takeWhile (· ≠ 0) = [] := by
    intro n
    cases n with
    | zero => rfl
    | succ n => rfl
  rw [getName, List.take_left' (length_setName name), setName, List.take_of_length_le hlength,
    List.takeWhile_append_of_pos hzero, hpad, List.append_nil, List.map_map]
  exact (List.map_congr_left hread).trans (List.map_id _)

theorem getD_flags {before rest : Bytes} {data : Metadata} (hbefore : before.length = 18)
    (i : Nat) :
    (before ++ (flags data ++ rest)).getD (18 + i) 0 = (flags data ++ rest).getD i 0 := by
  rw [List.getD_eq_getElem?_getD, List.getElem?_append_right (by omega), hbefore,
    Nat.add_sub_cancel_left, ← List.getD_eq_getElem?_getD]

theorem ofSerialized_serialized {depth : Nat} {entry : FstEntry} (htyped : Typed depth entry)
    (hshort : Short depth entry) (children : List FstEntry) :
    { ofSerialized entry.serialized with children } = { entry with children } := by
  have hname : getName entry.serialized = entry.name := by
    have hread := getName_setName (be 4 entry.data.uid ++ (be 2 entry.data.gid ++
      (flags entry.data ++ (be 4 0 ++ be 4 entry.children.length)))) htyped.name hshort.length
      hshort.ended
    simpa only [serialized, List.append_assoc] using hread
  have huid : readBE (slice entry.serialized 12 4) = entry.data.uid := by
    have hslice := slice_middle (setName entry.name) (be 4 entry.data.uid) (be 2 entry.data.gid ++
      (flags entry.data ++ (be 4 0 ++ be 4 entry.children.length)))
    rw [length_setName, length_be] at hslice
    simp only [serialized, List.append_assoc]
    rw [hslice, readBE_be]
    exact Nat.mod_eq_of_lt htyped.uid
  have hgid : readBE (slice entry.serialized 16 2) = entry.data.gid := by
    have hslice := slice_middle (setName entry.name ++ be 4 entry.data.uid) (be 2 entry.data.gid)
      (flags entry.data ++ (be 4 0 ++ be 4 entry.children.length))
    rw [List.length_append, length_setName, length_be, length_be] at hslice
    simp only [serialized, List.append_assoc] at hslice ⊢
    rw [hslice, readBE_be]
    exact Nat.mod_eq_of_lt htyped.gid
  have hflags : ∀ i, entry.serialized.getD (18 + i) 0 =
      (flags entry.data ++ (be 4 0 ++ be 4 entry.children.length)).getD i 0 := by
    intro i
    have hlength : (setName entry.name ++ be 4 entry.data.uid ++
        be 2 entry.data.gid).length = 18 := by simp [length_setName]
    have hsplit : entry.serialized = (setName entry.name ++ be 4 entry.data.uid ++
        be 2 entry.data.gid) ++ (flags entry.data ++ (be 4 0 ++ be 4 entry.children.length)) := by
      simp only [serialized, List.append_assoc]
    rw [hsplit, getD_flags hlength]
  have hisFile : (entry.serialized.getD 18 0).toNat ≠ 0 ↔ entry.data.isFile = true := by
    rw [hflags 0]
    change (byte entry.data.isFile.toNat).toNat ≠ 0 ↔ _
    cases entry.data.isFile with
    | true => exact iff_of_true (by decide) rfl
    | false => exact iff_of_false (by decide) nofun
  have howner : (entry.serialized.getD 19 0).toNat = entry.data.modes.owner := by
    rw [hflags 1]
    exact toNat_byte htyped.owner
  have hgroup : (entry.serialized.getD 20 0).toNat = entry.data.modes.group := by
    rw [hflags 2]
    exact toNat_byte htyped.group
  have hother : (entry.serialized.getD 21 0).toNat = entry.data.modes.other := by
    rw [hflags 3]
    exact toNat_byte htyped.other
  have hattr : (entry.serialized.getD 22 0).toNat = entry.data.attr := by
    rw [hflags 4]
    exact toNat_byte htyped.attr
  have hdata : (ofSerialized entry.serialized).data = entry.data := by
    have hsize := htyped.size
    have hindex := htyped.fstIndex
    simp only [ofSerialized, huid, hgid, hisFile, howner, hgroup, hother, hattr]
    generalize entry.data = data at hsize hindex ⊢
    obtain ⟨uid, gid, attr, modes, isFile, size, fstIndex⟩ := data
    obtain rfl : size = 0 := hsize
    obtain rfl : fstIndex = 0 := hindex
    rw [Bool.decide_eq_true]
  exact congrArg₂ (fun name data => FstEntry.mk name data children) hname hdata

theorem numChildren_serialized {depth : Nat} {entry : FstEntry} (h : Counted depth entry) :
    numChildren entry.serialized = entry.children.length := by
  have hslice := slice_middle (setName entry.name ++ be 4 entry.data.uid ++ be 2 entry.data.gid ++
    flags entry.data ++ be 4 0) (be 4 entry.children.length) []
  have hlength : (setName entry.name ++ be 4 entry.data.uid ++ be 2 entry.data.gid ++
      flags entry.data ++ be 4 0).length = 28 := by simp [length_setName, flags]
  rw [hlength, length_be, List.append_nil] at hslice
  rw [numChildren, serialized, hslice, readBE_be]
  exact Nat.mod_eq_of_lt h

/-! ### The round trip -/

theorem readMany_serializeAll {levels : Nat} {children : List FstEntry}
    (h : ∀ child ∈ children, ∀ rest,
      parseEntry levels (child.serialize ++ rest) = some (child, rest))
    (rest : Bytes) :
    readMany (parseEntry levels) children.length (serialize.serializeAll children ++ rest) =
      some (children, rest) := by
  induction children with
  | nil => rfl
  | cons child others ih =>
    obtain ⟨hchild, hothers⟩ := List.forall_mem_cons.1 h
    rw [List.length_cons, readMany, serialize.serializeAll, List.append_assoc, hchild]
    change Option.map _ (readMany _ _ _) = _
    rw [ih hothers]
    rfl

theorem parseEntry_serialize {levels depth : Nat} {entry : FstEntry}
    (h : Everywhere Held depth entry) (hdepth : depth + levels = maxPathDepth + 1) (rest : Bytes) :
    parseEntry levels (entry.serialize ++ rest) = some (entry, rest) := by
  induction h generalizing levels rest with
  | @intro depth entry here below ih =>
    obtain ⟨htyped, hshort, hcounted⟩ := here
    cases levels with
    | zero =>
      have hle := hshort.depth
      omega
    | succ levels =>
      have hbelow : ∀ child ∈ entry.children, ∀ rest,
          parseEntry levels (child.serialize ++ rest) = some (child, rest) :=
        fun child hchild => ih child hchild (by omega)
      have hchildren := readMany_serializeAll hbelow rest
      have hlength : ¬ (entry.serialize ++ rest).length < 0x20 := by
        rw [serialize_eq, List.append_assoc, List.length_append, length_serialized]
        omega
      unfold parseEntry
      rw [if_neg hlength, serialize_eq, List.append_assoc,
        List.take_left' (length_serialized entry), List.drop_left' (length_serialized entry)]
      simp only [numChildren_serialized hcounted, hchildren, Option.map_some,
        ofSerialized_serialized htyped hshort]
      cases entry with
      | mk name data children => rfl

end FstEntry

theorem loadFst_serialize (root : FstEntry) :
    loadFst root.serialize = some root ↔ root.Everywhere FstEntry.Held 0 := by
  constructor
  · intro h
    obtain ⟨⟨entry, rest⟩, hparse, rfl⟩ := Option.map_eq_some_iff.1 h
    exact FstEntry.everywhere_of_parseEntry (Nat.zero_add _) hparse
  · intro h
    have hparse := FstEntry.parseEntry_serialize h (Nat.zero_add _) []
    rw [List.append_nil] at hparse
    rw [loadFst, hparse]
    rfl

theorem everywhere_startFst (file : Option Bytes) : (startFst file).Everywhere FstEntry.Held 0 := by
  have hreset : resetFst.Everywhere FstEntry.Held 0 := by
    refine .intro ⟨?_, ⟨by decide, by decide, by decide⟩, Nat.zero_lt_succ _⟩ fun child hchild => ?_
    · exact ⟨List.all_iff_forall_prop.1 (by decide), by decide, by decide, by decide, by decide,
        by decide, by decide, rfl, rfl⟩
    · exact absurd hchild List.not_mem_nil
  cases hload : file.bind loadFst with
  | none =>
    rw [startFst, hload]
    exact hreset
  | some root =>
    obtain ⟨bytes, -, hroot⟩ := Option.bind_eq_some_iff.1 hload
    obtain ⟨⟨entry, rest⟩, hparse, rfl⟩ := Option.map_eq_some_iff.1 hroot
    rw [startFst, hload]
    exact FstEntry.everywhere_of_parseEntry (Nat.zero_add _) hparse

end DolphinXR.IOS.FS
