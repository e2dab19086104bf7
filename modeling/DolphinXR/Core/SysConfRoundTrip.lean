import Mathlib.Algebra.Order.BigOperators.Group.List
import DolphinXR.Core.SysConf

/- What `Load` gets of a file that `Save` wrote. Behind each entry stands what is written of the
   ones behind it and then zeros, so an entry is read back as it was, except for a small array of
   256 bytes: its size is 0 as a byte, so the length byte is right but none of its bytes are
   written, and 256 bytes of what stands behind it are read in their place. And where a file is
   rejected, the entries that were read before stay in front of the default ones. -/
namespace DolphinXR.SysConf
open Lib

section At
variable {content m : Bytes} {position : Nat}

theorem seek_of_le {offset : Nat} (h : offset ≤ content.length) :
    FileHandle.seek offset ⟨content, position⟩ = ⟨content, offset⟩ :=
  if_neg (Nat.not_lt.2 h)

theorem read_at (h : At content position m) :
    FileHandle.read m.length ⟨content, position⟩ = (m, ⟨content, position + m.length⟩) := by
  have hslice : slice content position m.length = m := h
  simp only [FileHandle.read, hslice, Nat.sub_self, List.replicate_zero, List.append_nil]

theorem readOffsets_at {offsets : List Nat} (hoffsets : ∀ offset ∈ offsets, offset < 2 ^ 16)
    (h : At content position (offsets.flatMap (be 2))) :
    readOffsets offsets.length ⟨content, position⟩ =
      (offsets, ⟨content, position + 2 * offsets.length⟩) := by
  induction offsets generalizing position with
  | nil => rfl
  | cons offset offsets ih =>
    obtain ⟨hoffset, hrest⟩ := List.forall_mem_cons.1 hoffsets
    rw [List.flatMap_cons, at_append] at h
    have hread := read_at h.1
    have hothers := ih hrest h.2
    have hvalue : readBE (be 2 offset) = offset :=
      (readBE_be 2 offset).trans (Nat.mod_eq_of_lt hoffset)
    rw [length_be] at hread hothers
    rw [List.length_cons, readOffsets, hread]
    simp only [hothers, hvalue]
    rw [Nat.mul_add, Nat.mul_one, Nat.add_assoc, Nat.add_comm 2]

end At

/-! ### One entry -/

structure Entry.Loaded (e : Entry) : Prop where
  name : 0 < e.name.length ∧ e.name.length ≤ 32
  bytes : match e.type with
    | .bigArray => 0 < e.bytes.length ∧ e.bytes.length ≤ 2 ^ 16
    | .smallArray => 0 < e.bytes.length ∧ e.bytes.length ≤ 2 ^ 8
    | type => e.bytes.length = getNonArrayEntrySize type

/-- The size of an entry in the format. -/
def Entry.size (e : Entry) : Nat :=
  1 + e.name.length + (match e.type with
    | .bigArray => 2
    | .smallArray => 1
    | _ => 0) + e.bytes.length

def Entry.Full (e : Entry) : Prop := e.type = .smallArray ∧ e.bytes.length = 2 ^ 8

instance (e : Entry) : Decidable e.Full := inferInstanceAs (Decidable (_ ∧ _))

/-- The entry that is read where `e` was written and `behind` stands behind it. -/
def readBack (e : Entry) (behind : Bytes) : Entry :=
  if e.Full then { e with bytes := behind.take (2 ^ 8) } else e

theorem readBE_singleton (b : UInt8) : readBE [b] = b.toNat := by simp [readBE]

theorem description_eq : ∀ (type : EntryType) (n : Fin 32),
    let description := UInt8.ofNat type.code <<< 5 ||| (UInt8.ofNat (n + 1) - 1)
    EntryType.ofCode ((description.toNat &&& 0xe0) >>> 5) = some type ∧
      (description.toNat &&& 0x1f) + 1 = n + 1 := by
  intro type
  cases type with
  | _ => decide

/-- The data of an entry, and the length in front of an array's. -/
def dataBytes (item : Entry) : Bytes :=
  match item.type with
  | .bigArray =>
    let dataSize := item.bytes.length % 2 ^ 16
    be 2 (dataSize + 2 ^ 16 - 1) ++ item.bytes.take dataSize
  | .smallArray =>
    let dataSize := item.bytes.length % 2 ^ 8
    be 1 (dataSize + 2 ^ 8 - 1) ++ item.bytes.take dataSize
  | _ => item.bytes

theorem entryBytes_eq (item : Entry) :
    entryBytes item = [UInt8.ofNat item.type.code <<< 5 ||| (UInt8.ofNat item.name.length - 1)] ++
      (item.name ++ dataBytes item) := by
  obtain ⟨type, name, bytes⟩ := item
  cases type with
  | _ => rfl

theorem readBE_stored {width length : Nat} (hpos : 0 < length) (hle : length ≤ 256 ^ width) :
    readBE (be width (length % 256 ^ width + 256 ^ width - 1)) + 1 = length := by
  rw [readBE_be]
  rcases Nat.lt_or_eq_of_le hle with hlt | rfl
  · have hsum : length + 256 ^ width - 1 = length - 1 + 256 ^ width := by omega
    rw [Nat.mod_eq_of_lt hlt, hsum, Nat.add_mod_right, Nat.mod_eq_of_lt (by omega)]
    omega
  · rw [Nat.mod_self, Nat.zero_add, Nat.mod_eq_of_lt (by omega)]
    omega

section Data
variable {content : Bytes} {position : Nat}

theorem read_of_le {count : Nat} (h : position + count ≤ content.length) :
    FileHandle.read count ⟨content, position⟩ =
      (slice content position count, ⟨content, position + count⟩) := by
  have hlength := length_slice h
  simp only [FileHandle.read, hlength, Nat.sub_self, List.replicate_zero, List.append_nil]

theorem readArray_at (width : Nat) {bytes : Bytes} (hpos : 0 < bytes.length)
    (hlt : bytes.length < 256 ^ width)
    (h : At content position (be width (bytes.length % 256 ^ width + 256 ^ width - 1) ++
      bytes.take (bytes.length % 256 ^ width))) :
    ∃ next, (FileHandle.read width ⟨content, position⟩).2.read
        (readBE (FileHandle.read width ⟨content, position⟩).1 + 1) = (bytes, ⟨content, next⟩) := by
  obtain ⟨hlength, hbytes⟩ := at_append.1 h
  have hread := read_at hlength
  rw [length_be] at hread hbytes
  rw [Nat.mod_eq_of_lt hlt, List.take_length] at hbytes
  refine ⟨position + width + bytes.length, ?_⟩
  rw [hread, readBE_stored hpos hlt.le]
  exact read_at hbytes

theorem readData_at {e : Entry} (he : e.Loaded)
    (hbig : e.type = .bigArray → e.bytes.length < 2 ^ 16) (h : At content position (dataBytes e))
    (hbehind : e.Full → position + (dataBytes e).length + 2 ^ 8 ≤ content.length) :
    ∃ next, (readLength e.type ⟨content, position⟩).2.read
        (readLength e.type ⟨content, position⟩).1 =
      ((readBack e (content.drop (position + (dataBytes e).length))).bytes, ⟨content, next⟩) := by
  have hfixed : e.type ≠ .bigArray → e.type ≠ .smallArray →
      dataBytes e = e.bytes ∧ readLength e.type ⟨content, position⟩ =
        (e.bytes.length, ⟨content, position⟩) := by
    obtain ⟨type, name, bytes⟩ := e
    have hbytes := he.bytes
    cases type with
    | bigArray => exact fun hne _ => absurd rfl hne
    | smallArray => exact fun _ hne => absurd rfl hne
    | _ => exact fun _ _ => ⟨rfl, congrArg (Prod.mk · _) hbytes.symm⟩
  by_cases hfull : e.Full
  case pos =>
    obtain ⟨type, name, bytes⟩ := e
    obtain ⟨rfl, hsize⟩ : type = .smallArray ∧ bytes.length = 2 ^ 8 := hfull
    have hdata : dataBytes ⟨.smallArray, name, bytes⟩ = be 1 255 := by
      simp [dataBytes, hsize]
    have hroom := hbehind ⟨rfl, hsize⟩
    rw [hdata, length_be] at hroom
    have hread := read_at (hdata ▸ h)
    rw [length_be] at hread
    refine ⟨position + 1 + 2 ^ 8, ?_⟩
    rw [readBack, if_pos ⟨rfl, hsize⟩, hdata, length_be]
    change FileHandle.read (readBE (FileHandle.read 1 ⟨content, position⟩).1 + 1)
      (FileHandle.read 1 ⟨content, position⟩).2 = _
    rw [hread]
    exact read_of_le hroom
  case neg =>
    rw [readBack, if_neg hfull]
    by_cases harray : e.type ≠ .bigArray ∧ e.type ≠ .smallArray
    · obtain ⟨hdata, hlength⟩ := hfixed harray.1 harray.2
      rw [hdata] at h
      rw [hlength]
      exact ⟨_, read_at h⟩
    · obtain ⟨type, name, bytes⟩ := e
      have hbytes := he.bytes
      cases type with
      | bigArray => exact readArray_at 2 hbytes.1 (hbig rfl) h
      | smallArray =>
        have hne : bytes.length ≠ 2 ^ 8 := fun heq => hfull ⟨rfl, heq⟩
        exact readArray_at 1 hbytes.1 (Nat.lt_of_le_of_ne hbytes.2 hne) h
      | _ => exact absurd ⟨nofun, nofun⟩ harray

theorem readEntry_at {e : Entry} {offset : Nat} (he : e.Loaded)
    (hbig : e.type = .bigArray → e.bytes.length < 2 ^ 16) (h : At content offset (entryBytes e))
    (hle : offset ≤ content.length)
    (hbehind : e.Full → offset + (entryBytes e).length + 2 ^ 8 ≤ content.length) :
    ∃ next, readEntry offset ⟨content, position⟩ =
      some (readBack e (content.drop (offset + (entryBytes e).length)), ⟨content, next⟩) := by
  obtain ⟨n, hn⟩ : ∃ n : Fin 32, n.val + 1 = e.name.length :=
    ⟨⟨e.name.length - 1, by have := he.name; omega⟩, Nat.sub_add_cancel he.name.1⟩
  rw [entryBytes_eq, at_append, at_append] at h
  obtain ⟨hdescription, hname, hdata⟩ := h
  have hlength : offset + (entryBytes e).length =
      offset + 1 + e.name.length + (dataBytes e).length := by
    rw [entryBytes_eq, List.length_append, List.length_append, List.length_singleton]
    omega
  rw [hlength] at hbehind ⊢
  obtain ⟨hcode, hnameLength⟩ := description_eq e.type n
  rw [hn] at hcode hnameLength
  generalize UInt8.ofNat e.type.code <<< 5 ||| (UInt8.ofNat e.name.length - 1) = description
    at hdescription hname hdata hcode hnameLength
  rw [List.length_singleton] at hname hdata
  obtain ⟨next, hbytes⟩ := readData_at he hbig hdata hbehind
  have hread : FileHandle.read 1 ⟨content, offset⟩ = ([description], ⟨content, offset + 1⟩) :=
    read_at hdescription
  refine ⟨next, ?_⟩
  unfold readEntry
  dsimp only
  rw [seek_of_le hle, hread, readBE_singleton, hnameLength, read_at hname, hcode]
  dsimp only
  rw [hbytes]
  unfold readBack
  split
  all_goals rfl

end Data

/-! ### All entries -/

def offsetsFrom (offset : Nat) : List Entry → List Nat
  | [] => []
  | e :: entries => offset :: offsetsFrom (offset + (entryBytes e).length) entries

/-- What is read back of entries, the first of which starts at some offset. -/
def readBackFrom (content : Bytes) (offset : Nat) : List Entry → List Entry
  | [] => []
  | e :: entries =>
    readBack e (content.drop (offset + (entryBytes e).length)) ::
      readBackFrom content (offset + (entryBytes e).length) entries

theorem length_offsetsFrom (offset : Nat) (entries : List Entry) :
    (offsetsFrom offset entries).length = entries.length := by
  induction entries generalizing offset with
  | nil => rfl
  | cons e entries ih => rw [offsetsFrom, List.length_cons, List.length_cons, ih]

theorem le_of_mem_offsetsFrom {offset n : Nat} {entries : List Entry}
    (h : n ∈ offsetsFrom offset entries) :
    n ≤ offset + (entries.flatMap entryBytes).length := by
  induction entries generalizing offset with
  | nil => cases h
  | cons e entries ih =>
    rw [List.flatMap_cons, List.length_append]
    rcases List.mem_cons.1 h with rfl | h
    · exact Nat.le_add_right ..
    · have hle := ih h
      omega

theorem loadEntries_at {content : Bytes} {offset position : Nat} {entries : List Entry}
    (hloaded : ∀ e ∈ entries, e.Loaded ∧ (e.type = .bigArray → e.bytes.length < 2 ^ 16))
    (h : At content offset (entries.flatMap entryBytes))
    (hle : offset + (entries.flatMap entryBytes).length ≤ content.length)
    (hbehind : ∀ e ∈ entries, e.Full →
      offset + (entries.flatMap entryBytes).length + 2 ^ 8 ≤ content.length) :
    loadEntries (offsetsFrom offset entries) ⟨content, position⟩ =
      (true, readBackFrom content offset entries) := by
  induction entries generalizing offset position with
  | nil => rfl
  | cons e entries ih =>
    obtain ⟨⟨he, hbig⟩, hothers⟩ := List.forall_mem_cons.1 hloaded
    obtain ⟨hbehindFirst, hbehindOthers⟩ := List.forall_mem_cons.1 hbehind
    rw [List.flatMap_cons, at_append] at h
    rw [List.flatMap_cons, List.length_append] at hle hbehindFirst hbehindOthers
    have hfirst : e.Full → offset + (entryBytes e).length + 2 ^ 8 ≤ content.length := by
      intro hfull
      have hroom := hbehindFirst hfull
      omega
    have hrest : ∀ x ∈ entries, x.Full → offset + (entryBytes e).length +
        (entries.flatMap entryBytes).length + 2 ^ 8 ≤ content.length := by
      intro x hx hfull
      have hroom := hbehindOthers x hx hfull
      omega
    obtain ⟨next, hread⟩ := readEntry_at he hbig h.1 (by omega) hfirst
    rw [offsetsFrom, loadEntries, hread]
    dsimp only
    rw [ih hothers h.2 (by omega) hrest]
    rfl

/-! ### The saved file -/

/-- Written one after the other, the entries fit between the table of offsets and the footer. -/
def Fits (entries : List Entry) : Prop :=
  entriesBeginOffset entries + (entries.map Entry.size).sum + footer.length ≤ sysconfSize

theorem written_eq (begin : Nat) (entries : List Entry) (x : Bytes × Bytes) :
    entries.foldl (fun (x : Bytes × Bytes) item =>
        (x.1 ++ be 2 (begin + x.2.length), x.2 ++ entryBytes item)) x =
      (x.1 ++ (offsetsFrom (begin + x.2.length) entries).flatMap (be 2),
        x.2 ++ entries.flatMap entryBytes) := by
  induction entries generalizing x with
  | nil => simp [offsetsFrom]
  | cons e entries ih =>
    rw [List.foldl_cons, ih]
    simp [offsetsFrom, Nat.add_assoc]

theorem length_flatMap_be (offsets : List Nat) :
    (offsets.flatMap (be 2)).length = 2 * offsets.length := by
  induction offsets with
  | nil => rfl
  | cons offset offsets ih =>
    rw [List.flatMap_cons, List.length_append, ih, length_be, List.length_cons]
    omega

theorem length_entryBytes (e : Entry) :
    (entryBytes e).length ≤ e.size ∧ (e.Full → (entryBytes e).length + 2 ^ 8 = e.size) := by
  have hdata : (entryBytes e).length = 1 + e.name.length + (dataBytes e).length := by
    rw [entryBytes_eq, List.length_append, List.length_append, List.length_singleton]
    omega
  rw [hdata]
  obtain ⟨type, name, bytes⟩ := e
  constructor
  · cases type with
    | bigArray =>
      simp only [dataBytes, Entry.size, List.length_append, length_be, List.length_take]
      omega
    | smallArray =>
      simp only [dataBytes, Entry.size, List.length_append, length_be, List.length_take]
      omega
    | _ => exact Nat.le_refl _
  · rintro ⟨htype, hsize⟩
    obtain rfl : type = .smallArray := htype
    have hbytes : bytes.length = 2 ^ 8 := hsize
    simp [dataBytes, Entry.size, hbytes, Nat.add_assoc]

theorem length_flatMap_entryBytes (entries : List Entry) :
    (entries.flatMap entryBytes).length ≤ (entries.map Entry.size).sum ∧
      ∀ e ∈ entries, e.Full →
        (entries.flatMap entryBytes).length + 2 ^ 8 ≤ (entries.map Entry.size).sum := by
  induction entries with
  | nil => exact ⟨Nat.le_refl _, fun e he => absurd he List.not_mem_nil⟩
  | cons first entries ih =>
    obtain ⟨hle, hfull⟩ := length_entryBytes first
    rw [List.flatMap_cons, List.length_append, List.map_cons, List.sum_cons]
    refine ⟨by have := ih.1; omega, fun e he hefull => ?_⟩
    rcases List.mem_cons.1 he with rfl | he
    · have hsize := hfull hefull
      have hrest := ih.1
      omega
    · have hrest := ih.2 e he hefull
      omega

def spare (entries : List Entry) : Nat :=
  sysconfSize - footer.length - (entriesBeginOffset entries + (entries.flatMap entryBytes).length)

theorem save_eq {entries : List Entry} (h : Fits entries) :
    save entries = ([0x53, 0x43, 0x76, 0x30] ++ be 2 entries.length ++
      (offsetsFrom (entriesBeginOffset entries) entries).flatMap (be 2) ++
      be 2 (entriesBeginOffset entries + (entries.flatMap entryBytes).length)) ++
      (entries.flatMap entryBytes ++ (List.replicate (spare entries) 0 ++ footer)) := by
  have hwritten := written_eq (entriesBeginOffset entries) entries
    ([0x53, 0x43, 0x76, 0x30] ++ be 2 entries.length, [])
  rw [List.length_nil, Nat.add_zero, List.nil_append] at hwritten
  have hbody := (length_flatMap_entryBytes entries).1
  unfold save
  dsimp only
  rw [hwritten]
  dsimp only
  generalize hbuffer : [0x53, 0x43, 0x76, 0x30] ++ be 2 entries.length ++
    (offsetsFrom (entriesBeginOffset entries) entries).flatMap (be 2) ++
    be 2 (entriesBeginOffset entries + (entries.flatMap entryBytes).length) ++
    entries.flatMap entryBytes = buffer
  have hlength : buffer.length =
      entriesBeginOffset entries + (entries.flatMap entryBytes).length := by
    rw [← hbuffer]
    simp only [List.length_append, length_be, length_flatMap_be, length_offsetsFrom,
      List.length_cons, List.length_nil, entriesBeginOffset]
    omega
  have hroom : buffer.length + spare entries + footer.length = sysconfSize := by
    unfold Fits at h
    unfold spare
    omega
  have hzeros : List.replicate (sysconfSize - buffer.length) (0 : UInt8) =
      List.replicate (spare entries) 0 ++ List.replicate footer.length 0 := by
    rw [← List.replicate_add]
    exact congrArg (List.replicate · 0) (by omega)
  have hsize : (buffer ++ List.replicate (sysconfSize - buffer.length) (0 : UInt8)).length ≤
      sysconfSize := by
    rw [List.length_append, List.length_replicate]
    omega
  have hfront : (buffer ++ List.replicate (spare entries) (0 : UInt8)).length =
      sysconfSize - footer.length := by
    rw [List.length_append, List.length_replicate]
    omega
  rw [List.take_of_length_le hsize, hzeros, ← List.append_assoc, List.take_left' hfront, ← hbuffer]
  simp only [List.append_assoc]

theorem length_save (entries : List Entry) : (save entries).length = sysconfSize := by
  have hsized : ∀ buffer : Bytes, sysconfSize ≤
      (buffer ++ List.replicate (sysconfSize - buffer.length) (0 : UInt8)).length := by
    intro buffer
    rw [List.length_append, List.length_replicate]
    omega
  unfold save
  dsimp only
  rw [List.length_append, List.length_take, List.length_take]
  have hfooter : footer.length ≤ sysconfSize := by decide
  rw [Nat.min_eq_left (hsized _), Nat.min_eq_left (Nat.sub_le ..)]
  omega

theorem loadOffsets_save {entries : List Entry} (h : Fits entries) :
    loadOffsets (save entries) = (offsetsFrom (entriesBeginOffset entries) entries,
      ⟨save entries, 6 + 2 * entries.length⟩) := by
  have hbody := (length_flatMap_entryBytes entries).1
  have hsizes : entriesBeginOffset entries + (entries.flatMap entryBytes).length ≤ sysconfSize ∧
      entries.length < 256 ^ 2 := by
    unfold Fits entriesBeginOffset at h
    unfold entriesBeginOffset sysconfSize at *
    omega
  have hcount : At (save entries) 4 (be 2 entries.length) := by
    rw [save_eq h]
    simp only [List.append_assoc]
    exact at_middle [0x53, 0x43, 0x76, 0x30] (be 2 entries.length) _
  have htable : At (save entries) 6
      ((offsetsFrom (entriesBeginOffset entries) entries).flatMap (be 2)) := by
    have hmiddle := at_middle ([0x53, 0x43, 0x76, 0x30] ++ be 2 entries.length)
      ((offsetsFrom (entriesBeginOffset entries) entries).flatMap (be 2))
      (be 2 (entriesBeginOffset entries + (entries.flatMap entryBytes).length) ++
        (entries.flatMap entryBytes ++ (List.replicate (spare entries) 0 ++ footer)))
    rw [save_eq h]
    simp only [List.append_assoc] at hmiddle ⊢
    exact hmiddle
  have hoffsets : ∀ offset ∈ offsetsFrom (entriesBeginOffset entries) entries, offset < 2 ^ 16 := by
    intro offset hoffset
    have hle := le_of_mem_offsetsFrom hoffset
    have hsize : sysconfSize < 2 ^ 16 := by decide
    omega
  have hread : FileHandle.read 2 ⟨save entries, 4⟩ = (be 2 entries.length, ⟨save entries, 6⟩) :=
    read_at hcount
  have hnumber : readBE (be 2 entries.length) = entries.length :=
    (readBE_be 2 _).trans (Nat.mod_eq_of_lt hsizes.2)
  have hall := readOffsets_at hoffsets htable
  rw [length_offsetsFrom] at hall
  unfold loadOffsets
  dsimp only
  rw [seek_of_le (by rw [length_save]; decide), hread]
  dsimp only
  rw [hnumber, hall]

theorem loadFromFile_save {entries : List Entry} (h : Fits entries)
    (hloaded : ∀ e ∈ entries, e.Loaded) :
    loadFromFile (save entries) =
      (true, readBackFrom (save entries) (entriesBeginOffset entries) entries) := by
  have hbody := length_flatMap_entryBytes entries
  have hsize : ∀ e ∈ entries, e.bytes.length ≤ (entries.map Entry.size).sum := by
    intro e he
    have hle : e.size ≤ (entries.map Entry.size).sum :=
      List.le_sum_of_mem (List.mem_map_of_mem he)
    exact (Nat.le_add_left ..).trans hle
  have hat : At (save entries) (entriesBeginOffset entries) (entries.flatMap entryBytes) := by
    rw [save_eq h]
    generalize hfront : [0x53, 0x43, 0x76, 0x30] ++ be 2 entries.length ++
      (offsetsFrom (entriesBeginOffset entries) entries).flatMap (be 2) ++
      be 2 (entriesBeginOffset entries + (entries.flatMap entryBytes).length) = front
    have hlength : front.length = entriesBeginOffset entries := by
      rw [← hfront]
      simp only [List.length_append, length_be, length_flatMap_be, length_offsetsFrom,
        List.length_cons, List.length_nil, entriesBeginOffset]
      omega
    rw [← hlength]
    exact at_middle ..
  unfold Fits at h
  unfold loadFromFile
  rw [loadOffsets_save h]
  refine loadEntries_at (fun e he => ⟨hloaded e he, fun _ => ?_⟩) hat ?_ fun e he hfull => ?_
  · have hle := hsize e he
    have hsmall : sysconfSize < 2 ^ 16 := by decide
    omega
  · rw [length_save]
    omega
  · have hroom := hbody.2 e he hfull
    rw [length_save]
    omega

/-! ### When the entries are the same -/

/-- Behind each full small array stand its own bytes: those of the entries behind it, and zeros. -/
def Followed : List Entry → Prop
  | [] => True
  | e :: entries =>
    (e.Full → e.bytes = (entries.flatMap entryBytes ++ List.replicate (2 ^ 8) 0).take (2 ^ 8)) ∧
      Followed entries

theorem readBack_eq_iff (e : Entry) (behind : Bytes) :
    readBack e behind = e ↔ (e.Full → e.bytes = behind.take (2 ^ 8)) := by
  unfold readBack
  split
  case isTrue hfull =>
    constructor
    · exact fun heq _ => (congrArg Entry.bytes heq).symm
    · intro h
      rw [← h hfull]
  case isFalse hnot => exact iff_of_true rfl fun hfull => absurd hfull hnot

theorem take_zeros {m r : Bytes} {count zeros : Nat} (h : count ≤ zeros) :
    (m ++ (List.replicate zeros 0 ++ r)).take count = (m ++ List.replicate count 0).take count := by
  obtain ⟨more, rfl⟩ := Nat.exists_eq_add_of_le h
  rw [List.replicate_add, List.append_assoc, ← List.append_assoc m,
    List.take_append_of_le_length]
  rw [List.length_append, List.length_replicate]
  exact Nat.le_add_left ..

theorem readBackFrom_eq_iff {a r : Bytes} {zeros : Nat} {entries : List Entry}
    (hzeros : ∀ e ∈ entries, e.Full → 2 ^ 8 ≤ zeros) :
    readBackFrom (a ++ (entries.flatMap entryBytes ++ (List.replicate zeros 0 ++ r))) a.length
      entries = entries ↔ Followed entries := by
  induction entries generalizing a with
  | nil => exact iff_of_true rfl trivial
  | cons e entries ih =>
    obtain ⟨hfirst, hothers⟩ := List.forall_mem_cons.1 hzeros
    have hsplit : a ++ ((e :: entries).flatMap entryBytes ++ (List.replicate zeros 0 ++ r)) =
        (a ++ entryBytes e) ++ (entries.flatMap entryBytes ++ (List.replicate zeros 0 ++ r)) := by
      simp only [List.flatMap_cons, List.append_assoc]
    have hlength : a.length + (entryBytes e).length = (a ++ entryBytes e).length :=
      (List.length_append ..).symm
    rw [hsplit, readBackFrom, hlength, List.drop_left, List.cons_eq_cons, ih hothers,
      readBack_eq_iff, Followed]
    refine and_congr_left' ⟨fun h hfull => ?_, fun h hfull => ?_⟩
    · rw [h hfull, take_zeros (hfirst hfull)]
    · rw [take_zeros (hfirst hfull)]
      exact h hfull

/-- The entries of a saved file are the ones that were saved, just if each full small array is
    followed by its own bytes. -/
theorem load_save {entries : List Entry} (h : Fits entries) (hloaded : ∀ e ∈ entries, e.Loaded) :
    load (some (save entries)) = entries ↔ Followed entries := by
  have hbody := length_flatMap_entryBytes entries
  have hzeros : ∀ e ∈ entries, e.Full → 2 ^ 8 ≤ spare entries := by
    intro e he hfull
    have hroom := hbody.2 e he hfull
    unfold Fits at h
    unfold spare
    omega
  have hload : load (some (save entries)) =
      readBackFrom (save entries) (entriesBeginOffset entries) entries := by
    unfold load
    dsimp only
    rw [if_neg (not_not_intro (length_save entries)), loadFromFile_save h hloaded, if_pos rfl]
  rw [hload, save_eq h]
  generalize hfront : [0x53, 0x43, 0x76, 0x30] ++ be 2 entries.length ++
    (offsetsFrom (entriesBeginOffset entries) entries).flatMap (be 2) ++
    be 2 (entriesBeginOffset entries + (entries.flatMap entryBytes).length) = front
  have hlength : front.length = entriesBeginOffset entries := by
    rw [← hfront]
    simp only [List.length_append, length_be, length_flatMap_be, length_offsetsFrom,
      List.length_cons, List.length_nil, entriesBeginOffset]
    omega
  rw [← hlength]
  exact readBackFrom_eq_iff hzeros

theorem length_read (count : Nat) (file : FileHandle) : (file.read count).1.length = count := by
  have hle : (slice file.content file.position count).length ≤ count := List.length_take_le ..
  simp only [FileHandle.read, List.length_append, List.length_replicate]
  omega

theorem readBE_read_lt (count : Nat) (file : FileHandle) :
    readBE (file.read count).1 < 256 ^ count := by
  have hlt := readBE_lt (file.read count).1
  rwa [length_read] at hlt

theorem loaded_of_readEntry {offset : Nat} {file next : FileHandle} {e : Entry}
    (h : readEntry offset file = some (e, next)) : e.Loaded := by
  unfold readEntry at h
  dsimp only at h
  split at h
  case h_1 => cases h
  case h_2 type htype =>
    obtain ⟨rfl, -⟩ := Prod.mk.inj (Option.some.inj h)
    constructor
    · rw [length_read]
      have hle : ∀ n : Nat, n &&& 0x1f ≤ 0x1f := fun n => Nat.and_le_right
      exact ⟨Nat.succ_pos _, Nat.succ_le_succ (hle _)⟩
    · dsimp only
      rw [length_read]
      cases type with
      | bigArray => exact ⟨Nat.succ_pos _, readBE_read_lt 2 _⟩
      | smallArray => exact ⟨Nat.succ_pos _, readBE_read_lt 1 _⟩
      | _ => rfl

theorem loaded_of_loadEntries {offsets : List Nat} {file : FileHandle} :
    ∀ e ∈ (loadEntries offsets file).2, e.Loaded := by
  induction offsets generalizing file with
  | nil => exact fun e he => absurd he List.not_mem_nil
  | cons offset offsets ih =>
    unfold loadEntries
    cases hread : readEntry offset file with
    | none => exact fun e he => absurd he List.not_mem_nil
    | some x => exact List.forall_mem_cons.2 ⟨loaded_of_readEntry hread, ih⟩

/-! ### Every file -/

/-- What is loaded of a file that is accepted comes back after it is saved, if it fits the format,
    and is then saved as the same bytes; and of a file that is rejected nothing is kept. -/
def RoundTrips (content : Bytes) : Prop :=
  let loaded := loadFromFile content
  (loaded.1 = true → Fits loaded.2 →
    load (some (save loaded.2)) = loaded.2 ∧
      save (load (some (save loaded.2))) = save loaded.2) ∧
    (loaded.1 = false → load (some content) = insertDefaultEntries [])

def UnknownFirst (content : Bytes) : Prop :=
  ∃ offset offsets file, loadOffsets content = (offset :: offsets, file) ∧
    readEntry offset file = none

theorem insertDefaultEntries_eq_iff {entries : List Entry} :
    insertDefaultEntries entries = insertDefaultEntries [] ↔ entries = [] := by
  constructor
  · intro h
    have hlength := congrArg List.length h
    unfold insertDefaultEntries at hlength
    rw [List.length_append, List.length_append, List.length_nil] at hlength
    exact List.length_eq_zero_iff.1 (Nat.add_right_cancel hlength)
  · rintro rfl
    rfl

theorem rejected_iff {content : Bytes} (h : (loadFromFile content).1 = false) :
    (loadFromFile content).2 = [] ↔ UnknownFirst content := by
  unfold loadFromFile at h ⊢
  unfold UnknownFirst
  dsimp only at h ⊢
  generalize loadOffsets content = found at h ⊢
  obtain ⟨_ | ⟨offset, offsets⟩, file⟩ := found
  · cases h
  · unfold loadEntries
    cases hread : readEntry offset file with
    | none => exact iff_of_true rfl ⟨offset, offsets, file, rfl, hread⟩
    | some x =>
      refine iff_of_false (List.cons_ne_nil _ _) ?_
      rintro ⟨other, others, file', heq, hnone⟩
      obtain ⟨hoffsets, rfl⟩ := Prod.mk.inj heq
      obtain ⟨rfl, -⟩ := List.cons.inj hoffsets
      rw [hread] at hnone
      cases hnone

/-- A file round trips just if each full small array that is loaded of it is followed by its own
    bytes, and if it is rejected, then at its first entry. -/
theorem sysconf_round_trip (content : Bytes) (hsize : content.length = sysconfSize) :
    RoundTrips content ↔
      ((loadFromFile content).1 = true → Fits (loadFromFile content).2 →
        Followed (loadFromFile content).2) ∧
      ((loadFromFile content).1 = false → UnknownFirst content) := by
  have hloaded : ∀ e ∈ (loadFromFile content).2, e.Loaded := loaded_of_loadEntries
  refine and_congr ?_ ?_
  · refine imp_congr_right fun _ => imp_congr_right fun hfits => ?_
    rw [← load_save hfits hloaded]
    exact ⟨fun h => h.1, fun h => ⟨h, congrArg save h⟩⟩
  · refine imp_congr_right fun hrejected => ?_
    have hload : load (some content) = insertDefaultEntries (loadFromFile content).2 := by
      unfold load
      dsimp only
      rw [if_neg (not_not_intro hsize), hrejected]
      rfl
    rw [hload, insertDefaultEntries_eq_iff, rejected_iff hrejected]

def oneByte : Entry := { type := .byte, name := [0x41], bytes := [1] }

/-- Entries of different types and lengths, the last a full small array of zeros. -/
def mixedEntries : List Entry :=
  [{ type := .long, name := [0x41, 0x42], bytes := [0, 1, 2, 3] },
    { type := .smallArray, name := [0x43], bytes := [4, 5] },
    { type := .bigArray, name := [0x44, 0x45, 0x46], bytes := [6, 7, 8] },
    oneByte,
    { type := .smallArray, name := [0x47], bytes := List.replicate (2 ^ 8) 0 }]

theorem sysconf_round_trip_mixed :
    RoundTrips (save mixedEntries) ∧ loadFromFile (save mixedEntries) = (true, mixedEntries) := by
  have hfits : Fits mixedEntries := by unfold Fits; decide +kernel
  have hloaded : ∀ e ∈ mixedEntries, e.Loaded := by
    intro e he
    simp only [mixedEntries, oneByte, List.mem_cons, List.not_mem_nil, or_false] at he
    rcases he with rfl | rfl | rfl | rfl | rfl
    all_goals exact ⟨by decide, by decide +kernel⟩
  have hfollowed : Followed mixedEntries := by
    simp only [Followed, mixedEntries]
    decide +kernel
  have hpair := loadFromFile_save hfits hloaded
  have hload := (load_save hfits hloaded).2 hfollowed
  unfold load at hload
  dsimp only at hload
  rw [if_neg (not_not_intro (length_save _)), hpair, if_pos rfl] at hload
  dsimp only at hload
  rw [hload] at hpair
  refine ⟨(sysconf_round_trip _ (length_save _)).2 ⟨fun _ _ => ?_, fun hrejected => ?_⟩, hpair⟩
  · rwa [hpair]
  · rw [hpair] at hrejected
    cases hrejected

/-- An entry that can be read, and behind it one of type 0. -/
def unknownSecond : Bytes :=
  [0x53, 0x43, 0x76, 0x30, 0, 2, 0, 10, 0, 13, 0x60, 0x41, 1, 0] ++ List.replicate 0x3ff2 0

/-- The file is rejected, and the entry in front is kept. -/
theorem unknownSecond_kept : ¬ ∀ content : Bytes, content.length = sysconfSize →
    RoundTrips content := by
  intro h
  have hsize : unknownSecond.length = sysconfSize := by
    rw [unknownSecond, List.length_append, List.length_replicate]
    rfl
  have hle : ∀ offset ≤ 13, offset ≤ unknownSecond.length := by
    intro offset hoffset
    rw [hsize]
    exact hoffset.trans (by decide)
  have hoffsets : loadOffsets unknownSecond = ([10, 13], ⟨unknownSecond, 10⟩) := by
    unfold loadOffsets
    rw [seek_of_le (hle 4 (by decide))]
    rfl
  have hfirst : readEntry 10 ⟨unknownSecond, 10⟩ = some (oneByte, ⟨unknownSecond, 13⟩) := by
    unfold readEntry
    rw [seek_of_le (hle 10 (by decide))]
    rfl
  have hsecond : readEntry 13 ⟨unknownSecond, 13⟩ = none := by
    unfold readEntry
    rw [seek_of_le (hle 13 (by decide))]
    rfl
  have hloaded : loadFromFile unknownSecond = (false, [oneByte]) := by
    unfold loadFromFile
    rw [hoffsets]
    simp only [loadEntries, hfirst, hsecond]
  have hkept := (h unknownSecond hsize).2 (by rw [hloaded])
  unfold load at hkept
  dsimp only at hkept
  rw [if_neg (not_not_intro hsize), hloaded] at hkept
  exact absurd (insertDefaultEntries_eq_iff.1 hkept) (List.cons_ne_nil _ _)

end DolphinXR.SysConf
