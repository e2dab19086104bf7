import DolphinXR.DiscIO.FileSystemGCWii

/- What `IsValid` guarantees, and that it is enough. `isValid` is one recursive
   pass over the table; `valid_entries` reads off it that every entry below the
   root is sound. From that, none of the walks over an accepted table leaves it
   or fails to end.

   The multiplication `FST_ENTRY_SIZE * m_root.GetSize()` can wrap, so the
   constructor's own check of the entry count proves nothing; the bound on the
   number of entries comes from the 64-bit name offset of the root, which
   `IsValid` compares with the size of the table. -/
namespace DolphinXR.DiscIO
open Lib

namespace FileInfoGCWii

/-- The entries of the file system of `root` and their count fit a table that the
    constructor loads. -/
structure Fits (root : FileInfoGCWii) : Prop where
  entries : fstEntrySize * root.totalFileInfos < root.fst.length
  limit : root.fst.length ≤ arbitraryFileSystemSizeLimit

section Access
variable {root : FileInfoGCWii} (hfits : Fits root)
include hfits

theorem entryAddress_eq {i : Nat} (hi : i ≤ root.totalFileInfos) :
    entryAddress i = fstEntrySize * i := by
  have h1 := hfits.entries
  have h2 := hfits.limit
  unfold entryAddress
  apply Nat.mod_eq_of_lt
  unfold fstEntrySize arbitraryFileSystemSizeLimit at *
  omega

theorem entryAddress_inj {i j : Nat} (hi : i ≤ root.totalFileInfos)
    (hj : j ≤ root.totalFileInfos) : entryAddress i = entryAddress j ↔ i = j := by
  rw [entryAddress_eq hfits hi, entryAddress_eq hfits hj]
  unfold fstEntrySize
  omega

theorem succ_index {i : Nat} (hi : i < root.totalFileInfos) : (i + 1) % 2 ^ 32 = i + 1 := by
  have h1 := hfits.entries
  have h2 := hfits.limit
  unfold fstEntrySize arbitraryFileSystemSizeLimit at *
  omega

theorem get_isSome {i : Nat} (hi : i < root.totalFileInfos) (p : EntryProperty) :
    ∃ n, (root.withIndex i).get p = some n := by
  have h1 := hfits.entries
  apply beAt_isSome
  rw [withIndex_index, withIndex_fst, entryAddress_eq hfits (Nat.le_of_lt hi)]
  cases p <;> simp only [EntryProperty.toNat, fstEntrySize] at * <;> omega

theorem isDirectory_isSome {i : Nat} (hi : i < root.totalFileInfos) :
    ∃ b, (root.withIndex i).isDirectory = some b := by
  obtain ⟨n, hn⟩ := get_isSome hfits hi .nameOffset
  exact ⟨_, by rw [isDirectory, hn]; rfl⟩

theorem getNameOffset_isSome {i : Nat} (hi : i < root.totalFileInfos) :
    ∃ n, (root.withIndex i).getNameOffset = some n := by
  obtain ⟨n, hn⟩ := get_isSome hfits hi .nameOffset
  exact ⟨_, by rw [getNameOffset, hn]; rfl⟩

theorem getNextIndex_file {i : Nat} (hi : i < root.totalFileInfos)
    (hdir : (root.withIndex i).isDirectory = some false) :
    (root.withIndex i).getNextIndex = some (i + 1) := by
  rw [getNextIndex, hdir, Option.bind_some, withIndex_index, succ_index hfits hi]
  rfl

end Access

theorem getNextIndex_dir {fi : FileInfoGCWii} (hdir : fi.isDirectory = some true) :
    fi.getNextIndex = fi.get .fileSize := by
  simp [getNextIndex, hdir, getSize]

/-! ### What validity says of the entries -/

/-- Iterating from index `a` arrives at `b`, each step going up. -/
inductive Chain (root : FileInfoGCWii) : Nat → Nat → Prop where
  | done (a : Nat) : Chain root a a
  | next {a n b : Nat} : (root.withIndex a).getNextIndex = some n → a < n → n ≤ b →
      Chain root n b → Chain root a b

theorem Chain.le {root : FileInfoGCWii} {a b : Nat} (h : Chain root a b) : a ≤ b := by
  cases h with
  | done => exact Nat.le_refl _
  | next _ h1 h2 _ => omega

/-- A directory of the file system of `root` with index `i` that ends at `size`. -/
structure DirectoryOk (root : FileInfoGCWii) (i size : Nat) : Prop where
  size_eq : (root.withIndex i).get .fileSize = some size
  lt_size : i < size
  size_le : size ≤ root.totalFileInfos
  chain : Chain root (i + 1) size
  parent : ∃ p, (root.withIndex i).get .fileOffset = some p ∧ (p < i ∨ i = 0)

/-- What `IsValid` establishes of the entry with index `i`. -/
structure EntryOk (root : FileInfoGCWii) (i : Nat) : Prop where
  name : ∃ n, (root.withIndex i).getNameOffset = some n ∧ n < root.fst.length
  dir : (root.withIndex i).isDirectory = some true → ∃ size, DirectoryOk root i size

theorem isValid_cases {fstSize fuel stop : Nat} {fi parent : FileInfoGCWii}
    (hstop : parent.get .fileSize = some stop)
    (h : isValid fstSize (fuel + 1) fi parent = some true) :
    ∃ name, fi.getNameOffset = some name ∧ name < fstSize ∧
      (fi.isDirectory = some false ∨
        fi.isDirectory = some true ∧ fi.get .fileOffset = some parent.index ∧
        ∃ size, fi.get .fileSize = some size ∧ fi.index < size ∧ size ≤ stop ∧
          childrenValid fstSize fuel fi fi.firstChild size = some true) := by
  simp only [isValid, hstop, Option.bind_some] at h
  obtain ⟨name, hname, h⟩ := Option.bind_eq_some_iff.1 h
  split at h
  · cases h
  next hlt =>
  obtain ⟨dir, hdir, h⟩ := Option.bind_eq_some_iff.1 h
  refine ⟨name, hname, Nat.lt_of_not_le hlt, ?_⟩
  cases dir with
  | false => exact Or.inl hdir
  | true =>
    simp only [Bool.not_true, Bool.false_eq_true, if_false] at h
    obtain ⟨parentIndex, hparent, h⟩ := Option.bind_eq_some_iff.1 h
    split at h
    · cases h
    next hpi =>
    obtain ⟨size, hsize, h⟩ := Option.bind_eq_some_iff.1 h
    split at h
    · cases h
    next hgt =>
    split at h
    · cases h
    next hle =>
    rw [getNextIndex_dir hdir, hsize, Option.bind_some] at h
    refine Or.inr ⟨hdir, ?_, size, hsize, by omega, by omega, h⟩
    rw [hparent, Decidable.not_not.1 hpi]

theorem childrenValid_cases {fstSize fuel stop : Nat} {fi child : FileInfoGCWii}
    (h : childrenValid fstSize (fuel + 1) fi child stop = some true) :
    entryAddress child.index = entryAddress stop ∨
      entryAddress child.index ≠ entryAddress stop ∧
      isValid fstSize fuel child fi = some true ∧ ∃ next, child.getNextIndex = some next ∧
        childrenValid fstSize fuel fi (child.withIndex next) stop = some true := by
  simp only [childrenValid] at h
  split at h
  · next heq => exact Or.inl heq
  next hne =>
  obtain ⟨ok, hok, h⟩ := Option.bind_eq_some_iff.1 h
  cases ok with
  | false => simp at h
  | true =>
    simp only [Bool.not_true, Bool.false_eq_true, if_false] at h
    obtain ⟨next, hnext, h⟩ := Option.bind_eq_some_iff.1 h
    exact Or.inr ⟨hne, hok, next, hnext, h⟩

section Valid
variable {root : FileInfoGCWii} (hfits : Fits root)
include hfits

/-- One pass of `IsValid` over an entry below a directory that ends at `stop`, and
    over a run of children up to `stop`: every entry passed is sound, and the
    children follow one another up to `stop`. Induction on the fuel. -/
theorem valid_entries (fuel : Nat) :
    (∀ i parent stop, (root.withIndex parent).get .fileSize = some stop →
      stop ≤ root.totalFileInfos → parent < i → i < stop →
      isValid root.fst.length fuel (root.withIndex i) (root.withIndex parent) = some true →
      ∃ n, (root.withIndex i).getNextIndex = some n ∧ i < n ∧ n ≤ stop ∧
        ∀ j, i ≤ j → j < n → EntryOk root j) ∧
    (∀ self child stop, (root.withIndex self).get .fileSize = some stop →
      stop ≤ root.totalFileInfos → self < child → child ≤ stop →
      childrenValid root.fst.length fuel (root.withIndex self) (root.withIndex child) stop =
        some true →
      Chain root child stop ∧ ∀ j, child ≤ j → j < stop → EntryOk root j) := by
  induction fuel with
  | zero =>
    exact ⟨fun _ _ _ _ _ _ _ h => by simp [isValid] at h,
      fun _ _ _ _ _ _ _ h => by simp [childrenValid] at h⟩
  | succ fuel ih =>
    constructor
    · intro i parent stop hstop hle hpi hi h
      have hit : i < root.totalFileInfos := by omega
      obtain ⟨name, hname, hlt, hcase⟩ := isValid_cases hstop h
      rcases hcase with hfile | ⟨hdir, hoff, size, hsize, hgt, hsz, hchildren⟩
      · refine ⟨i + 1, getNextIndex_file hfits hit hfile, by omega, by omega, ?_⟩
        intro j hj hj'
        obtain rfl : j = i := by omega
        exact ⟨⟨name, hname, hlt⟩, fun hd => by rw [hfile] at hd; cases hd⟩
      · simp only [withIndex_index] at hgt
        have hfirst : (root.withIndex i).firstChild = root.withIndex (i + 1) := by
          rw [firstChild, withIndex_index, succ_index hfits hit, withIndex_withIndex]
        rw [hfirst] at hchildren
        obtain ⟨hchain, hbelow⟩ := ih.2 i (i + 1) size hsize (by omega) (by omega) hgt hchildren
        refine ⟨size, by rw [getNextIndex_dir hdir, hsize], hgt, hsz, ?_⟩
        intro j hj hj'
        rcases Nat.lt_or_eq_of_le hj with hj | rfl
        · exact hbelow j hj hj'
        · exact ⟨⟨name, hname, hlt⟩, fun _ => ⟨size, hsize, hgt, by omega, hchain, parent,
            hoff, Or.inl hpi⟩⟩
    · intro self child stop hstop hle hself hchild h
      rcases childrenValid_cases h with heq | ⟨hne, hvalid, next, hnext, hrest⟩
      · rw [withIndex_index, entryAddress_inj hfits (by omega) hle] at heq
        subst heq
        exact ⟨Chain.done _, fun j h1 h2 => by omega⟩
      · rw [withIndex_index, ne_eq, entryAddress_inj hfits (by omega) hle] at hne
        obtain ⟨n, hn, hgt, hnle, hentry⟩ := ih.1 child self stop hstop hle hself (by omega) hvalid
        obtain rfl : n = next := Option.some.inj (hn.symm.trans hnext)
        rw [withIndex_withIndex] at hrest
        obtain ⟨hchain, hbelow⟩ := ih.2 self n stop hstop hle (by omega) hnle hrest
        refine ⟨Chain.next hnext hgt hnle hchain, fun j hj hj' => ?_⟩
        rcases Nat.lt_or_ge j n with hlt | hge
        · exact hentry j hj hlt
        · exact hbelow j hge hj'

end Valid

structure Sound (root : FileInfoGCWii) : Prop where
  fits : Fits root
  index : root.index = 0
  isDir : root.isDirectory = some true
  rootOk : DirectoryOk root 0 root.totalFileInfos
  entry : ∀ i, i < root.totalFileInfos → EntryOk root i
  last : root.fst[root.fst.length - 1]? = some 0

theorem sound_of_accepts {table : Bytes} {shift : Nat} {root : FileInfoGCWii}
    (hroot : rootFileInfo table shift = some root)
    (hlen : table.length ≤ arbitraryFileSystemSizeLimit)
    (h : acceptsTable table root = true) : Sound root := by
  obtain ⟨total, htotal, rfl⟩ := Option.map_eq_some_iff.1 hroot
  simp only [acceptsTable, Bool.and_eq_true, decide_eq_true_eq, and_assoc] at h
  obtain ⟨hdir, -, hlast, hvalid⟩ := h
  have hself : (⟨table, shift, 0, total⟩ : FileInfoGCWii).withIndex 0 = ⟨table, shift, 0, total⟩ :=
    rfl
  have hsize : (⟨table, shift, 0, total⟩ : FileInfoGCWii).get .fileSize = some total := htotal
  obtain ⟨name, hname, hlt, hcase⟩ := isValid_cases hsize hvalid
  rcases hcase with hfile | ⟨-, hoff, size, hsize', hpos, -, hchildren⟩
  · rw [hdir] at hfile; cases hfile
  obtain rfl : total = size := Option.some.inj (hsize.symm.trans hsize')
  have hfits : Fits ⟨table, shift, 0, total⟩ := by
    refine ⟨?_, hlen⟩
    obtain ⟨n, hn, rfl⟩ := Option.map_eq_some_iff.1 hname
    exact Nat.lt_of_le_of_lt (Nat.le_add_right _ _) hlt
  have hfirst : (⟨table, shift, 0, total⟩ : FileInfoGCWii).firstChild =
      (⟨table, shift, 0, total⟩ : FileInfoGCWii).withIndex 1 := rfl
  rw [hfirst] at hchildren
  obtain ⟨hchain, hbelow⟩ := (valid_entries hfits _).2 0 1 total hsize (Nat.le_refl _) (by omega)
    hpos hchildren
  have hrootOk : DirectoryOk ⟨table, shift, 0, total⟩ 0 total :=
    ⟨hsize, hpos, Nat.le_refl _, hchain, 0, hoff, Or.inr rfl⟩
  refine ⟨hfits, rfl, hdir, hrootOk, fun i hi => ?_, hlast⟩
  rcases Nat.eq_zero_or_pos i with rfl | hi'
  · exact ⟨⟨name, hname, hlt⟩, fun _ => ⟨total, hrootOk⟩⟩
  · exact hbelow i hi' hi

/-! ### The check itself comes to an end -/

section Total
variable {root : FileInfoGCWii} (hfits : Fits root)
include hfits

/-- Two units of fuel for each index up to the end of the directory are enough for
    `IsValid`: it passes each entry once, as the child of one directory. -/
theorem isValid_isSome (fuel : Nat) :
    (∀ i parent stop, (root.withIndex parent).get .fileSize = some stop →
      stop ≤ root.totalFileInfos → parent < i → i < stop → 2 * (stop - i) < fuel →
      ∃ b, isValid root.fst.length fuel (root.withIndex i) (root.withIndex parent) = some b) ∧
    (∀ self child stop, (root.withIndex self).get .fileSize = some stop →
      stop ≤ root.totalFileInfos → self < child → child ≤ stop →
      2 * (stop - child) + 1 < fuel →
      ∃ b, childrenValid root.fst.length fuel (root.withIndex self) (root.withIndex child) stop =
        some b) := by
  induction fuel with
  | zero => exact ⟨fun _ _ _ _ _ _ _ h => by omega, fun _ _ _ _ _ _ _ h => by omega⟩
  | succ fuel ih =>
    constructor
    · intro i parent stop hstop hle hpi hi hfuel
      have hit : i < root.totalFileInfos := by omega
      obtain ⟨name, hname⟩ := getNameOffset_isSome hfits hit
      obtain ⟨dir, hdir⟩ := isDirectory_isSome hfits hit
      obtain ⟨offset, hoffset⟩ := get_isSome hfits hit .fileOffset
      obtain ⟨size, hsize⟩ := get_isSome hfits hit .fileSize
      simp only [isValid, hname, hdir, hoffset, hsize, hstop, Option.bind_some, withIndex_index]
      split
      · exact ⟨false, rfl⟩
      cases dir with
      | false => exact ⟨true, rfl⟩
      | true =>
        simp only [Bool.not_true, Bool.false_eq_true, if_false]
        split
        · exact ⟨false, rfl⟩
        split
        · exact ⟨false, rfl⟩
        next hgt =>
        split
        · exact ⟨false, rfl⟩
        next hsz =>
        have hfirst : (root.withIndex i).firstChild = root.withIndex (i + 1) := by
          rw [firstChild, withIndex_index, succ_index hfits hit, withIndex_withIndex]
        rw [getNextIndex_dir hdir, hsize, Option.bind_some, hfirst]
        exact ih.2 i (i + 1) size hsize (by omega) (by omega) (by omega) (by omega)
    · intro self child stop hstop hle hself hchild hfuel
      have heq : entryAddress child = entryAddress stop ↔ child = stop :=
        entryAddress_inj hfits (by omega) hle
      simp only [childrenValid, withIndex_index, heq]
      split
      · exact ⟨true, rfl⟩
      next hne =>
      obtain ⟨ok, hok⟩ := ih.1 child self stop hstop hle hself (by omega) (by omega)
      rw [hok, Option.bind_some]
      cases ok with
      | false => exact ⟨false, rfl⟩
      | true =>
        simp only [Bool.not_true, Bool.false_eq_true, if_false]
        obtain ⟨next, hnext, hgt, hnle, -⟩ :=
          (valid_entries hfits fuel).1 child self stop hstop hle hself (by omega) hok
        rw [hnext, Option.bind_some, withIndex_withIndex]
        exact ih.2 self next stop hstop hle (by omega) hnle (by omega)

end Total

/-- On every table, whatever it holds, the constructor's call of `IsValid` comes to
    an end without leaving the table. -/
theorem isValid_root_isSome {table : Bytes} {shift : Nat} {root : FileInfoGCWii}
    (hroot : rootFileInfo table shift = some root)
    (hlen : table.length ≤ arbitraryFileSystemSizeLimit) :
    ∃ b, isValid table.length (table.length + 2) root root = some b := by
  obtain ⟨total, htotal, rfl⟩ := Option.map_eq_some_iff.1 hroot
  have h12 : 12 ≤ table.length := le_of_beAt htotal
  have hget : ∀ p, ∃ n, (⟨table, shift, 0, total⟩ : FileInfoGCWii).get p = some n := by
    intro p
    have hp : entryAddress 0 + 4 * p.toNat + 4 ≤ 12 := by cases p <;> decide
    exact beAt_isSome (Nat.le_trans hp h12)
  have hsize : (⟨table, shift, 0, total⟩ : FileInfoGCWii).get .fileSize = some total := htotal
  obtain ⟨word, hword⟩ := hget .nameOffset
  obtain ⟨offset, hoffset⟩ := hget .fileOffset
  simp only [isValid, getNameOffset, isDirectory, hword, hoffset, hsize, Option.map_some,
    Option.bind_some]
  split
  · exact ⟨false, rfl⟩
  next hlt =>
  have hfits : Fits ⟨table, shift, 0, total⟩ :=
    ⟨Nat.lt_of_le_of_lt (Nat.le_add_right _ _) (Nat.lt_of_not_le hlt), hlen⟩
  split
  · exact ⟨true, rfl⟩
  next hdir =>
  split
  · exact ⟨false, rfl⟩
  split
  · exact ⟨false, rfl⟩
  next hpos =>
  split
  · exact ⟨false, rfl⟩
  have hdir : (⟨table, shift, 0, total⟩ : FileInfoGCWii).isDirectory = some true := by
    simpa [isDirectory, hword] using hdir
  rw [getNextIndex_dir hdir, hsize, Option.bind_some]
  have h12 := hfits.entries
  exact (isValid_isSome hfits _).2 0 1 total hsize (Nat.le_refl _) (by omega) (by omega)
    (by simp only [fstEntrySize] at h12; omega)

/-- A table with a file, and a directory with another file in it. -/
def nestedTable : Bytes :=
  [1, 0, 0, 0, 0, 0, 0, 0, 0, 0, 0, 4] ++ [0, 0, 0, 1, 0, 0, 1, 0, 0, 0, 0, 5] ++
    [1, 0, 0, 3, 0, 0, 0, 0, 0, 0, 0, 4] ++ [0, 0, 0, 5, 0, 0, 2, 0, 0, 0, 0, 7] ++
    [0, 97, 0, 100, 0, 98, 0]

/-- Every entry is looked at, and the table is found valid. -/
theorem isValid_root_isSome_nestedTable :
    (∃ b, isValid nestedTable.length (nestedTable.length + 2) ⟨nestedTable, 2, 0, 4⟩
      ⟨nestedTable, 2, 0, 4⟩ = some b) ∧
    isValid nestedTable.length (nestedTable.length + 2) ⟨nestedTable, 2, 0, 4⟩
      ⟨nestedTable, 2, 0, 4⟩ = some true := by
  have hroot : rootFileInfo nestedTable 2 = some ⟨nestedTable, 2, 0, 4⟩ := by decide
  exact ⟨isValid_root_isSome hroot (by decide), by decide +kernel⟩

/-! ### The walks -/

section Walk
variable {root : FileInfoGCWii} (hs : Sound root)
include hs

theorem root_withIndex : root.withIndex 0 = root := by
  rw [← hs.index]; rfl

theorem zero_mem_drop {off : Nat} (h : off < root.fst.length) : 0 ∈ root.fst.drop off := by
  have hlast := hs.last
  have hget : (root.fst.drop off)[root.fst.length - 1 - off]? = some 0 := by
    rw [List.getElem?_drop, ← hlast]; congr 1; omega
  exact List.mem_of_getElem? hget

theorem namePtr_isSome {i : Nat} (hi : i < root.totalFileInfos) :
    ∃ ptr, (root.withIndex i).namePtr = some ptr ∧ 0 ∈ ptr := by
  obtain ⟨n, hn, hlt⟩ := (hs.entry i hi).name
  exact ⟨root.fst.drop n, by rw [namePtr, hn]; rfl, zero_mem_drop hs hlt⟩

theorem next_chain {i : Nat} (hi : i < root.totalFileInfos) :
    ∃ stop, (root.withIndex i).getNextIndex = some stop ∧ stop ≤ root.totalFileInfos ∧
      Chain root (i + 1) stop := by
  obtain ⟨dir, hdir⟩ := isDirectory_isSome hs.fits hi
  cases dir with
  | false => exact ⟨i + 1, getNextIndex_file hs.fits hi hdir, hi, Chain.done _⟩
  | true =>
    obtain ⟨size, hsize⟩ := (hs.entry i hi).dir hdir
    exact ⟨size, by rw [getNextIndex_dir hdir, hsize.size_eq], hsize.size_le, hsize.chain⟩

theorem firstChild_eq {i : Nat} (hi : i < root.totalFileInfos) :
    (root.withIndex i).firstChild = root.withIndex (i + 1) := by
  rw [firstChild, withIndex_index, succ_index hs.fits hi, withIndex_withIndex]

theorem childrenFrom_chain : ∀ (fuel a b : Nat), Chain root a b → b ≤ root.totalFileInfos →
    b - a < fuel → ∃ l, childrenFrom fuel (root.withIndex a) b = some l ∧
      ∀ c ∈ l, ∃ i, c = root.withIndex i ∧ a ≤ i ∧ i < b
  | 0, _, _, _, _, h => absurd h (Nat.not_lt_zero _)
  | fuel + 1, a, b, hchain, hb, hfuel => by
    have hab := hchain.le
    have heq : entryAddress a = entryAddress b ↔ a = b := entryAddress_inj hs.fits (by omega) hb
    simp only [childrenFrom, withIndex_index, heq]
    cases hchain with
    | done => exact ⟨[], by simp, by simp⟩
    | @next _ n _ hnext hgt hle hrest =>
      obtain ⟨l, hl, hmem⟩ := childrenFrom_chain fuel n b hrest hb (by omega)
      refine ⟨root.withIndex a :: l, ?_, ?_⟩
      · rw [if_neg (by omega), hnext, Option.bind_some, withIndex_withIndex, hl]; rfl
      · intro c hc
        rcases List.mem_cons.1 hc with rfl | hc
        · exact ⟨a, rfl, Nat.le_refl _, by omega⟩
        · obtain ⟨i, rfl, h1, h2⟩ := hmem c hc
          exact ⟨i, rfl, by omega, h2⟩

theorem children_isSome {i fuel : Nat} (hi : i < root.totalFileInfos)
    (hfuel : root.totalFileInfos ≤ fuel) : ∃ l, children fuel (root.withIndex i) = some l ∧
      ∀ c ∈ l, ∃ j, c = root.withIndex j ∧ j < root.totalFileInfos := by
  obtain ⟨stop, hstop, hle, hchain⟩ := next_chain hs hi
  obtain ⟨l, hl, hmem⟩ := childrenFrom_chain hs fuel (i + 1) stop hchain hle (by omega)
  refine ⟨l, by rw [children, hstop, Option.bind_some, firstChild_eq hs hi, hl], ?_⟩
  intro c hc
  obtain ⟨j, rfl, -, hj⟩ := hmem c hc
  exact ⟨j, rfl, by omega⟩

/-- The backward search arrives at a directory that ends after `index`, at the root
    at the latest. Induction on the index it has come to. -/
theorem searchParent_isSome {index : Nat} (hindex : index < root.totalFileInfos) :
    ∀ i, i < index → ∀ fuel, i < fuel →
      ∃ p, p ≤ i ∧ searchParent fuel (root.withIndex i) index = some (root.withIndex p) := by
  intro i
  induction i with
  | zero =>
    intro hi fuel hfuel
    obtain ⟨fuel, rfl⟩ : ∃ n, fuel = n + 1 := ⟨fuel - 1, by omega⟩
    refine ⟨0, Nat.le_refl _, ?_⟩
    have hdir : (root.withIndex 0).isDirectory = some true := by
      rw [root_withIndex hs]; exact hs.isDir
    rw [searchParent, hdir, Option.bind_some, if_pos rfl, hs.rootOk.size_eq, Option.bind_some,
      if_pos ⟨rfl, hindex⟩]
  | succ i ih =>
    intro hi fuel hfuel
    obtain ⟨fuel, rfl⟩ : ∃ n, fuel = n + 1 := ⟨fuel - 1, by omega⟩
    obtain ⟨dir, hdir⟩ := isDirectory_isSome hs.fits (i := i + 1) (by omega)
    obtain ⟨size, hsize⟩ := get_isSome hs.fits (i := i + 1) (by omega) .fileSize
    have hlimit := hs.fits.entries
    have hlen := hs.fits.limit
    have hprev : (i + 1 + 2 ^ 32 - 1) % 2 ^ 32 = i := by
      unfold fstEntrySize arbitraryFileSystemSizeLimit at *; omega
    obtain ⟨p, hp, hrec⟩ := ih (by omega) fuel (by omega)
    rw [searchParent, hdir, Option.bind_some, withIndex_index, hprev, withIndex_withIndex, hrec]
    cases dir with
    | false => exact ⟨p, by omega, by simp⟩
    | true =>
      simp only [if_true, hsize, Option.bind_some, true_and]
      split
      · exact ⟨i + 1, Nat.le_refl _, rfl⟩
      · exact ⟨p, by omega, rfl⟩

section Names
variable (shiftJISToUTF8 : Bytes → Bytes)

theorem getName_isSome {i : Nat} (hi : i < root.totalFileInfos) :
    ∃ name, (root.withIndex i).getName shiftJISToUTF8 = some name := by
  obtain ⟨ptr, hptr, hzero⟩ := namePtr_isSome hs hi
  obtain ⟨s, hstr⟩ := cstring_isSome hzero
  exact ⟨shiftJISToUTF8 s, by rw [getName, hptr, Option.bind_some, hstr]; rfl⟩

theorem getPath_isSome (i : Nat) (hi : i < root.totalFileInfos) :
    ∀ fuel, i < fuel → ∃ path, (root.withIndex i).getPath shiftJISToUTF8 fuel = some path := by
  induction i using Nat.strongRecOn with
  | ind i ih =>
    intro fuel hfuel
    obtain ⟨fuel, rfl⟩ : ∃ n, fuel = n + 1 := ⟨fuel - 1, by omega⟩
    rw [getPath, withIndex_index]
    by_cases hzero : i = 0
    · exact ⟨[], if_pos hzero⟩
    obtain ⟨name, hname⟩ := getName_isSome hs shiftJISToUTF8 hi
    obtain ⟨dir, hdir⟩ := isDirectory_isSome hs.fits hi
    rw [if_neg hzero, hdir, Option.bind_some]
    cases dir with
    | true =>
      obtain ⟨size, hsize⟩ := (hs.entry i hi).dir hdir
      obtain ⟨p, hp, hlt⟩ := hsize.parent
      have hlt' : p < i := by omega
      obtain ⟨path, hpath⟩ := ih p hlt' (by omega) fuel (by omega)
      exact ⟨path ++ name ++ [47], by simp [hp, hpath, hname]⟩
    | false =>
      obtain ⟨p, hp, hsearch⟩ := searchParent_isSome hs hi (i - 1) (by omega) (i + 1) (by omega)
      obtain ⟨path, hpath⟩ := ih p (by omega) (by omega) fuel (by omega)
      exact ⟨path ++ name, by simp [hsearch, hpath, hname]⟩

omit hs in
theorem nameEquals_isSome : ∀ (this other : Bytes), 0 ∈ this →
    ∃ b, nameEquals shiftJISToUTF8 this other = some b
  | [], _, h => by simp at h
  | b :: this, [], _ => ⟨_, rfl⟩
  | b :: this, o :: other, h => by
    rw [nameEquals]
    split
    · exact ⟨false, rfl⟩
    next hb =>
    split
    · obtain ⟨s, hstr⟩ := cstring_isSome h
      exact ⟨_, by rw [hstr]; rfl⟩
    split
    · exact ⟨false, rfl⟩
    · exact nameEquals_isSome this other (by simpa [Ne.symm hb] using h)

theorem nameCaseInsensitiveEquals_isSome {i : Nat} (hi : i < root.totalFileInfos)
    (other : Bytes) :
    ∃ b, (root.withIndex i).nameCaseInsensitiveEquals shiftJISToUTF8 other = some b := by
  obtain ⟨ptr, hptr, hzero⟩ := namePtr_isSome hs hi
  obtain ⟨b, hb⟩ := nameEquals_isSome shiftJISToUTF8 ptr other hzero
  exact ⟨b, by rw [nameCaseInsensitiveEquals, hptr, Option.bind_some, hb]⟩

omit hs in
theorem splitPath_lt {path name rest : Bytes} (h : splitPath path = some (name, rest)) :
    rest.length < path.length := by
  unfold splitPath at h
  split at h
  · cases h
  next c cs hdrop =>
  simp only [Option.some.injEq, Prod.mk.injEq] at h
  have h1 : (c :: cs).length ≤ path.length := hdrop ▸ path.dropWhile_suffix _ |>.length_le
  have h2 : ((c :: cs).dropWhile (· ≠ 47)).length ≤ (c :: cs).length :=
    (List.dropWhile_suffix _).length_le
  rw [← h.2, List.length_drop]
  simp only [List.length_cons] at *
  omega

/-- The fuel a search for `path` needs among entries of which `left` follow. -/
def findFuel (total : Nat) (path : Bytes) (left : Nat) : Nat := path.length * (total + 2) + left

def Below (root : FileInfoGCWii) (found : Option FileInfoGCWii) : Prop :=
  ∀ fi, found = some fi → ∃ i, fi = root.withIndex i ∧ i < root.totalFileInfos

omit hs in
theorem below_none : Below root none := by intro fi h; cases h

/-- A search below an entry, and among the children from `a` to `b`, comes to an
    end inside the table. Induction on the fuel; a step to the next child and a
    step into a shorter path both leave enough. -/
theorem find_isSome (fuel : Nat) :
    (∀ path i, i < root.totalFileInfos →
      findFuel root.totalFileInfos path (root.totalFileInfos + 2) ≤ fuel →
      ∃ r, findIn shiftJISToUTF8 fuel path (root.withIndex i) = some r ∧ Below root r) ∧
    (∀ name rest a b, Chain root a b → b ≤ root.totalFileInfos →
      findFuel root.totalFileInfos rest (root.totalFileInfos + 2 + (b - a) + 1) ≤ fuel →
      ∃ r, findAmong shiftJISToUTF8 fuel name rest (root.withIndex a) b = some r ∧
        Below root r) := by
  induction fuel with
  | zero =>
    constructor
    · intro path i _ h; simp only [findFuel] at h; omega
    · intro name rest a b _ _ h; simp only [findFuel] at h; omega
  | succ fuel ih =>
    constructor
    · intro path i hi hfuel
      rw [findIn]
      split
      · exact ⟨_, rfl, fun fi h => ⟨i, (Option.some.inj h).symm, hi⟩⟩
      next name rest hsplit =>
      obtain ⟨stop, hstop, hle, hchain⟩ := next_chain hs hi
      rw [hstop, Option.bind_some, firstChild_eq hs hi]
      refine ih.2 name rest (i + 1) stop hchain hle ?_
      have hlt := splitPath_lt hsplit
      have hmul : (rest.length + 1) * (root.totalFileInfos + 2) ≤
          path.length * (root.totalFileInfos + 2) := Nat.mul_le_mul_right _ hlt
      rw [Nat.add_mul] at hmul
      simp only [findFuel] at *
      omega
    · intro name rest a b hchain hb hfuel
      have hab := hchain.le
      have heq : entryAddress a = entryAddress b ↔ a = b := entryAddress_inj hs.fits (by omega) hb
      simp only [findAmong, withIndex_index, heq]
      cases hchain with
      | done => exact ⟨none, by simp, below_none⟩
      | @next _ n _ hnext hgt hle hrest =>
        obtain ⟨eq, hname⟩ := nameCaseInsensitiveEquals_isSome hs shiftJISToUTF8
          (i := a) (by omega) name
        obtain ⟨r, hr, hbelow⟩ := ih.1 rest a (by omega) (by simp only [findFuel] at *; omega)
        obtain ⟨r', hr', hbelow'⟩ := ih.2 name rest n b hrest hb (by simp only [findFuel] at *; omega)
        rw [if_neg (by omega), hname, Option.bind_some]
        have hfound : ∃ found, (if eq then findIn shiftJISToUTF8 fuel rest (root.withIndex a)
            else some none) = some found ∧ Below root found := by
          cases eq
          · exact ⟨none, rfl, below_none⟩
          · exact ⟨r, hr, hbelow⟩
        obtain ⟨found, hfound, hb⟩ := hfound
        rw [hfound, Option.bind_some]
        cases found with
        | some fi => exact ⟨_, rfl, hb⟩
        | none =>
          simp only [hnext, Option.bind_some, withIndex_withIndex]
          exact ⟨r', hr', hbelow'⟩

end Names

theorem fileEnds_isSome : ∀ (n i : Nat), i + n ≤ root.totalFileInfos →
    ∃ l, fileEnds root i n = some l ∧ ∀ e ∈ l, e.2 < root.totalFileInfos
  | 0, _, _ => ⟨[], rfl, by simp⟩
  | n + 1, i, h => by
    obtain ⟨l, hl, hmem⟩ := fileEnds_isSome n (i + 1) (by omega)
    obtain ⟨dir, hdir⟩ := isDirectory_isSome hs.fits (i := i) (by omega)
    obtain ⟨size, hsize⟩ := get_isSome hs.fits (i := i) (by omega) .fileSize
    obtain ⟨offset, hoffset⟩ := get_isSome hs.fits (i := i) (by omega) .fileOffset
    simp only [fileEnds, hdir, Option.bind_some, getSize, hsize, getOffset, hoffset,
      Option.map_some, hl]
    cases dir with
    | true => exact ⟨l, by simp, hmem⟩
    | false =>
      by_cases hz : size = 0
      · exact ⟨l, by simp [hz], hmem⟩
      · refine ⟨(offset * 2 ^ (root.withIndex i).offsetShift + size, i) :: l, by simp [hz], ?_⟩
        intro e he
        rcases List.mem_cons.1 he with rfl | he
        · show i < _
          omega
        · exact hmem e he

omit hs in
theorem upperBoundStep_mem {offset : Nat} {best : Option (Nat × Nat)} {e b : Nat × Nat}
    (h : upperBoundStep offset best e = some b) : b = e ∨ best = some b := by
  unfold upperBoundStep at h
  split at h
  · exact Or.inr h
  · split at h
    · exact Or.inl (Option.some.inj h).symm
    · split at h
      · exact Or.inl (Option.some.inj h).symm
      · exact Or.inr h

omit hs in
theorem foldl_upperBoundStep_mem (offset : Nat) : ∀ (entries : List (Nat × Nat))
    (best : Option (Nat × Nat)) {b : Nat × Nat},
    entries.foldl (upperBoundStep offset) best = some b → b ∈ entries ∨ best = some b
  | [], _, _, h => Or.inr h
  | e :: rest, best, b, h => by
    rcases foldl_upperBoundStep_mem offset rest _ h with hmem | hstep
    · exact Or.inl (List.mem_cons_of_mem _ hmem)
    · rcases upperBoundStep_mem hstep with rfl | hbest
      · exact Or.inl (List.mem_cons_self ..)
      · exact Or.inr hbest

omit hs in
theorem upperBound_mem (entries : List (Nat × Nat)) (offset : Nat) {e : Nat × Nat}
    (h : upperBound entries offset = some e) : e ∈ entries := by
  rcases foldl_upperBoundStep_mem offset entries none h with hmem | hnone
  · exact hmem
  · cases hnone

end Walk
end FileInfoGCWii

/-! ### Safety of accepted tables -/

namespace FileSystemGCWii
open FileInfoGCWii

theorem loadFileSystem_sound {v : VolumeDisc} {fs : FileSystemGCWii}
    (hload : loadFileSystem v = some fs) (hvalid : fs.valid = true) : Sound fs.root := by
  simp only [loadFileSystem] at hload
  obtain ⟨shift, -, hload⟩ := Option.bind_eq_some_iff.1 hload
  obtain ⟨offset, -, hload⟩ := Option.bind_eq_some_iff.1 hload
  obtain ⟨size, -, hload⟩ := Option.bind_eq_some_iff.1 hload
  split at hload
  · cases hload
  split at hload
  · cases hload
  next hlimit =>
  obtain ⟨table, hread, hload⟩ := Option.bind_eq_some_iff.1 hload
  obtain ⟨root, hroot, rfl⟩ := Option.map_eq_some_iff.1 hload
  have hlen : table.length = size := v.read_length _ _ _ hread
  exact sound_of_accepts hroot (by omega) hvalid

section Reached
variable (shiftJISToUTF8 : Bytes → Bytes)

def pathFuel (fs : FileSystemGCWii) (path : Bytes) : Nat :=
  findFuel fs.root.totalFileInfos path (fs.root.totalFileInfos + 2)

/-- The entries a user of the file system can come by: the root, the children of
    such an entry, and what either search returns. -/
inductive Reached (fs : FileSystemGCWii) : FileInfoGCWii → Prop where
  | root : Reached fs fs.root
  | child {fi c : FileInfoGCWii} {l : List FileInfoGCWii} : Reached fs fi →
      children fs.root.totalFileInfos fi = some l → c ∈ l → Reached fs c
  | found {path : Bytes} {fi : FileInfoGCWii} :
      fs.findFileInfo shiftJISToUTF8 (fs.pathFuel path) path = some (some fi) → Reached fs fi
  | foundAt {discOffset : Nat} {fi : FileInfoGCWii} :
      fs.findFileInfoAt discOffset = some (some fi) → Reached fs fi

/-- Every way of using an entry stays inside the table and ends: its words are
    there, iterating over it arrives at its end index, and its name, its path and a
    search below it have results. -/
structure SafeEntry (fs : FileSystemGCWii) (fi : FileInfoGCWii) : Prop where
  word : ∀ p, ∃ n, fi.get p = some n
  iterate : ∃ stop, fi.getNextIndex = some stop ∧ Chain fs.root (fi.index + 1) stop
  children : ∃ l, children fs.root.totalFileInfos fi = some l
  name : ∃ name, fi.getName shiftJISToUTF8 = some name
  path : ∃ path, fi.getPath shiftJISToUTF8 fs.root.totalFileInfos = some path
  find : ∀ path, ∃ r, findIn shiftJISToUTF8 (fs.pathFuel path) path fi = some r

section Sound
variable {fs : FileSystemGCWii} (hs : Sound fs.root)
include hs

theorem safeEntry_withIndex {i : Nat} (hi : i < fs.root.totalFileInfos) :
    SafeEntry shiftJISToUTF8 fs (fs.root.withIndex i) := by
  obtain ⟨stop, hstop, -, hchain⟩ := next_chain hs hi
  obtain ⟨l, hl, -⟩ := children_isSome hs hi (Nat.le_refl _)
  refine ⟨get_isSome hs.fits hi, ⟨stop, hstop, hchain⟩, ⟨l, hl⟩,
    getName_isSome hs shiftJISToUTF8 hi, getPath_isSome hs shiftJISToUTF8 i hi _ hi, ?_⟩
  intro path
  obtain ⟨r, hr, -⟩ := (find_isSome hs shiftJISToUTF8 _).1 path i hi (Nat.le_refl _)
  exact ⟨r, hr⟩

theorem root_pos : 0 < fs.root.totalFileInfos := hs.rootOk.lt_size

theorem findFileInfo_isSome (path : Bytes) :
    ∃ r, fs.findFileInfo shiftJISToUTF8 (fs.pathFuel path) path = some r ∧ Below fs.root r := by
  unfold findFileInfo
  split
  · exact ⟨none, rfl, below_none⟩
  · have hfind := (find_isSome hs shiftJISToUTF8 (fs.pathFuel path)).1 path 0 (root_pos hs)
      (Nat.le_refl _)
    rwa [root_withIndex hs] at hfind

theorem findFileInfoAt_isSome (discOffset : Nat) :
    ∃ r, fs.findFileInfoAt discOffset = some r ∧ Below fs.root r := by
  unfold findFileInfoAt
  split
  · exact ⟨none, rfl, below_none⟩
  obtain ⟨cache, hcache, hmem⟩ := fileEnds_isSome hs fs.root.totalFileInfos 0 (by omega)
  have hsize : fs.root.getSize = some fs.root.totalFileInfos := by
    have := hs.rootOk.size_eq
    rwa [root_withIndex hs] at this
  simp only [hsize, hcache, Option.bind_some]
  split
  · exact ⟨none, rfl, below_none⟩
  next index hbound =>
  have hi : index < fs.root.totalFileInfos := hmem _ (upperBound_mem cache discOffset hbound)
  obtain ⟨offset, hoffset⟩ := get_isSome hs.fits hi .fileOffset
  simp only [getOffset, hoffset, Option.map_some]
  split
  · exact ⟨_, rfl, fun fi h => ⟨index, (Option.some.inj h).symm, hi⟩⟩
  · exact ⟨none, rfl, below_none⟩

theorem Reached.index_lt {fi : FileInfoGCWii} (h : Reached shiftJISToUTF8 fs fi) :
    ∃ i, fi = fs.root.withIndex i ∧ i < fs.root.totalFileInfos := by
  induction h with
  | root => exact ⟨0, (root_withIndex hs).symm, root_pos hs⟩
  | child _ hl hc ih =>
    obtain ⟨i, rfl, hi⟩ := ih
    obtain ⟨l', hl', hmem⟩ := children_isSome hs hi (Nat.le_refl _)
    obtain rfl : l' = _ := Option.some.inj (hl'.symm.trans hl)
    exact hmem _ hc
  | found h =>
    obtain ⟨r, hr, hbelow⟩ := findFileInfo_isSome shiftJISToUTF8 hs _
    rw [hr] at h
    exact hbelow _ (Option.some.inj h)
  | foundAt h =>
    obtain ⟨r, hr, hbelow⟩ := findFileInfoAt_isSome hs _
    rw [hr] at h
    exact hbelow _ (Option.some.inj h)

end Sound

/-- Every file system the constructor accepts is safe to walk, whatever its table
    holds and however many entries it claims. -/
theorem accepted_walk_safe (v : VolumeDisc) (fs : FileSystemGCWii)
    (hload : loadFileSystem v = some fs) (hvalid : fs.valid = true) :
    (∀ fi, Reached shiftJISToUTF8 fs fi → SafeEntry shiftJISToUTF8 fs fi) ∧
    (∀ path, ∃ r, fs.findFileInfo shiftJISToUTF8 (fs.pathFuel path) path = some r) ∧
    (∀ discOffset, ∃ r, fs.findFileInfoAt discOffset = some r) := by
  have hs := loadFileSystem_sound hload hvalid
  refine ⟨?_, ?_, ?_⟩
  · intro fi hfi
    obtain ⟨i, rfl, hi⟩ := hfi.index_lt shiftJISToUTF8 hs
    exact safeEntry_withIndex shiftJISToUTF8 hs hi
  · intro path
    obtain ⟨r, hr, -⟩ := findFileInfo_isSome shiftJISToUTF8 hs path
    exact ⟨r, hr⟩
  · intro discOffset
    obtain ⟨r, hr, -⟩ := findFileInfoAt_isSome hs discOffset
    exact ⟨r, hr⟩

/-- A GameCube volume of zeros but for its magic word, the two words that locate
    the table, and a table of the root and one file `a`. -/
def oneFileByte (offset : Nat) : UInt8 :=
  if 0x1c ≤ offset ∧ offset < 0x20 then ((be 4 gamecubeDiscMagic)[offset - 0x1c]?).getD 0
  else if 0x424 ≤ offset ∧ offset < 0x440 then ((be 4 0x440 ++ be 4 26)[offset - 0x424]?).getD 0
  else if 0x440 ≤ offset then
    ((be 4 (2 ^ 24) ++ be 4 0 ++ be 4 2 ++ (be 4 0 ++ be 4 0x1000 ++ be 4 5) ++
      [97, 0])[offset - 0x440]?).getD 0
  else 0

def oneFileVolume : VolumeDisc where
  offsetShift := 0
  read offset size := some ((List.range size).map fun i => oneFileByte (offset + i))
  read_length := by intro offset size bytes h; cases h; simp

def oneFileSystem : FileSystemGCWii :=
  (loadFileSystem oneFileVolume).getD ⟨false, [], ⟨[], 0, 0, 0⟩⟩

theorem oneFile_walk_safe : SafeEntry id oneFileSystem (oneFileSystem.root.withIndex 1) := by
  have hsome : (loadFileSystem oneFileVolume).isSome = true := by decide +kernel
  have hload : loadFileSystem oneFileVolume = some oneFileSystem := by
    obtain ⟨fs, hfs⟩ := Option.isSome_iff_exists.1 hsome
    rw [oneFileSystem, hfs, Option.getD_some]
  have hvalid : oneFileSystem.valid = true := by decide +kernel
  have hchild : children oneFileSystem.root.totalFileInfos oneFileSystem.root =
      some [oneFileSystem.root.withIndex 1] := by decide +kernel
  have hsafe := (accepted_walk_safe id oneFileVolume oneFileSystem hload hvalid).1
  exact hsafe _ ((@Reached.root id oneFileSystem).child hchild (by simp))

end Reached
end FileSystemGCWii
end DolphinXR.DiscIO
