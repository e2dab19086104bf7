import DolphinXR.DiscIO.RiivolutionPaths
import DolphinXR.Lib.Bytes

/- Patches of files (DiscIO/RiivolutionPatcher.cpp, `ApplyPatchToFile`). A file of the disc is a
   list of sources, one behind the other. A patch cuts the sources at its start and its end, takes
   out those in between, puts its own there and drops what is behind the new end.

   `applyPatchToFile_spec` says what comes of it: the sources are one behind the other again and
   the file has the bytes of the external file, and zeros behind its end, where the patch is, and its
   old bytes elsewhere.

   Offsets are natural numbers: those of a patch and its length are 32-bit words, so that no sum with
   the size of a file needs more than 64 bits. What a partition or a volume is read from is a number.
   Left out: the file's name. -/
namespace DolphinXR.DiscIO.Riivolution
open Lib

namespace FilePatch

/-! ### Sources -/

inductive ContentSource where
  | file (filename : Path) (offset : Nat)
  | memory (bytes : Bytes)
  | partition (reader offset partitionDataOffset : Nat)
  | volume (offset disc number : Nat)
  | fixedByte (byte : UInt8)
  deriving DecidableEq

structure BuilderContentSource where
  offset : Nat
  size : Nat
  source : ContentSource
  deriving DecidableEq

/-- An `FSTBuilderNode` that is a file. -/
structure FileNode where
  size : Nat
  content : List BuilderContentSource
  deriving DecidableEq

/-- `FileDataLoaderHostFS`: the path of an external file, and the size of what is a file there. -/
structure Loader where
  makeAbsoluteFromRelative : Path → Option Path
  fileSize : Path → Option Nat

namespace Loader

def getExternalFileSize (loader : Loader) (name : Path) : Option Nat :=
  (loader.makeAbsoluteFromRelative name).bind loader.fileSize

def makeContentSource (loader : Loader) (name : Path)
    (externalOffset externalSize discOffset : Nat) : BuilderContentSource :=
  match loader.makeAbsoluteFromRelative name with
  | none => ⟨discOffset, externalSize, .fixedByte 0⟩
  | some path => ⟨discOffset, externalSize, .file path externalOffset⟩

end Loader

/-- A source without its first bytes. -/
def ContentSource.skip (n : Nat) : ContentSource → ContentSource
  | file filename offset => file filename (offset + n)
  | memory bytes => memory (bytes.drop n)
  | partition reader offset partitionDataOffset => partition reader (offset + n) partitionDataOffset
  | volume offset disc number => volume (offset + n) disc number
  | fixedByte byte => fixedByte byte

/-- The parts of a source before and behind an offset in its middle. -/
def splitAt (source : BuilderContentSource) (offset : Nat) :
    BuilderContentSource × BuilderContentSource :=
  let size := offset - source.offset
  ({ source with size },
    ⟨source.offset + size, source.offset + source.size - offset, source.source.skip size⟩)

def Cuts (offset : Nat) (source : BuilderContentSource) : Prop :=
  source.offset < offset ∧ offset < source.offset + source.size

instance (offset : Nat) (source : BuilderContentSource) : Decidable (Cuts offset source) :=
  inferInstanceAs (Decidable (_ ∧ _))

def splitAtEnd (patchEnd : Nat) (source : BuilderContentSource) : List BuilderContentSource :=
  if Cuts patchEnd source then [(splitAt source patchEnd).1, (splitAt source patchEnd).2]
  else [source]

/-- A source in the loop that splits. What is behind the start is looked at again, for the end;
    what is behind the end has neither offset in its middle. -/
def splitSource (patchStart patchEnd : Nat) (source : BuilderContentSource) :
    List BuilderContentSource :=
  if Cuts patchStart source then
    (splitAt source patchStart).1 :: splitAtEnd patchEnd (splitAt source patchStart).2
  else splitAtEnd patchEnd source

/-- The sources without those that the patch covers, and where these were. -/
def discard (patchStart patchEnd : Nat) (content : List BuilderContentSource) :
    List BuilderContentSource × Nat :=
  match content.findIdx? fun source => patchStart = source.offset with
  | none => (content, 0)
  | some insertWhere =>
    (content.take insertWhere ++ (content.drop insertWhere).dropWhile fun source =>
      source.offset + source.size ≤ patchEnd, insertWhere)

/-- The sources that are left, and where the patch goes: behind the end of the file, with zeros in
    between, or in the place of what it covers. -/
def clear (patchStart patchEnd : Nat) (node : FileNode) : List BuilderContentSource × Nat :=
  if node.size ≤ patchStart then
    let content :=
      if node.size < patchStart then
        node.content ++ [⟨node.size, patchStart - node.size, .fixedByte 0⟩]
      else node.content
    (content, content.length)
  else discard patchStart patchEnd (node.content.flatMap (splitSource patchStart patchEnd))

/-- The data of the patch, padded with zeros if the external file is smaller. -/
def patchSources (loader : Loader) (name : Path) (externalFileOffset externalFilesize patchStart
    patchSize : Nat) : List BuilderContentSource :=
  (if 0 < patchSize ∧ 0 < externalFilesize then
    [loader.makeContentSource name externalFileOffset (min patchSize externalFilesize) patchStart]
  else []) ++
  if externalFilesize < patchSize then
    [⟨patchStart + externalFilesize, patchSize - externalFilesize, .fixedByte 0⟩]
  else []

def applyPatchToFile (loader : Loader) (name : Path)
    (patchStart rawExternalFileOffset filePatchLength : Nat) (resize : Bool) (node : FileNode) : FileNode :=
  match loader.getExternalFileSize name with
  | none => node
  | some rawExternalFilesize =>
    let externalFileOffset := min rawExternalFileOffset rawExternalFilesize
    let externalFilesize := rawExternalFilesize - externalFileOffset
    let patchSize := if filePatchLength = 0 then externalFilesize else filePatchLength
    let patchEnd := patchStart + patchSize
    let targetFilesize := if resize then patchEnd else max node.size patchEnd
    let cleared := clear patchStart patchEnd node
    let patch := patchSources loader name externalFileOffset externalFilesize patchStart patchSize
    let content := cleared.1.take cleared.2 ++ patch ++ cleared.1.drop cleared.2
    { size := targetFilesize
      content := content.rdropWhile fun source => targetFilesize ≤ source.offset }

/-! ### Sources one behind the other -/

def Tiles : Nat → List BuilderContentSource → Nat → Prop
  | first, [], last => first = last
  | first, source :: rest, last => source.offset = first ∧ Tiles (first + source.size) rest last

structure Readers where
  file : Path → Nat → UInt8
  partition : Nat → Nat → Nat → UInt8
  volume : Nat → Nat → Nat → UInt8

def ContentSource.byteAt (readers : Readers) : ContentSource → Nat → UInt8
  | file filename offset, i => readers.file filename (offset + i)
  | memory bytes, i => bytes.getD i 0
  | partition reader offset partitionDataOffset, i =>
    readers.partition reader partitionDataOffset (offset + i)
  | volume offset disc number, i => readers.volume disc number (offset + i)
  | fixedByte byte, _ => byte

def Holds (offset : Nat) (source : BuilderContentSource) : Prop :=
  source.offset ≤ offset ∧ offset < source.offset + source.size

instance (offset : Nat) (source : BuilderContentSource) : Decidable (Holds offset source) :=
  inferInstanceAs (Decidable (_ ∧ _))

/-- The byte of a file at an offset: that of the source that holds it. -/
def byteOf (readers : Readers) (content : List BuilderContentSource) (offset : Nat) :
    Option UInt8 :=
  (content.find? fun source => Holds offset source).map fun source =>
    source.source.byteAt readers (offset - source.offset)

variable {readers : Readers} {xs ys : List BuilderContentSource} {first last k p : Nat}

theorem tiles_append : Tiles first (xs ++ ys) last ↔
    ∃ middle, Tiles first xs middle ∧ Tiles middle ys last := by
  induction xs generalizing first with
  | nil =>
    refine ⟨fun h => ⟨first, rfl, h⟩, ?_⟩
    rintro ⟨middle, rfl, h⟩
    exact h
  | cons source rest ih =>
    change source.offset = first ∧ Tiles (first + source.size) (rest ++ ys) last ↔ _
    rw [ih]
    constructor
    · rintro ⟨hoffset, middle, hrest, hys⟩
      exact ⟨middle, ⟨hoffset, hrest⟩, hys⟩
    · rintro ⟨middle, ⟨hoffset, hrest⟩, hys⟩
      exact ⟨hoffset, middle, hrest, hys⟩

theorem Tiles.le (h : Tiles first xs last) : first ≤ last := by
  induction xs generalizing first with
  | nil => exact Nat.le_of_eq h
  | cons source rest ih => exact Nat.le_trans (Nat.le_add_right _ _) (ih h.2)

theorem Tiles.offset_bounds (h : Tiles first xs last) {source : BuilderContentSource}
    (hmem : source ∈ xs) : first ≤ source.offset ∧ source.offset + source.size ≤ last := by
  induction xs generalizing first with
  | nil => cases hmem
  | cons head rest ih =>
    obtain ⟨hoffset, hrest⟩ := h
    rcases List.mem_cons.1 hmem with rfl | hmem
    · exact ⟨hoffset.ge, hoffset ▸ hrest.le⟩
    · obtain ⟨hle, hlast⟩ := ih hrest hmem
      exact ⟨Nat.le_trans (Nat.le_add_right _ _) hle, hlast⟩

theorem byteOf_append : byteOf readers (xs ++ ys) k =
    (byteOf readers xs k).or (byteOf readers ys k) := by
  rw [byteOf, List.find?_append, Option.map_or]
  rfl

theorem byteOf_eq_none (h : ∀ source ∈ xs, ¬ Holds k source) : byteOf readers xs k = none := by
  rw [byteOf, List.find?_eq_none.2 fun source hmem => by simpa using h source hmem]
  rfl

theorem Tiles.byteOf_eq_none (h : Tiles first xs last) (hk : k < first ∨ last ≤ k) :
    byteOf readers xs k = none := by
  refine FilePatch.byteOf_eq_none fun source hmem hholds => ?_
  obtain ⟨hfirst, hlast⟩ := h.offset_bounds hmem
  unfold Holds at hholds
  omega

theorem byteOf_single {source : BuilderContentSource} (h : Holds k source) :
    byteOf readers [source] k = some (source.source.byteAt readers (k - source.offset)) := by
  rw [byteOf, List.find?_cons_of_pos (by simpa using h)]
  rfl

/-! ### Splitting -/

theorem byteAt_skip (source : ContentSource) (n i : Nat) :
    (source.skip n).byteAt readers i = source.byteAt readers (n + i) := by
  cases source with
  | file filename offset => exact congrArg (readers.file filename) (Nat.add_assoc _ _ _)
  | memory bytes =>
    change (bytes.drop n).getD i 0 = bytes.getD (n + i) 0
    rw [List.getD_eq_getElem?_getD, List.getElem?_drop, List.getD_eq_getElem?_getD]
  | partition reader offset partitionDataOffset =>
    exact congrArg (readers.partition reader partitionDataOffset) (Nat.add_assoc _ _ _)
  | volume offset disc number =>
    exact congrArg (readers.volume disc number) (Nat.add_assoc _ _ _)
  | fixedByte byte => rfl

/-- Sources take the place of one: they lie where it lay and have its bytes. -/
structure Replaces (source : BuilderContentSource) (parts : List BuilderContentSource) : Prop where
  tiles : Tiles source.offset parts (source.offset + source.size)
  bytes : ∀ (readers : Readers) (k : Nat), byteOf readers parts k = byteOf readers [source] k

theorem Replaces.refl (source : BuilderContentSource) : Replaces source [source] :=
  ⟨⟨rfl, rfl⟩, fun _ _ => rfl⟩

theorem replaces_splitAt {source : BuilderContentSource} (h : Cuts p source) :
    Replaces source [(splitAt source p).1, (splitAt source p).2] := by
  obtain ⟨hstart, hend⟩ := h
  dsimp only [splitAt]
  refine ⟨⟨rfl, rfl, ?_⟩, fun readers k => ?_⟩
  · change source.offset + (p - source.offset) + (source.offset + source.size - p) = _
    omega
  · by_cases hk : Holds k source
    · rw [byteOf_single hk]
      unfold Holds at hk
      rcases Nat.lt_or_ge k p with hlt | hge
      · have hbefore : Holds k { source with size := p - source.offset } := by
          unfold Holds
          dsimp only
          omega
        rw [← List.singleton_append, byteOf_append, byteOf_single hbefore]
        rfl
      · have hbefore : byteOf readers [{ source with size := p - source.offset }] k = none := by
          refine byteOf_eq_none fun part hpart hholds => ?_
          obtain rfl := List.mem_singleton.1 hpart
          unfold Holds at hholds
          dsimp only at hholds
          omega
        have hafter : Holds k ⟨source.offset + (p - source.offset),
            source.offset + source.size - p, source.source.skip (p - source.offset)⟩ := by
          unfold Holds
          dsimp only
          omega
        rw [← List.singleton_append, byteOf_append, hbefore, Option.none_or,
          byteOf_single hafter, byteAt_skip]
        dsimp only
        rw [show p - source.offset + (k - (source.offset + (p - source.offset))) =
          k - source.offset by omega]
    · have hnone : byteOf readers [source] k = none :=
        byteOf_eq_none fun part hpart => by
          obtain rfl := List.mem_singleton.1 hpart
          exact hk
      rw [hnone]
      refine byteOf_eq_none fun part hpart hholds => hk ?_
      unfold Holds at hholds ⊢
      rcases List.mem_cons.1 hpart with rfl | hpart
      · dsimp only at hholds
        omega
      · obtain rfl := List.mem_singleton.1 hpart
        dsimp only at hholds
        omega

theorem replaces_splitAtEnd (p : Nat) (source : BuilderContentSource) :
    Replaces source (splitAtEnd p source) := by
  unfold splitAtEnd
  split
  case isTrue h => exact replaces_splitAt h
  case isFalse => exact .refl source

theorem replaces_splitSource (patchStart patchEnd : Nat) (source : BuilderContentSource) :
    Replaces source (splitSource patchStart patchEnd source) := by
  unfold splitSource
  split
  case isFalse => exact replaces_splitAtEnd patchEnd source
  case isTrue h =>
    obtain ⟨⟨hbefore, htiles⟩, hbytes⟩ := replaces_splitAt h
    obtain ⟨hafter, hlast⟩ := htiles
    dsimp only [splitAt] at hbefore hafter hlast hbytes ⊢
    generalize hpart : (⟨source.offset + (patchStart - source.offset),
      source.offset + source.size - patchStart,
      source.source.skip (patchStart - source.offset)⟩ : BuilderContentSource) = after at *
    have hparts := replaces_splitAtEnd patchEnd after
    refine ⟨⟨rfl, ?_⟩, fun readers k => ?_⟩
    · have htiles := hparts.tiles
      have hlast' : after.offset + after.size = source.offset + source.size := by
        rw [← hpart]
        exact hlast
      rw [hlast'] at htiles
      have hoffset : after.offset = source.offset + (patchStart - source.offset) := by rw [← hpart]
      rw [hoffset] at htiles
      exact htiles
    · rw [← hbytes, ← List.singleton_append, byteOf_append, hparts.bytes, ← byteOf_append,
        List.singleton_append]

theorem not_cuts_splitAtEnd {patchStart patchEnd : Nat} (hle : patchStart ≤ patchEnd)
    {source : BuilderContentSource} (h : ¬ Cuts patchStart source) :
    ∀ part ∈ splitAtEnd patchEnd source, ¬ Cuts patchStart part ∧ ¬ Cuts patchEnd part := by
  intro part hpart
  unfold splitAtEnd at hpart
  split at hpart
  case isTrue hcuts =>
    rcases List.mem_cons.1 hpart with rfl | hpart
    · unfold Cuts at *
      dsimp only [splitAt]
      omega
    · obtain rfl := List.mem_singleton.1 hpart
      unfold Cuts at *
      dsimp only [splitAt]
      omega
  case isFalse hcuts =>
    obtain rfl := List.mem_singleton.1 hpart
    exact ⟨h, hcuts⟩

theorem not_cuts_splitSource {patchStart patchEnd : Nat} (hle : patchStart ≤ patchEnd)
    (source : BuilderContentSource) :
    ∀ part ∈ splitSource patchStart patchEnd source,
      ¬ Cuts patchStart part ∧ ¬ Cuts patchEnd part := by
  intro part hpart
  unfold splitSource at hpart
  split at hpart
  case isFalse h => exact not_cuts_splitAtEnd hle h part hpart
  case isTrue h =>
    dsimp only [splitAt] at hpart
    rcases List.mem_cons.1 hpart with rfl | hpart
    · unfold Cuts at *
      dsimp only
      omega
    · refine not_cuts_splitAtEnd hle ?_ part hpart
      unfold Cuts at *
      dsimp only
      omega

theorem Tiles.flatMap {f : BuilderContentSource → List BuilderContentSource}
    (hf : ∀ source, Replaces source (f source)) (h : Tiles first xs last) :
    Tiles first (xs.flatMap f) last := by
  induction xs generalizing first with
  | nil => exact h
  | cons source rest ih =>
    obtain ⟨rfl, hrest⟩ := h
    rw [List.flatMap_cons]
    exact tiles_append.2 ⟨_, (hf source).tiles, ih hrest⟩

theorem byteOf_flatMap {f : BuilderContentSource → List BuilderContentSource}
    (hf : ∀ source, Replaces source (f source)) :
    byteOf readers (xs.flatMap f) k = byteOf readers xs k := by
  induction xs with
  | nil => rfl
  | cons source rest ih =>
    rw [List.flatMap_cons, byteOf_append, (hf source).bytes, ih, ← byteOf_append,
      List.singleton_append]

/-! ### What is covered -/

theorem Tiles.findIdx? (h : Tiles first xs last) (hcuts : ∀ source ∈ xs, ¬ Cuts p source)
    (hfirst : first ≤ p) (hlast : p < last) :
    ∃ i, xs.findIdx? (fun source => p = source.offset) = some i ∧
      Tiles first (xs.take i) p ∧ Tiles p (xs.drop i) last := by
  induction xs generalizing first with
  | nil =>
    have heq : first = last := h
    omega
  | cons source rest ih =>
    obtain ⟨hoffset, hrest⟩ := h
    by_cases heq : p = source.offset
    · refine ⟨0, ?_, hoffset.symm.trans heq.symm, heq.symm, ?_⟩
      · rw [List.findIdx?_cons, if_pos (decide_eq_true heq)]
      · rw [heq, hoffset]
        exact hrest
    · have hnot := hcuts source List.mem_cons_self
      unfold Cuts at hnot
      obtain ⟨i, hi, htake, hdrop⟩ := ih hrest
        (fun other hmem => hcuts other (List.mem_cons_of_mem _ hmem)) (by omega)
      refine ⟨i + 1, ?_, ⟨hoffset, htake⟩, hdrop⟩
      rw [List.findIdx?_cons, if_neg (by simpa using heq), hi]
      rfl

theorem Tiles.dropWhile {patchEnd : Nat} (h : Tiles p xs last)
    (hcuts : ∀ source ∈ xs, ¬ Cuts patchEnd source) (hle : p ≤ patchEnd) :
    (∃ middle ≤ patchEnd,
      Tiles p (xs.takeWhile fun source => source.offset + source.size ≤ patchEnd) middle) ∧
    let rest := xs.dropWhile fun source => source.offset + source.size ≤ patchEnd
    (rest = [] ∧ last ≤ patchEnd ∨ Tiles patchEnd rest last) := by
  induction xs generalizing p with
  | nil =>
    obtain rfl : p = last := h
    exact ⟨⟨p, hle, rfl⟩, .inl ⟨rfl, hle⟩⟩
  | cons source rest ih =>
    obtain ⟨hoffset, hrest⟩ := h
    have hnot := hcuts source List.mem_cons_self
    unfold Cuts at hnot
    by_cases hend : source.offset + source.size ≤ patchEnd
    · obtain ⟨⟨middle, hmiddle, hcovered⟩, hleft⟩ := ih hrest
        (fun other hmem => hcuts other (List.mem_cons_of_mem _ hmem)) (hoffset ▸ hend)
      dsimp only
      rw [List.takeWhile_cons_of_pos (by simpa using hend),
        List.dropWhile_cons_of_pos (by simpa using hend)]
      exact ⟨⟨middle, hmiddle, hoffset, hcovered⟩, hleft⟩
    · dsimp only
      rw [List.takeWhile_cons_of_neg (by simpa using hend),
        List.dropWhile_cons_of_neg (by simpa using hend)]
      have heq : p = patchEnd := by omega
      exact ⟨⟨p, hle, rfl⟩, .inr ⟨hoffset.trans heq, heq ▸ hrest⟩⟩

structure Cleared (patchStart patchEnd : Nat) (node : FileNode)
    (before after : List BuilderContentSource) : Prop where
  tilesBefore : Tiles 0 before patchStart
  tilesAfter : after = [] ∧ node.size ≤ patchEnd ∨ Tiles patchEnd after node.size
  bytesBefore : ∀ (readers : Readers) (k : Nat), k < patchStart → byteOf readers before k =
    if k < node.size then byteOf readers node.content k else some 0
  bytesAfter : ∀ (readers : Readers) (k : Nat), patchEnd ≤ k →
    byteOf readers after k = byteOf readers node.content k

theorem cleared_clear {patchStart patchEnd : Nat} {node : FileNode} (hle : patchStart ≤ patchEnd)
    (h : Tiles 0 node.content node.size) :
    Cleared patchStart patchEnd node
      ((clear patchStart patchEnd node).1.take (clear patchStart patchEnd node).2)
      ((clear patchStart patchEnd node).1.drop (clear patchStart patchEnd node).2) := by
  unfold clear
  split
  case isTrue hpast =>
    dsimp only
    rw [List.take_length, List.drop_length]
    have hafter : ∀ (readers : Readers) (k : Nat), patchEnd ≤ k →
        byteOf readers [] k = byteOf readers node.content k :=
      fun readers k hk => (h.byteOf_eq_none (.inr (by omega))).symm
    split
    case isTrue hgap =>
      refine ⟨tiles_append.2 ⟨_, h, rfl, ?_⟩, .inl ⟨rfl, by omega⟩, fun readers k hk => ?_, hafter⟩
      · change node.size + (patchStart - node.size) = patchStart
        omega
      · rw [byteOf_append]
        split
        case isTrue hsize =>
          have hnone : byteOf readers [⟨node.size, patchStart - node.size, .fixedByte 0⟩] k = none :=
            byteOf_eq_none fun source hmem hholds => by
              obtain rfl := List.mem_singleton.1 hmem
              unfold Holds at hholds
              dsimp only at hholds
              omega
          rw [hnone, Option.or_none]
        case isFalse hsize =>
          rw [h.byteOf_eq_none (.inr (by omega)), Option.none_or, byteOf_single]
          · rfl
          · unfold Holds
            dsimp only
            omega
    case isFalse hgap =>
      obtain rfl : node.size = patchStart := by omega
      refine ⟨h, .inl ⟨rfl, hle⟩, fun readers k hk => (if_pos hk).symm, hafter⟩
  case isFalse hinside =>
    have hsplit := replaces_splitSource patchStart patchEnd
    have htiles := h.flatMap hsplit
    have hcuts : ∀ part ∈ node.content.flatMap (splitSource patchStart patchEnd),
        ¬ Cuts patchStart part ∧ ¬ Cuts patchEnd part := by
      intro part hpart
      obtain ⟨source, -, hsource⟩ := List.mem_flatMap.1 hpart
      exact not_cuts_splitSource hle source part hsource
    have hbytes : ∀ (readers : Readers) (k : Nat),
        byteOf readers (node.content.flatMap (splitSource patchStart patchEnd)) k =
          byteOf readers node.content k := fun readers k => byteOf_flatMap hsplit
    generalize node.content.flatMap (splitSource patchStart patchEnd) = parts at *
    obtain ⟨i, hi, hbefore, hrest⟩ := htiles.findIdx? (fun part hpart => (hcuts part hpart).1)
      (Nat.zero_le _) (by omega)
    have hlength : (parts.take i).length = i := by
      have hlt := (List.findIdx?_eq_some_iff_getElem.1 hi).1
      rw [List.length_take]
      omega
    obtain ⟨⟨middle, hmiddle, hcovered⟩, hleft⟩ := hrest.dropWhile
      (fun part hpart => (hcuts part (List.mem_of_mem_drop hpart)).2) hle
    rw [discard, hi]
    dsimp only
    rw [List.take_left' hlength, List.drop_left' hlength]
    have hparts : parts = parts.take i ++
        ((parts.drop i).takeWhile (fun source => source.offset + source.size ≤ patchEnd) ++
          (parts.drop i).dropWhile fun source => source.offset + source.size ≤ patchEnd) := by
      rw [List.takeWhile_append_dropWhile, List.take_append_drop]
    refine ⟨hbefore, hleft, fun readers k hk => ?_, fun readers k hk => ?_⟩
    · have hsize : k < node.size := by omega
      have hcut : byteOf readers parts k =
          (byteOf readers (parts.take i) k).or (byteOf readers (parts.drop i) k) := by
        rw [← byteOf_append, List.take_append_drop]
      rw [if_pos hsize, ← hbytes, hcut, hrest.byteOf_eq_none (.inl hk), Option.or_none]
    · rw [← hbytes]
      conv_rhs => rw [hparts]
      rw [byteOf_append, byteOf_append, hbefore.byteOf_eq_none (.inr (by omega)), Option.none_or,
        hcovered.byteOf_eq_none (.inr (by omega)), Option.none_or]

/-! ### The patch and the new end -/

theorem patchSources_spec (loader : Loader) {name path : Path}
    (hpath : loader.makeAbsoluteFromRelative name = some path)
    (externalFileOffset externalFilesize patchStart patchSize : Nat) :
    Tiles patchStart (patchSources loader name externalFileOffset externalFilesize patchStart
        patchSize) (patchStart + patchSize) ∧
      ∀ (readers : Readers) (k : Nat), patchStart ≤ k → k < patchStart + patchSize →
        byteOf readers (patchSources loader name externalFileOffset externalFilesize patchStart
          patchSize) k =
          some (if k - patchStart < externalFilesize then
            readers.file path (externalFileOffset + (k - patchStart)) else 0) := by
  have hdata : loader.makeContentSource name externalFileOffset (min patchSize externalFilesize)
      patchStart = ⟨patchStart, min patchSize externalFilesize, .file path externalFileOffset⟩ := by
    rw [Loader.makeContentSource, hpath]
  unfold patchSources
  rw [hdata]
  refine ⟨tiles_append.2 ⟨patchStart + min patchSize externalFilesize, ?_, ?_⟩,
    fun readers k hfirst hlast => ?_⟩
  · split
    · exact ⟨rfl, rfl⟩
    · change patchStart = _
      omega
  · split
    · refine ⟨?_, ?_⟩
      · dsimp only
        omega
      · change _ + (patchSize - externalFilesize) = _
        omega
    · change _ = _
      omega
  · rw [byteOf_append]
    by_cases hinside : k - patchStart < externalFilesize
    · have hdata : 0 < patchSize ∧ 0 < externalFilesize := by omega
      rw [if_pos hinside, if_pos hdata, byteOf_single]
      · rfl
      · unfold Holds
        dsimp only
        omega
    · have hnone : byteOf readers (if 0 < patchSize ∧ 0 < externalFilesize then
          [⟨patchStart, min patchSize externalFilesize, .file path externalFileOffset⟩]
          else []) k = none := by
        refine byteOf_eq_none fun source hmem hholds => ?_
        split at hmem
        · obtain rfl := List.mem_singleton.1 hmem
          unfold Holds at hholds
          dsimp only at hholds
          omega
        · cases hmem
      have hpadding : externalFilesize < patchSize := by omega
      rw [if_neg hinside, hnone, Option.none_or, if_pos hpadding, byteOf_single]
      · rfl
      · unfold Holds
        dsimp only
        omega

theorem Tiles.rdropWhile (h : Tiles first xs last) :
    Tiles first (xs.rdropWhile fun source => last ≤ source.offset) last := by
  induction xs using List.reverseRecOn with
  | nil => exact h
  | append_singleton rest source ih =>
    by_cases hdrop : last ≤ source.offset
    · obtain ⟨middle, hrest, hoffset, hend⟩ := tiles_append.1 h
      have hmiddle : middle + source.size = last := hend
      obtain rfl : middle = last := by omega
      rw [List.rdropWhile_concat_pos _ _ _ (by simpa using hdrop)]
      exact ih hrest
    · rw [List.rdropWhile_concat_neg _ _ _ (by simpa using hdrop)]
      exact h

theorem rdropWhile_append {target : Nat} (hys : ∀ source ∈ ys, target ≤ source.offset) :
    (xs ++ ys).rdropWhile (fun source => target ≤ source.offset) =
      xs.rdropWhile fun source => target ≤ source.offset := by
  induction ys using List.reverseRecOn with
  | nil => rw [List.append_nil]
  | append_singleton rest source ih =>
    have hdrop := hys source (List.mem_append_right _ (List.mem_singleton_self _))
    rw [← List.append_assoc, List.rdropWhile_concat_pos _ _ _ (by simpa using hdrop)]
    exact ih fun other hmem => hys other (List.mem_append_left _ hmem)

theorem byteOf_rdropWhile {target : Nat} (hk : k < target) :
    byteOf readers (xs.rdropWhile fun source => target ≤ source.offset) k =
      byteOf readers xs k := by
  induction xs using List.reverseRecOn with
  | nil => rfl
  | append_singleton rest source ih =>
    by_cases hdrop : target ≤ source.offset
    · have hnone : byteOf readers [source] k = none :=
        byteOf_eq_none fun other hmem hholds => by
          obtain rfl := List.mem_singleton.1 hmem
          unfold Holds at hholds
          omega
      rw [List.rdropWhile_concat_pos _ _ _ (by simpa using hdrop), ih, byteOf_append, hnone,
        Option.or_none]
    · rw [List.rdropWhile_concat_neg _ _ _ (by simpa using hdrop)]

/-- The sources of a patched file lie one behind the other up to its new size. Its bytes are those
    of the external file, and zeros behind the end of that, where the patch is; elsewhere they are the
    old ones, and zeros where there were none. -/
theorem applyPatchToFile_spec (loader : Loader) (readers : Readers) (name path : Path)
    (patchStart rawExternalFileOffset filePatchLength rawExternalFilesize : Nat) (resize : Bool)
    (node : FileNode) (hpath : loader.makeAbsoluteFromRelative name = some path)
    (hsize : loader.fileSize path = some rawExternalFilesize)
    (htiles : Tiles 0 node.content node.size) :
    let patchEnd := patchStart + if filePatchLength = 0 then
      rawExternalFilesize - min rawExternalFileOffset rawExternalFilesize else filePatchLength
    let patched := applyPatchToFile loader name patchStart rawExternalFileOffset filePatchLength
      resize node
    patched.size = (if resize then patchEnd else max node.size patchEnd) ∧
      Tiles 0 patched.content patched.size ∧
      ∀ k < patched.size, byteOf readers patched.content k =
        if patchStart ≤ k ∧ k < patchEnd then
          some (if rawExternalFileOffset + (k - patchStart) < rawExternalFilesize then
            readers.file path (rawExternalFileOffset + (k - patchStart)) else 0)
        else if k < node.size then byteOf readers node.content k else some 0 := by
  have hexternal : loader.getExternalFileSize name = some rawExternalFilesize := by
    rw [Loader.getExternalFileSize, hpath]
    exact hsize
  unfold applyPatchToFile
  rw [hexternal]
  dsimp only
  generalize hpatchSize : (if filePatchLength = 0 then
    rawExternalFilesize - min rawExternalFileOffset rawExternalFilesize
    else filePatchLength) = patchSize
  obtain ⟨patchEnd, hpatchEnd⟩ : ∃ patchEnd, patchEnd = patchStart + patchSize := ⟨_, rfl⟩
  rw [← hpatchEnd]
  have hle : patchStart ≤ patchEnd := by omega
  obtain ⟨hbefore, hafter, hbytesBefore, hbytesAfter⟩ := cleared_clear hle htiles
  obtain ⟨hpatch, hbytesPatch⟩ := patchSources_spec loader hpath
    (min rawExternalFileOffset rawExternalFilesize)
    (rawExternalFilesize - min rawExternalFileOffset rawExternalFilesize) patchStart patchSize
  rw [← hpatchEnd] at hpatch hbytesPatch
  generalize (clear patchStart patchEnd node).1.take (clear patchStart patchEnd node).2 = before at *
  generalize (clear patchStart patchEnd node).1.drop (clear patchStart patchEnd node).2 = after at *
  generalize patchSources loader name (min rawExternalFileOffset rawExternalFilesize)
    (rawExternalFilesize - min rawExternalFileOffset rawExternalFilesize) patchStart patchSize =
      patch at *
  have hfront : Tiles 0 (before ++ patch) patchEnd := tiles_append.2 ⟨_, hbefore, hpatch⟩
  have hbytesBehind : ∀ k < patchEnd, byteOf readers after k = none := by
    intro k hk
    rcases hafter with ⟨rfl, -⟩ | hafter
    · rfl
    · exact hafter.byteOf_eq_none (.inl hk)
  refine ⟨rfl, ?_, fun k hk => ?_⟩
  · cases resize with
    | true =>
      have hdropped : ∀ source ∈ after, patchEnd ≤ source.offset := by
        intro source hmem
        rcases hafter with ⟨rfl, -⟩ | hafter
        · cases hmem
        · exact (hafter.offset_bounds hmem).1
      rw [if_pos rfl, rdropWhile_append hdropped]
      exact hfront.rdropWhile
    | false =>
      rw [if_neg Bool.false_ne_true]
      have hall : Tiles 0 (before ++ patch ++ after) (max node.size patchEnd) := by
        refine tiles_append.2 ⟨_, hfront, ?_⟩
        rcases hafter with ⟨rfl, hend⟩ | hafter
        · exact (max_eq_right hend).symm
        · rw [max_eq_left hafter.le]
          exact hafter
      exact hall.rdropWhile
  · rw [byteOf_rdropWhile hk, byteOf_append, byteOf_append]
    rcases Nat.lt_or_ge k patchStart with hlt | hge
    · have hnot : ¬ (patchStart ≤ k ∧ k < patchEnd) := by omega
      rw [hpatch.byteOf_eq_none (.inl hlt), Option.or_none, hbytesBehind k (by omega),
        Option.or_none, hbytesBefore readers k hlt, if_neg hnot]
    · rw [hbefore.byteOf_eq_none (.inr hge), Option.none_or]
      rcases Nat.lt_or_ge k patchEnd with hlt | hbehind
      · have hcovered : patchStart ≤ k ∧ k < patchEnd := ⟨hge, hlt⟩
        rw [hbytesBehind k hlt, Option.or_none, hbytesPatch readers k hge hlt, if_pos hcovered]
        by_cases hinside : rawExternalFileOffset + (k - patchStart) < rawExternalFilesize
        · have hdata : k - patchStart <
              rawExternalFilesize - min rawExternalFileOffset rawExternalFilesize := by omega
          rw [if_pos hinside, if_pos hdata, min_eq_left (by omega)]
        · have hpadding : ¬ k - patchStart <
              rawExternalFilesize - min rawExternalFileOffset rawExternalFilesize := by omega
          rw [if_neg hinside, if_neg hpadding]
      · have hnot : ¬ (patchStart ≤ k ∧ k < patchEnd) := by omega
        have hold : k < node.size := by
          split at hk
          · omega
          · omega
        rw [hpatch.byteOf_eq_none (.inr hbehind), Option.none_or, hbytesAfter readers k hbehind,
          if_neg hnot, if_pos hold]

/-- Four bytes, and an external file of one byte that takes the place of two of them. -/
def fourBytes : FileNode := ⟨4, [⟨0, 4, .memory [1, 2, 3, 4]⟩]⟩

def oneByte : Loader := ⟨some, fun _ => some 1⟩

def nines : Readers := ⟨fun _ _ => 9, fun _ _ _ => 0, fun _ _ _ => 0⟩

theorem applyPatchToFile_spec_oneByte :
    let patched := applyPatchToFile oneByte [] 1 0 2 false fourBytes
    Tiles 0 patched.content 4 ∧ byteOf nines patched.content 1 = some 9 ∧
      byteOf nines patched.content 2 = some 0 ∧ byteOf nines patched.content 3 = some 4 := by
  obtain ⟨-, htiles, hbytes⟩ :=
    applyPatchToFile_spec oneByte nines [] [] 1 0 2 1 false fourBytes rfl rfl ⟨rfl, rfl⟩
  exact ⟨htiles, hbytes 1 (by decide), hbytes 2 (by decide), hbytes 3 (by decide)⟩

end FilePatch
end DolphinXR.DiscIO.Riivolution
