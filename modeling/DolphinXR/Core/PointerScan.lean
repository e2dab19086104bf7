import DolphinXR.Core.PointerPath

/- The pointer scan of the agent server (`Find` of Core/AgentServer/PointerScan.cpp): the index of the
   pointers in some regions of memory, and the search back from a target, breadth first, for paths
   to it from fixed words. A region lies within the addresses there are. -/
namespace DolphinXR.AgentServer.PointerScan

structure Region where
  base : Address
  bytes : List (BitVec 8)
  fits : base.toNat + bytes.length ≤ 2 ^ 32

structure Range where
  start : Address
  stop : Address
  deriving DecidableEq

def Range.contains (range : Range) (address : Address) : Bool :=
  range.start ≤ address && address < range.stop

def inRanges (ranges : List Range) (address : Address) : Bool := ranges.any (·.contains address)

def readBE32 (bytes : List (BitVec 8)) (offset : Nat) : Address :=
  bytes.getD offset 0 ++ bytes.getD (offset + 1) 0 ++ bytes.getD (offset + 2) 0 ++
    bytes.getD (offset + 3) 0

structure Options where
  maxDepth : Nat := 3
  maxOffset : Address := 0x1000
  maxResults : Nat := 5000
  maxNodes : Nat := 400000

structure Result where
  /-- Fewest pointers first, then smallest offsets. -/
  paths : List Path := []
  truncated : Bool := false
  pointers : Nat := 0

/-! The index. -/

def isTarget (regions : List Region) (value : Address) : Bool :=
  regions.any fun region =>
    region.base ≤ value && (value - region.base).toNat < region.bytes.length

def Region.pastRange (region : Region) (range : Range) : Nat :=
  ((range.stop - region.base).toNat + 3) / 4 * 4

theorem Region.toNat_location (region : Region) {offset : Nat}
    (h : offset < region.bytes.length) :
    (region.base + BitVec.ofNat 32 offset).toNat = region.base.toNat + offset := by
  have hfits := region.fits
  rw [BitVec.toNat_add, BitVec.toNat_ofNat, Nat.mod_eq_of_lt (a := offset) (by omega),
    Nat.mod_eq_of_lt (by omega)]

theorem Region.lt_pastRange (region : Region) {range : Range} {offset : Nat}
    (h : offset < region.bytes.length)
    (hcontains : range.contains (region.base + BitVec.ofNat 32 offset) = true) :
    offset < region.pastRange range := by
  have hlocation := region.toNat_location h
  rw [Range.contains, Bool.and_eq_true, decide_eq_true_eq, decide_eq_true_eq] at hcontains
  have hstop : region.base.toNat + offset < range.stop.toNat := hlocation ▸ hcontains.2
  have hle : region.base ≤ range.stop := BitVec.le_def.2 (by omega)
  rw [Region.pastRange, BitVec.toNat_sub_of_le hle]
  omega

/-- A word that is a pointer, with what it points to first. -/
def pointerAt (regions : List Region) (region : Region) (offset : Nat) :
    List (Address × Address) :=
  let value := readBE32 region.bytes offset
  if value &&& 3 = 0 ∧ isTarget regions value then
    [(value, region.base + BitVec.ofNat 32 offset)]
  else []

/-- The loop over the words of a region, from an offset on. -/
def pointersFrom (regions : List Region) (region : Region) (skip : List Range) (offset : Nat) :
    List (Address × Address) :=
  if _h : offset + 4 ≤ region.bytes.length then
    let location := region.base + BitVec.ofNat 32 offset
    let skip := skip.dropWhile fun range => range.stop ≤ location
    match _hskip : skip.head?.filter fun range => range.contains location with
    | some range => pointersFrom regions region skip (region.pastRange range)
    | none => pointerAt regions region offset ++ pointersFrom regions region skip (offset + 4)
  else []
termination_by region.bytes.length - offset
decreasing_by
  · obtain ⟨_, hcontains⟩ := Option.filter_eq_some_iff.1 _hskip
    have hlt := region.lt_pastRange (by omega) hcontains
    omega
  · omega

def pairLe (a b : Address × Address) : Prop := a.1 < b.1 ∨ (a.1 = b.1 ∧ a.2 ≤ b.2)

instance : DecidableRel pairLe := fun _ _ => inferInstanceAs (Decidable (_ ∨ _))

def startLe (a b : Range) : Prop := a.start ≤ b.start

instance : DecidableRel startLe := fun _ _ => inferInstanceAs (Decidable (_ ≤ _))

def pointerIndex (regions : List Region) (excluded : List Range) : List (Address × Address) :=
  let skipped := excluded.insertionSort startLe
  (regions.flatMap fun region => pointersFrom regions region skipped 0).insertionSort pairLe

/-! The search. -/

/-- An address to reach, with the offset to add after reading it to reach its parent. -/
structure Node where
  address : Address
  offset : Address
  parent : Option Nat

structure Search where
  nodes : List Node
  visited : List Address
  next : List Nat := []
  paths : List Path := []
  truncated : Bool := false

/-- The offsets from a node to the target. A node's parent comes before it. -/
def suffix (nodes : List Node) (index : Nat) : List Address :=
  match nodes[index]? with
  | some ⟨_, offset, some parent⟩ =>
    if parent < index then offset :: suffix nodes parent else [offset]
  | _ => []
termination_by index

structure Scan where
  index : List (Address × Address)
  staticRanges : List Range
  options : Options

def Scan.hits (scan : Scan) (address : Address) : List (Address × Address) :=
  let low := if scan.options.maxOffset ≤ address then address - scan.options.maxOffset else 0
  (scan.index.dropWhile fun it => ¬pairLe (low, 0) it).takeWhile fun it => it.1 ≤ address

/-- The loop over the pointers that lead to a node. -/
def Scan.visitHits (scan : Scan) (depth node : Nat) (address : Address) :
    List (Address × Address) → Search → Search
  | [], s => s
  | (value, location) :: hits, s =>
    let offset := address - value
    if inRanges scan.staticRanges location then
      let path := { base := location, offsets := offset :: suffix s.nodes node }
      let s := { s with paths := s.paths ++ [path] }
      if s.paths.length ≥ scan.options.maxResults then { s with truncated := true }
      else scan.visitHits depth node address hits s
    else if depth < scan.options.maxDepth ∧ location ∉ s.visited then
      let s := { s with visited := location :: s.visited }
      if s.nodes.length ≥ scan.options.maxNodes then
        scan.visitHits depth node address hits { s with truncated := true }
      else
        scan.visitHits depth node address hits
          { s with
            nodes := s.nodes ++ [⟨location, offset, some node⟩]
            next := s.next ++ [s.nodes.length] }
    else scan.visitHits depth node address hits s

/-- The loop over the nodes of a depth. -/
def Scan.visitFrontier (scan : Scan) (depth : Nat) : List Nat → Search → Search
  | [], s => s
  | node :: frontier, s =>
    match s.nodes[node]? with
    | none => s
    | some ⟨address, _, _⟩ =>
      let s := scan.visitHits depth node address (scan.hits address) s
      if s.paths.length ≥ scan.options.maxResults then s
      else scan.visitFrontier depth frontier s

/-- The loop over the depths, of which some are left. -/
def Scan.search (scan : Scan) (depth : Nat) : Nat → List Nat → Search → Search
  | 0, _, s => s
  | rounds + 1, frontier, s =>
    if frontier = [] then s
    else
      let s := scan.visitFrontier depth frontier { s with next := [] }
      if s.paths.length ≥ scan.options.maxResults then s
      else scan.search (depth + 1) rounds s.next s

def Path.total (path : Path) : Nat := (path.offsets.map BitVec.toNat).sum

def pathLe (a b : Path) : Prop :=
  a.offsets.length < b.offsets.length ∨
    (a.offsets.length = b.offsets.length ∧ a.total ≤ b.total)

instance : DecidableRel pathLe := fun _ _ => inferInstanceAs (Decidable (_ ∨ _))

/-- `Find`. -/
def findPaths (regions : List Region) (target : Address) (staticRanges excluded : List Range)
    (options : Options) : Result :=
  let scan : Scan := ⟨pointerIndex regions excluded, staticRanges, options⟩
  let s := scan.search 1 options.maxDepth [0]
    { nodes := [⟨target, 0, none⟩], visited := [target] }
  { paths := s.paths.insertionSort pathLe
    truncated := s.truncated
    pointers := scan.index.length }

end DolphinXR.AgentServer.PointerScan
