import Mathlib.Logic.Function.Basic
import Mathlib.Algebra.GroupWithZero.Nat

/- The registers of the command processor that say how vertices are laid out
   (VideoCommon/CPMemory.h): the vertex descriptor, which says what a vertex has, and the attribute
   table, which says how it is stored. Both are words whose fields are read out of their bits.

   They give the sizes of the parts of a vertex (the `GetSize` tables of the loaders of VideoCommon)
   and of the whole vertex (`GetVertexSize` of VideoCommon/VertexLoaderBase.cpp). -/
namespace DolphinXR.VideoCommon

inductive VertexComponentFormat where
  | notPresent
  | direct
  | index8
  | index16
  deriving DecidableEq

def VertexComponentFormat.ofBits (b : BitVec 2) : VertexComponentFormat :=
  match b.toNat with
  | 0 => notPresent
  | 1 => direct
  | 2 => index8
  | _ => index16

def isIndexed (format : VertexComponentFormat) : Bool :=
  decide (format = .index8) || decide (format = .index16)

inductive ComponentFormat where
  | ubyte
  | byte
  | ushort
  | short
  | float
  | invalidFloat5
  | invalidFloat6
  | invalidFloat7
  deriving DecidableEq

def ComponentFormat.ofBits (b : BitVec 3) : ComponentFormat :=
  match b.toNat with
  | 0 => ubyte
  | 1 => byte
  | 2 => ushort
  | 3 => short
  | 4 => float
  | 5 => invalidFloat5
  | 6 => invalidFloat6
  | _ => invalidFloat7

inductive CoordComponentCount where
  | xy
  | xyz
  deriving DecidableEq

inductive NormalComponentCount where
  | n
  | ntb
  deriving DecidableEq

inductive TexComponentCount where
  | s
  | st
  deriving DecidableEq

/-- The last two are not among the source's, but the field has room for them. -/
inductive ColorFormat where
  | rgb565
  | rgb888
  | rgb888x
  | rgba4444
  | rgba6666
  | rgba8888
  | invalid6
  | invalid7
  deriving DecidableEq

def ColorFormat.ofBits (b : BitVec 3) : ColorFormat :=
  match b.toNat with
  | 0 => rgb565
  | 1 => rgb888
  | 2 => rgb888x
  | 3 => rgba4444
  | 4 => rgba6666
  | 5 => rgba8888
  | 6 => invalid6
  | _ => invalid7

/-- Not above `RGBA8888`. -/
def ColorFormat.isValid : ColorFormat → Bool
  | invalid6 | invalid7 => false
  | _ => true

structure TVtxDesc where
  low : BitVec 32
  high : BitVec 32
  deriving DecidableEq

namespace TVtxDesc
variable (desc : TVtxDesc)

def posMatIdx : Bool := desc.low.getLsbD 0

def texMatIdx (i : Nat) : Bool := desc.low.getLsbD (1 + i)

def position : VertexComponentFormat := .ofBits (desc.low.extractLsb' 9 2)

def normal : VertexComponentFormat := .ofBits (desc.low.extractLsb' 11 2)

def color (i : Nat) : VertexComponentFormat := .ofBits (desc.low.extractLsb' (13 + 2 * i) 2)

def texCoord (i : Nat) : VertexComponentFormat := .ofBits (desc.high.extractLsb' (2 * i) 2)

end TVtxDesc

structure VAT where
  g0 : BitVec 32
  g1 : BitVec 32
  g2 : BitVec 32
  deriving DecidableEq

namespace VAT
variable (vat : VAT)

def posElements : CoordComponentCount := if vat.g0.getLsbD 0 then .xyz else .xy

def posFormat : ComponentFormat := .ofBits (vat.g0.extractLsb' 1 3)

def posFrac : BitVec 5 := vat.g0.extractLsb' 4 5

def normalElements : NormalComponentCount := if vat.g0.getLsbD 9 then .ntb else .n

def normalFormat : ComponentFormat := .ofBits (vat.g0.extractLsb' 10 3)

def normalIndex3 : Bool := vat.g0.getLsbD 31

def getColorFormat : Nat → ColorFormat
  | 0 => .ofBits (vat.g0.extractLsb' 14 3)
  | 1 => .ofBits (vat.g0.extractLsb' 18 3)
  | _ => .rgb565

/-- The group and the bit of it at which the fields of a texture coordinate begin. -/
def texFields : Nat → BitVec 32 × Nat
  | 0 => (vat.g0, 21)
  | 1 => (vat.g1, 0)
  | 2 => (vat.g1, 9)
  | 3 => (vat.g1, 18)
  | 4 => (vat.g1, 27)
  | 5 => (vat.g2, 5)
  | 6 => (vat.g2, 14)
  | _ => (vat.g2, 23)

def getTexElements (i : Nat) : TexComponentCount :=
  if (vat.texFields i).1.getLsbD (vat.texFields i).2 then .st else .s

def getTexFormat (i : Nat) : ComponentFormat :=
  .ofBits ((vat.texFields i).1.extractLsb' ((vat.texFields i).2 + 1) 3)

def getTexFrac (i : Nat) : BitVec 5 :=
  if i = 4 then vat.g2.extractLsb' 0 5
  else (vat.texFields i).1.extractLsb' ((vat.texFields i).2 + 4) 5

end VAT

/-! ### The sizes of vertices -/

def CoordComponentCount.pick {α : Type} (elements : CoordComponentCount) (row : α × α) : α :=
  match elements with
  | .xy => row.1
  | .xyz => row.2

def TexComponentCount.pick {α : Type} (elements : TexComponentCount) (row : α × α) : α :=
  match elements with
  | .s => row.1
  | .st => row.2

namespace VertexLoaderPosition

def getSize (type : VertexComponentFormat) (format : ComponentFormat)
    (elements : CoordComponentCount) : Nat :=
  match type with
  | .notPresent => 0
  | .direct =>
    match format with
    | .ubyte | .byte => elements.pick (2, 3)
    | .ushort | .short => elements.pick (4, 6)
    | .float | .invalidFloat5 | .invalidFloat6 | .invalidFloat7 => elements.pick (8, 12)
  | .index8 => 1
  | .index16 => 2

end VertexLoaderPosition

namespace VertexLoaderNormal

def getSize (type : VertexComponentFormat) (format : ComponentFormat)
    (elements : NormalComponentCount) (index3 : Bool) : Nat :=
  match type, elements with
  | .notPresent, _ => 0
  | .direct, .n =>
    match format with
    | .ubyte | .byte => 3
    | .ushort | .short => 6
    | .float | .invalidFloat5 | .invalidFloat6 | .invalidFloat7 => 12
  | .direct, .ntb =>
    match format with
    | .ubyte | .byte => 9
    | .ushort | .short => 18
    | .float | .invalidFloat5 | .invalidFloat6 | .invalidFloat7 => 36
  | .index8, .n => 1
  | .index8, .ntb => if index3 then 3 else 1
  | .index16, .n => 2
  | .index16, .ntb => if index3 then 6 else 2

end VertexLoaderNormal

namespace VertexLoaderColor

def getSize (type : VertexComponentFormat) (format : ColorFormat) : Nat :=
  if format.isValid then
    match type with
    | .notPresent => 0
    | .direct =>
      match format with
      | .rgb565 | .rgba4444 => 2
      | .rgb888 | .rgba6666 => 3
      | _ => 4
    | .index8 => 1
    | .index16 => 2
  else 0

end VertexLoaderColor

namespace VertexLoaderTextCoord

def getSize (type : VertexComponentFormat) (format : ComponentFormat) (elements : TexComponentCount) :
    Nat :=
  match type with
  | .notPresent => 0
  | .direct =>
    match format with
    | .ubyte | .byte => elements.pick (1, 2)
    | .ushort | .short => elements.pick (2, 4)
    | .float | .invalidFloat5 | .invalidFloat6 | .invalidFloat7 => elements.pick (4, 8)
  | .index8 => 1
  | .index16 => 2

end VertexLoaderTextCoord

def popcount (x : BitVec 32) : Nat := (List.range 32).countP x.getLsbD

def getVertexSize (desc : TVtxDesc) (vat : VAT) : Nat :=
  popcount (desc.low &&& 0x1FF#32)
    + VertexLoaderPosition.getSize desc.position vat.posFormat vat.posElements
    + VertexLoaderNormal.getSize desc.normal vat.normalFormat vat.normalElements vat.normalIndex3
    + ((List.range 2).map fun i => VertexLoaderColor.getSize (desc.color i) (vat.getColorFormat i)).sum
    + ((List.range 8).map fun i =>
        VertexLoaderTextCoord.getSize (desc.texCoord i) (vat.getTexFormat i) (vat.getTexElements i)).sum

theorem countP_eq_sum {α : Type} (p : α → Bool) (l : List α) :
    l.countP p = (l.map fun a => (p a).toNat).sum := by
  induction l with
  | nil => rfl
  | cons a l ih =>
    rw [List.countP_cons, ih, List.map_cons, List.sum_cons, Nat.add_comm]
    cases p a <;> rfl

theorem getLsbD_low (low : BitVec 32) (i : Nat) :
    (low &&& 0x1FF#32).getLsbD i = (decide (i < 9) && low.getLsbD i) := by
  have hmask : (0x1FF#32 : BitVec 32) = BitVec.ofNat 32 (2 ^ 9 - 1) := rfl
  rw [BitVec.getLsbD_and, hmask, BitVec.getLsbD_ofNat, Nat.testBit_two_pow_sub_one, Bool.and_comm]
  by_cases h : i < 9
  · simp [h, Nat.lt_trans h]
  · simp [h]

theorem popcount_matIdx (desc : TVtxDesc) :
    popcount (desc.low &&& 0x1FF#32) =
      desc.posMatIdx.toNat + ((List.range 8).map fun i => (desc.texMatIdx i).toNat).sum := by
  have hsplit : List.range 32 =
      0 :: (List.range 8).map (1 + ·) ++ (List.range 23).map (9 + ·) := by decide
  have hlow : ((List.range 8).map fun i => ((desc.low &&& 0x1FF#32).getLsbD (1 + i)).toNat) =
      (List.range 8).map fun i => (desc.texMatIdx i).toNat := by
    refine List.map_congr_left fun i hi => ?_
    have hi := List.mem_range.1 hi
    rw [getLsbD_low, decide_eq_true (by omega), Bool.true_and]
    rfl
  have hhigh : ((List.range 23).map fun i => ((desc.low &&& 0x1FF#32).getLsbD (9 + i)).toNat) =
      (List.range 23).map fun _ => 0 := by
    refine List.map_congr_left fun i _ => ?_
    rw [getLsbD_low, decide_eq_false (by omega), Bool.false_and]
    rfl
  rw [popcount, countP_eq_sum, hsplit, List.map_append, List.sum_append, List.map_cons,
    List.sum_cons, List.map_map, List.map_map]
  simp only [Function.comp_def]
  rw [hlow, hhigh, getLsbD_low]
  rfl

end DolphinXR.VideoCommon
