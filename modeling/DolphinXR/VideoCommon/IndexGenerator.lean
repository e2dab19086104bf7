import DolphinXR.Lib.TriangleStrip

/- The indices of draws (VideoCommon/IndexGenerator.cpp). Every kind of primitive has a function
   that writes its indices, in one of two ways: as a list of triangles, or as strips behind each of
   which stands an index that restarts the primitive. Lines and points are written as they are, or,
   when the vertex shader expands them, as the two triangles of a rectangle.

   An index buffer is a function from positions; writing through a pointer puts an index there and
   moves the pointer. Vertices are counted with numbers that do not wrap: what is written of them
   is their low sixteen bits.

   `Primitive` are the kinds of primitives a draw command asks for, three bits of its opcode. -/
namespace DolphinXR.VideoCommon

inductive Primitive where
  | quads
  | quads2
  | triangles
  | triangleStrip
  | triangleFan
  | lines
  | lineStrip
  | points
  deriving DecidableEq

/-- The primitive of the bits an opcode has under `GX_PRIMITIVE_MASK`. -/
def Primitive.ofBits (b : BitVec 3) : Primitive :=
  match b.toNat with
  | 0 => quads
  | 1 => quads2
  | 2 => triangles
  | 3 => triangleStrip
  | 4 => triangleFan
  | 5 => lines
  | 6 => lineStrip
  | _ => points

def primitiveRestart : UInt16 := 0xFFFF

def toIndex (n : Nat) : UInt16 := UInt16.ofNat n

structure IndexPtr where
  buffer : Nat → UInt16
  pos : Nat

namespace IndexPtr

/-- `*index_ptr++ = index`. -/
def put (p : IndexPtr) (index : UInt16) : IndexPtr :=
  ⟨Function.update p.buffer p.pos index, p.pos + 1⟩

def writeTriangle (pr : Bool) (p : IndexPtr) (index1 index2 index3 : Nat) : IndexPtr :=
  let p := p.put (toIndex index1)
  let p := p.put (toIndex index2)
  let p := p.put (toIndex index3)
  if pr then p.put primitiveRestart else p

section Loops
variable (pr : Bool) (numVerts index : Nat)

def addListFrom (i : Nat) (p : IndexPtr) : IndexPtr :=
  if i < numVerts then
    addListFrom (i + 3) (p.writeTriangle pr (index + i - 2) (index + i - 1) (index + i))
  else p
termination_by numVerts - i

def addList (p : IndexPtr) : IndexPtr := addListFrom pr numVerts index 2 p

/-- The loop of `AddStrip<true>`. -/
def addStripIndices (i : Nat) (p : IndexPtr) : IndexPtr :=
  if i < numVerts then addStripIndices (i + 1) (p.put (toIndex (index + i))) else p
termination_by numVerts - i

/-- The loop of `AddStrip<false>`. -/
def addStripTriangles (i : Nat) (wind : Bool) (p : IndexPtr) : IndexPtr :=
  if i < numVerts then
    addStripTriangles (i + 1) (!wind) (p.writeTriangle false (index + i - 2)
      (index + i - (!wind).toNat) (index + i - wind.toNat))
  else p
termination_by numVerts - i

def addStrip (p : IndexPtr) : IndexPtr :=
  if pr then (addStripIndices numVerts index 0 p).put primitiveRestart
  else addStripTriangles numVerts index 2 false p

/-- The strips of three triangles of `AddFan<true>`, and where they end. -/
def addFanThrees (i : Nat) (p : IndexPtr) : Nat × IndexPtr :=
  if i + 3 ≤ numVerts then
    addFanThrees (i + 3) <| ((((((p.put (toIndex (index + i - 1))).put (toIndex (index + i + 0))).put
      (toIndex index)).put (toIndex (index + i + 1))).put (toIndex (index + i + 2))).put
      primitiveRestart)
  else (i, p)
termination_by numVerts - i

def addFanTwos (i : Nat) (p : IndexPtr) : Nat × IndexPtr :=
  if i + 2 ≤ numVerts then
    addFanTwos (i + 2) <| (((((p.put (toIndex (index + i - 1))).put (toIndex (index + i + 0))).put
      (toIndex index)).put (toIndex (index + i + 1))).put primitiveRestart)
  else (i, p)
termination_by numVerts - i

def addFanOnes (i : Nat) (p : IndexPtr) : IndexPtr :=
  if i < numVerts then
    addFanOnes (i + 1) (p.writeTriangle pr index (index + i - 1) (index + i))
  else p
termination_by numVerts - i

def addFan (p : IndexPtr) : IndexPtr :=
  let i := 2
  if pr then
    let (i, p) := addFanThrees numVerts index i p
    let (i, p) := addFanTwos numVerts index i p
    addFanOnes pr numVerts index i p
  else addFanOnes pr numVerts index i p

def addQuad (i : Nat) (p : IndexPtr) : IndexPtr :=
  if pr then
    ((((p.put (toIndex (index + i - 2))).put (toIndex (index + i - 1))).put
      (toIndex (index + i - 3))).put (toIndex (index + i - 0))).put primitiveRestart
  else
    (p.writeTriangle pr (index + i - 3) (index + i - 2) (index + i - 1)).writeTriangle pr
      (index + i - 3) (index + i - 1) (index + i - 0)

def addQuadsFrom (i : Nat) (p : IndexPtr) : Nat × IndexPtr :=
  if i < numVerts then addQuadsFrom (i + 4) (addQuad pr index i p) else (i, p)
termination_by numVerts - i

def addQuads (p : IndexPtr) : IndexPtr :=
  let (i, p) := addQuadsFrom pr numVerts index 3 p
  -- three vertices remaining, so render a triangle
  if i = numVerts then
    p.writeTriangle pr (index + numVerts - 3) (index + numVerts - 2) (index + numVerts - 1)
  else p

def addQuadsNonstandard (p : IndexPtr) : IndexPtr := addQuads pr numVerts index p

def addLineListFrom (i : Nat) (p : IndexPtr) : IndexPtr :=
  if i < numVerts then
    addLineListFrom (i + 2) ((p.put (toIndex (index + i - 1))).put (toIndex (index + i)))
  else p
termination_by numVerts - i

def addLineList (p : IndexPtr) : IndexPtr := addLineListFrom numVerts index 1 p

def addLineStripFrom (i : Nat) (p : IndexPtr) : IndexPtr :=
  if i < numVerts then
    addLineStripFrom (i + 1) ((p.put (toIndex (index + i - 1))).put (toIndex (index + i)))
  else p
termination_by numVerts - i

def addLineStrip (p : IndexPtr) : IndexPtr := addLineStripFrom numVerts index 1 p

/-- The rectangle on four corners, two of each of the points. -/
def addExpanded (p0 p1 : Nat) (p : IndexPtr) : IndexPtr :=
  if pr then
    ((((p.put (toIndex (p0 + 0))).put (toIndex (p0 + 1))).put (toIndex (p1 + 2))).put
      (toIndex (p1 + 3))).put primitiveRestart
  else
    (((((p.put (toIndex (p0 + 0))).put (toIndex (p0 + 1))).put (toIndex (p1 + 2))).put
      (toIndex (p0 + 1))).put (toIndex (p1 + 2))).put (toIndex (p1 + 3))

def addLinesVSExpandFrom (linestrip : Bool) (i : Nat) (p : IndexPtr) : IndexPtr :=
  let advance := if linestrip then 1 else 2
  if i < numVerts then
    let p0 := (index + i - 1) <<< 2
    let p1 := (index + i - 0) <<< 2
    addLinesVSExpandFrom linestrip (i + advance) (addExpanded pr p0 p1 p)
  else p
termination_by numVerts - i
decreasing_by split <;> omega

def addLinesVSExpand (linestrip : Bool) (p : IndexPtr) : IndexPtr :=
  addLinesVSExpandFrom pr numVerts index linestrip 1 p

def addPointsFrom (i : Nat) (p : IndexPtr) : IndexPtr :=
  if i < numVerts then addPointsFrom (i + 1) (p.put (toIndex (index + i))) else p
termination_by numVerts - i

def addPoints (p : IndexPtr) : IndexPtr := addPointsFrom numVerts index 0 p

def addPointsVSExpandFrom (i : Nat) (p : IndexPtr) : IndexPtr :=
  if i < numVerts then
    let base := (index + i) <<< 2
    addPointsVSExpandFrom (i + 1) (addExpanded pr base base p)
  else p
termination_by numVerts - i

def addPointsVSExpand (p : IndexPtr) : IndexPtr := addPointsVSExpandFrom pr numVerts index 0 p

end Loops

end IndexPtr

/-! ### The generator -/

/-- What the generator asks of the backend and the settings. -/
structure IndexConfig where
  supportsPrimitiveRestart : Bool
  useVSForLinePointExpand : Bool

structure IndexGenerator where
  buffer : Nat → UInt16
  indexBufferCurrent : Nat
  baseIndexPtr : Nat
  baseIndex : Nat
  primitiveRestart : Bool
  primitiveTable : Primitive → Nat → Nat → IndexPtr → IndexPtr

namespace IndexGenerator
open IndexPtr

def primitiveTableOf (config : IndexConfig) : Primitive → Nat → Nat → IndexPtr → IndexPtr
  | .quads => addQuads config.supportsPrimitiveRestart
  | .quads2 => addQuadsNonstandard config.supportsPrimitiveRestart
  | .triangles => addList config.supportsPrimitiveRestart
  | .triangleStrip => addStrip config.supportsPrimitiveRestart
  | .triangleFan => addFan config.supportsPrimitiveRestart
  | .lines =>
    if config.useVSForLinePointExpand then fun numVerts index =>
      addLinesVSExpand config.supportsPrimitiveRestart numVerts index false
    else addLineList
  | .lineStrip =>
    if config.useVSForLinePointExpand then fun numVerts index =>
      addLinesVSExpand config.supportsPrimitiveRestart numVerts index true
    else addLineStrip
  | .points =>
    if config.useVSForLinePointExpand then addPointsVSExpand config.supportsPrimitiveRestart
    else addPoints

def init (g : IndexGenerator) (config : IndexConfig) : IndexGenerator :=
  { g with
    primitiveRestart := config.supportsPrimitiveRestart
    primitiveTable := primitiveTableOf config }

def start (g : IndexGenerator) (indexPtr : Nat) : IndexGenerator :=
  { g with indexBufferCurrent := indexPtr, baseIndexPtr := indexPtr, baseIndex := 0 }

def addIndices (g : IndexGenerator) (primitive : Primitive) (numVertices : Nat) : IndexGenerator :=
  let p := g.primitiveTable primitive numVertices g.baseIndex ⟨g.buffer, g.indexBufferCurrent⟩
  { g with
    buffer := p.buffer
    indexBufferCurrent := p.pos
    baseIndex := g.baseIndex + numVertices }

def getIndexLen (g : IndexGenerator) : Nat := g.indexBufferCurrent - g.baseIndexPtr

/-- The indices added since `start`. -/
def indices (g : IndexGenerator) : List UInt16 :=
  (List.range g.getIndexLen).map fun i => g.buffer (g.baseIndexPtr + i)

/-- One step of the count: the triangles of the strips before, the length of this one. -/
def countIndex (count : Nat × Nat) (index : UInt16) : Nat × Nat :=
  if index ≠ VideoCommon.primitiveRestart then (count.1, count.2 + 1)
  else (if 3 ≤ count.2 then count.1 + (count.2 - 2) else count.1, 0)

def getTriangleCount (g : IndexGenerator) : Nat :=
  if !g.primitiveRestart then g.getIndexLen / 3
  else
    let (triangles, stripLength) := g.indices.foldl countIndex (0, 0)
    if 3 ≤ stripLength then triangles + (stripLength - 2) else triangles

end IndexGenerator

end DolphinXR.VideoCommon
