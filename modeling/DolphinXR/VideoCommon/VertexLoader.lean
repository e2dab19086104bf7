import DolphinXR.VideoCommon.CPMemory

/- The software vertex loader (VideoCommon/VertexLoader.cpp with the readers of positions, normals,
   colours and texture coordinates). The translator compiles a descriptor and an attribute table to
   a pipeline of stages and declares where each attribute is written; the pipeline is run once for
   each vertex.

   Every write is of four bytes. A word that is written is kept with what it is, as the reader that
   writes it knows it. Arithmetic on floating-point numbers is a parameter. The caches of the last
   vertices, which no reader reads, are left out. -/
namespace DolphinXR.VideoCommon

inductive Scalar where
  | u8
  | s8
  | u16
  | s16
  | f32
  deriving DecidableEq

def Scalar.size : Scalar → Nat
  | u8 | s8 => 1
  | u16 | s16 => 2
  | f32 => 4

inductive IndexType where
  | u8
  | u16
  deriving DecidableEq

def IndexType.size : IndexType → Nat
  | u8 => 1
  | u16 => 2

def IndexType.max : IndexType → Nat
  | u8 => 0xFF
  | u16 => 0xFFFF

/-- `scale` is a number times the reciprocal of a power of two, `fracAdjust` one divided by the
    range of its type, `ofIndex` the number of a byte. -/
structure Floats where
  scale : Scalar → BitVec 32 → BitVec 5 → BitVec 32
  fracAdjust : Scalar → BitVec 32 → BitVec 32
  ofIndex : BitVec 8 → BitVec 32

namespace Floats
variable (floats : Floats)

/-- `PosScale` and `TCScale`. -/
def scaled (T : Scalar) (value : BitVec 32) (frac : BitVec 5) : BitVec 32 :=
  if T = .f32 then value else floats.scale T value frac

def fracAdjusted (T : Scalar) (value : BitVec 32) : BitVec 32 :=
  if T = .f32 then value else floats.fracAdjust T value

end Floats

/-- What a written word is: a component of an attribute, the matrix index read as so many-th, or a
    zero in front of one. -/
inductive Slot where
  | posmtx
  | position (component : Nat)
  | normal (component : Nat)
  | color (i : Nat)
  | texcoord (i component : Nat)
  | texmtx (i : Nat)
  | zero
  deriving DecidableEq

/-- What the readers read: the vertices, the arrays from their bases on with their strides, and the
    fractions of the attribute table. -/
structure VertexSource where
  src : Nat → UInt8
  array : Nat → Nat → UInt8
  arrayStride : Nat → Nat
  vat : VAT
  floats : Floats

def arrayPosition : Nat := 0
def arrayNormal : Nat := 1
def arrayColor0 : Nat := 2
def arrayTexCoord0 : Nat := 4

/-- A big-endian number of `n` bytes. -/
def dataPeek (bytes : Nat → UInt8) (offset n : Nat) : Nat :=
  (List.range n).foldl (fun value i => value * 256 + (bytes (offset + i)).toNat) 0

structure LoaderState where
  read : Nat := 0
  write : Nat := 0
  dst : Nat → Option (Slot × BitVec 32) := fun _ => none
  tcIndex : Nat := 0
  colIndex : Nat := 0
  curtexmtx : Nat → BitVec 8 := fun _ => 0
  texmtxwrite : Nat := 0
  texmtxread : Nat := 0
  vertexSkip : Bool := false
  skippedVertices : Nat := 0

namespace LoaderState
variable (s : LoaderState) (source : VertexSource)

def dataSkip (n : Nat) : LoaderState := { s with read := s.read + n }

def dataWrite (slot : Slot) (value : BitVec 32) : LoaderState :=
  { s with dst := Function.update s.dst s.write (some (slot, value)), write := s.write + 4 }

def dataWrites (words : List (Slot × BitVec 32)) : LoaderState :=
  words.foldl (fun s word => s.dataWrite word.1 word.2) s

/-- `DataWrite(value(DataRead<T>()))`, `n` times from the `i`-th component on. -/
def readDirect (T : Scalar) (slot : Nat → Slot) (value : BitVec 32 → BitVec 32) :
    Nat → Nat → LoaderState → LoaderState
  | _, 0, s => s
  | i, n + 1, s =>
    let data := BitVec.ofNat 32 (dataPeek source.src s.read T.size)
    readDirect T slot value (i + 1) n ((s.dataSkip T.size).dataWrite (slot i) (value data))

def element (T : Scalar) (array index i : Nat) : BitVec 32 :=
  BitVec.ofNat 32
    (dataPeek (source.array array) (index * source.arrayStride array + i * T.size) T.size)

def readIndex (I : IndexType) : Nat := dataPeek source.src s.read I.size

def posMtxReadDirectUByte : LoaderState :=
  let posmtx := BitVec.ofNat 32 (dataPeek source.src s.read 1) &&& 0x3f
  (s.dataSkip 1).dataWrite .posmtx posmtx

def posReadDirect (T : Scalar) (n : Nat) : LoaderState :=
  readDirect source T .position (source.floats.scaled T · source.vat.posFrac) 0 n s

def posReadIndex (I : IndexType) (T : Scalar) (n : Nat) : LoaderState :=
  let index := s.readIndex source I
  { s.dataSkip I.size with vertexSkip := decide (index = I.max) }.dataWrites
    ((List.range n).map fun i =>
      (.position i, source.floats.scaled T (element source T arrayPosition index i) source.vat.posFrac))

/-- `ReadIndirect`, with the elements of the data. -/
def readIndirect (T : Scalar) (n offset : Nat) (data : Nat → BitVec 32) : LoaderState :=
  s.dataWrites ((List.range' offset n).map fun i => (.normal i, source.floats.fracAdjusted T (data i)))

def normalReadDirect (T : Scalar) (n : Nat) : LoaderState :=
  (s.readIndirect source T (n * 3) 0 fun i =>
    BitVec.ofNat 32 (dataPeek source.src (s.read + i * T.size) T.size)).dataSkip (n * 3 * T.size)

def normalReadIndexOffset (I : IndexType) (T : Scalar) (n offset : Nat) : LoaderState :=
  let index := s.readIndex source I
  (s.dataSkip I.size).readIndirect source T (n * 3) (offset * 3) (element source T arrayNormal index)

def normalReadIndex (I : IndexType) (T : Scalar) (n : Nat) : LoaderState :=
  s.normalReadIndexOffset source I T n 0

def normalReadIndexIndices3 (I : IndexType) (T : Scalar) : LoaderState :=
  ((s.normalReadIndexOffset source I T 1 0).normalReadIndexOffset source I T 1 1).normalReadIndexOffset
    source I T 1 2

/-! Colours -/

def alphaMask : BitVec 32 := 0xFF000000

def setCol (value : BitVec 32) : LoaderState :=
  { s.dataWrite (.color s.colIndex) value with colIndex := s.colIndex + 1 }

def setCol4444 (value : BitVec 32) : LoaderState :=
  let col := value &&& 0x00F0
  let col := col ||| (value &&& 0x000F) <<< 12
  let col := col ||| (value &&& 0xF000) <<< 8
  let col := col ||| (value &&& 0x0F00) <<< 20
  let col := col ||| col >>> 4
  s.setCol col

def setCol6666 (value : BitVec 32) : LoaderState :=
  let col := (value >>> 16) &&& 0x000000FC
  let col := col ||| ((value >>> 2) &&& 0x0000FC00)
  let col := col ||| ((value <<< 12) &&& 0x00FC0000)
  let col := col ||| ((value <<< 26) &&& 0xFC000000)
  let col := col ||| ((col >>> 6) &&& 0x03030303)
  s.setCol col

def setCol565 (value : BitVec 32) : LoaderState :=
  let col := (value >>> 8) &&& 0x0000F8
  let col := col ||| ((value <<< 5) &&& 0x00FC00)
  let col := col ||| ((value <<< 19) &&& 0xF80000)
  let col := col ||| ((col >>> 5) &&& 0x070007)
  let col := col ||| ((col >>> 6) &&& 0x000300)
  s.setCol (col ||| alphaMask)

def readHost (bytes : Nat → UInt8) (offset n : Nat) : BitVec 32 :=
  BitVec.ofNat 32 (dataPeek (fun i => bytes (offset + (n - 1 - i))) 0 n)

/-- The readers of colours by their format: the bytes of a colour are read from an offset. -/
def setColor (format : ColorFormat) (bytes : Nat → UInt8) (offset : Nat) : LoaderState :=
  match format with
  | .rgb565 => s.setCol565 (BitVec.ofNat 32 (dataPeek bytes offset 2))
  | .rgb888 | .rgb888x => s.setCol (readHost bytes offset 4 ||| alphaMask)
  | .rgba4444 => s.setCol4444 (readHost bytes offset 2)
  | .rgba6666 => s.setCol6666 (BitVec.ofNat 32 (dataPeek bytes offset 3))
  | _ => s.setCol (readHost bytes offset 4)

/-- The bytes a direct colour takes, `Color_ReadDirect`. -/
def colorBytes : ColorFormat → Nat
  | .rgb565 | .rgba4444 => 2
  | .rgb888 | .rgba6666 => 3
  | _ => 4

def colorReadDirect (format : ColorFormat) : LoaderState :=
  (s.setColor format source.src s.read).dataSkip (colorBytes format)

def colorReadIndex (I : IndexType) (format : ColorFormat) : LoaderState :=
  let index := s.readIndex source I
  let array := arrayColor0 + s.colIndex
  (s.dataSkip I.size).setColor format (source.array array) (index * source.arrayStride array)

def colorReadDummy : LoaderState := { s with colIndex := s.colIndex + 1 }

def texCoordReadDirect (T : Scalar) (n : Nat) : LoaderState :=
  { readDirect source T (.texcoord s.tcIndex)
      (source.floats.scaled T · (source.vat.getTexFrac s.tcIndex)) 0 n s with
    tcIndex := s.tcIndex + 1 }

def texCoordReadIndex (I : IndexType) (T : Scalar) (n : Nat) : LoaderState :=
  let index := s.readIndex source I
  let array := arrayTexCoord0 + s.tcIndex
  { (s.dataSkip I.size).dataWrites ((List.range n).map fun i =>
      (.texcoord s.tcIndex i,
        source.floats.scaled T (element source T array index i) (source.vat.getTexFrac s.tcIndex))) with
    tcIndex := s.tcIndex + 1 }

def texCoordReadDummy : LoaderState := { s with tcIndex := s.tcIndex + 1 }

def texMtxReadDirectUByte : LoaderState :=
  { s.dataSkip 1 with
    curtexmtx := Function.update s.curtexmtx s.texmtxread
      (BitVec.ofNat 8 (dataPeek source.src s.read 1) &&& 0x3f)
    texmtxread := s.texmtxread + 1 }

/-- `TexMtx_Write_Float`, with so many zeros in front. -/
def texMtxWrite (zeros : Nat) : LoaderState :=
  let value := source.floats.ofIndex (s.curtexmtx s.texmtxwrite)
  { (s.dataWrites (List.replicate zeros (.zero, 0))).dataWrite (.texmtx s.texmtxwrite) value with
    texmtxwrite := s.texmtxwrite + 1 }

/-- What was written of the vertex is taken back. -/
def skipVertex (stride : Nat) : LoaderState :=
  if s.vertexSkip then
    { s with write := s.write - stride, skippedVertices := s.skippedVertices + 1 }
  else s

end LoaderState

/-! ### The pipeline -/

/-- The functions of the pipeline. The pointer of a function that does not exist is never called
    where the position is present (`stages_wellFormed`). -/
inductive Stage where
  | null
  | posMtxReadDirectUByte
  | texMtxReadDirectUByte
  | texMtxWrite (zeros : Nat)
  | posReadDirect (T : Scalar) (n : Nat)
  | posReadIndex (I : IndexType) (T : Scalar) (n : Nat)
  | normalReadDirect (T : Scalar) (n : Nat)
  | normalReadIndex (I : IndexType) (T : Scalar) (n : Nat)
  | normalReadIndexIndices3 (I : IndexType) (T : Scalar)
  | colorReadDirect (format : ColorFormat)
  | colorReadIndex (I : IndexType) (format : ColorFormat)
  | colorReadDummy
  | texCoordReadDirect (T : Scalar) (n : Nat)
  | texCoordReadIndex (I : IndexType) (T : Scalar) (n : Nat)
  | texCoordReadDummy
  | skipVertex
  deriving DecidableEq

def Stage.run (source : VertexSource) (stride : Nat) (s : LoaderState) : Stage → LoaderState
  | null => s
  | posMtxReadDirectUByte => s.posMtxReadDirectUByte source
  | texMtxReadDirectUByte => s.texMtxReadDirectUByte source
  | texMtxWrite zeros => s.texMtxWrite source zeros
  | posReadDirect T n => s.posReadDirect source T n
  | posReadIndex I T n => s.posReadIndex source I T n
  | normalReadDirect T n => s.normalReadDirect source T n
  | normalReadIndex I T n => s.normalReadIndex source I T n
  | normalReadIndexIndices3 I T => s.normalReadIndexIndices3 source I T
  | colorReadDirect format => s.colorReadDirect source format
  | colorReadIndex I format => s.colorReadIndex source I format
  | colorReadDummy => s.colorReadDummy
  | texCoordReadDirect T n => s.texCoordReadDirect source T n
  | texCoordReadIndex I T n => s.texCoordReadIndex source I T n
  | texCoordReadDummy => s.texCoordReadDummy
  | skipVertex => s.skipVertex stride

/-- The column of the readers' tables for a format. -/
def ComponentFormat.scalar : ComponentFormat → Scalar
  | ubyte => .u8
  | byte => .s8
  | ushort => .u16
  | short => .s16
  | float | invalidFloat5 | invalidFloat6 | invalidFloat7 => .f32

def VertexLoaderPosition.getFunction (type : VertexComponentFormat) (format : ComponentFormat)
    (elements : CoordComponentCount) : Stage :=
  match type with
  | .notPresent => .null
  | .direct => .posReadDirect format.scalar (elements.pick (2, 3))
  | .index8 => .posReadIndex .u8 format.scalar (elements.pick (2, 3))
  | .index16 => .posReadIndex .u16 format.scalar (elements.pick (2, 3))

def VertexLoaderNormal.getFunction (type : VertexComponentFormat) (format : ComponentFormat)
    (elements : NormalComponentCount) (index3 : Bool) : Stage :=
  match type, elements with
  | .notPresent, _ => .null
  | .direct, .n => .normalReadDirect format.scalar 1
  | .direct, .ntb => .normalReadDirect format.scalar 3
  | .index8, .n => .normalReadIndex .u8 format.scalar 1
  | .index8, .ntb =>
    if index3 then .normalReadIndexIndices3 .u8 format.scalar else .normalReadIndex .u8 format.scalar 3
  | .index16, .n => .normalReadIndex .u16 format.scalar 1
  | .index16, .ntb =>
    if index3 then .normalReadIndexIndices3 .u16 format.scalar
    else .normalReadIndex .u16 format.scalar 3

def VertexLoaderColor.getFunction (type : VertexComponentFormat) (format : ColorFormat) : Stage :=
  if format.isValid then
    match type with
    | .notPresent => .null
    | .direct => .colorReadDirect format
    | .index8 => .colorReadIndex .u8 format
    | .index16 => .colorReadIndex .u16 format
  else .null

def VertexLoaderTextCoord.getFunction (type : VertexComponentFormat) (format : ComponentFormat)
    (elements : TexComponentCount) : Stage :=
  match type with
  | .notPresent => .null
  | .direct => .texCoordReadDirect format.scalar (elements.pick (1, 2))
  | .index8 => .texCoordReadIndex .u8 format.scalar (elements.pick (1, 2))
  | .index16 => .texCoordReadIndex .u16 format.scalar (elements.pick (1, 2))

/-! ### The translator -/

structure AttributeFormat where
  type : ComponentFormat := .ubyte
  components : Nat := 0
  offset : Nat := 0
  enable : Bool := false
  integer : Bool := false
  deriving DecidableEq

def getElementSize : ComponentFormat → Nat
  | .ubyte | .byte => 1
  | .ushort | .short => 2
  | .float | .invalidFloat5 | .invalidFloat6 | .invalidFloat7 => 4

def AttributeFormat.bytes (a : AttributeFormat) : Nat := a.components * getElementSize a.type

/-- The arrays hold what was declared of them, from the first on; what follows is zero. -/
structure PortableVertexDeclaration where
  stride : Nat := 0
  position : AttributeFormat := {}
  normals : List AttributeFormat := []
  colors : List AttributeFormat := []
  texcoords : List AttributeFormat := []
  posmtx : AttributeFormat := {}

/-- A translation under way, with the position in the native vertex. -/
structure Translator where
  stages : List Stage := []
  decl : PortableVertexDeclaration := {}
  natOffset : Nat := 0

namespace Translator
variable (t : Translator) (desc : TVtxDesc) (vat : VAT)

def writeCall (stage : Stage) : Translator := { t with stages := t.stages ++ [stage] }

def posMatIdx : Translator :=
  if desc.posMatIdx then
    { t.writeCall .posMtxReadDirectUByte with
      decl := { t.decl with posmtx := ⟨.ubyte, 4, t.natOffset, true, true⟩ }
      natOffset := t.natOffset + 4 }
  else t

def texMatIdx : Translator :=
  (List.range 8).foldl (fun t i => if desc.texMatIdx i then t.writeCall .texMtxReadDirectUByte else t) t

def position : Translator :=
  let posElements := vat.posElements.pick (2, 3)
  { t.writeCall (VertexLoaderPosition.getFunction desc.position vat.posFormat vat.posElements) with
    decl := { t.decl with position := ⟨.float, posElements, t.natOffset, true, false⟩ }
    natOffset := t.natOffset + posElements * 4 }

def normal : Translator :=
  if desc.normal ≠ .notPresent then
    let count := if vat.normalElements = .ntb then 3 else 1
    (List.range count).foldl
      (fun t _ =>
        { t with
          decl := { t.decl with normals := t.decl.normals ++ [⟨.float, 3, t.natOffset, true, false⟩] }
          natOffset := t.natOffset + 12 })
      (t.writeCall (VertexLoaderNormal.getFunction desc.normal vat.normalFormat vat.normalElements
        vat.normalIndex3))
  else t

/-- The loop over the colours, for one of them. -/
def color (i : Nat) : Translator :=
  let pFunc := VertexLoaderColor.getFunction (desc.color i) (vat.getColorFormat i)
  let t :=
    if pFunc ≠ .null then t.writeCall pFunc
    else if i = 0 ∧ desc.color 1 ≠ .notPresent then t.writeCall .colorReadDummy
    else t
  if desc.color i ≠ .notPresent then
    { t with
      decl := { t.decl with colors := t.decl.colors ++ [⟨.ubyte, 4, t.natOffset, true, false⟩] }
      natOffset := t.natOffset + 4 }
  else { t with decl := { t.decl with colors := t.decl.colors ++ [⟨.ubyte, 4, 0, false, false⟩] } }

def colors : Translator := (t.color desc vat 0).color desc vat 1

/-- The search of the `n` texture coordinates from `j` on: whether there is more, and whether it
    ends at a coordinate, for which a dummy is called. -/
def hasMore : Nat → Nat → Bool × Bool
  | 0, _ => (false, false)
  | n + 1, j =>
    if desc.texCoord j ≠ .notPresent then (true, true)
    else ((hasMore n (j + 1)).1 || desc.texMatIdx j, (hasMore n (j + 1)).2)

/-- The calls for a texture coordinate and its matrix index, with what is declared. -/
def texCoord (i : Nat) : Translator :=
  let tc := desc.texCoord i
  let elements := vat.getTexElements i
  let declared := t.decl.texcoords
  let a : AttributeFormat := ⟨.float, 0, t.natOffset, false, false⟩
  let t :=
    if tc ≠ .notPresent then
      t.writeCall (VertexLoaderTextCoord.getFunction tc (vat.getTexFormat i) elements)
    else t
  if desc.texMatIdx i then
    let t :=
      if tc ≠ .notPresent then t.writeCall (.texMtxWrite (elements.pick (1, 0)))
      else t.writeCall (.texMtxWrite 2)
    { t with
      decl := { t.decl with texcoords := declared ++ [{ a with enable := true, components := 3 }] }
      natOffset := t.natOffset + 12 }
  else if tc ≠ .notPresent then
    { t with
      decl := { t.decl with
        texcoords := declared ++ [{ a with enable := true, components := elements.pick (1, 2) }] }
      natOffset := t.natOffset + 4 * elements.pick (1, 2) }
  else { t with decl := { t.decl with texcoords := declared ++ [a] } }

/-- The loop over the `n` texture coordinates from `i` on. -/
def texCoords : Nat → Nat → Translator → Translator
  | 0, _, t => t
  | n + 1, i, t =>
    let t := t.texCoord desc vat i
    if desc.texCoord i ≠ .notPresent then texCoords n (i + 1) t
    else
      let (more, dummy) := hasMore desc n (i + 1)
      let t := if dummy then t.writeCall .texCoordReadDummy else t
      if more then texCoords n (i + 1) t else t

def finish : Translator :=
  let t := if isIndexed desc.position then t.writeCall .skipVertex else t
  { t with decl := { t.decl with stride := t.natOffset } }

end Translator

def compileVertexTranslator (desc : TVtxDesc) (vat : VAT) : Translator :=
  let t : Translator := {}
  let t := t.posMatIdx desc
  let t := t.texMatIdx desc
  let t := t.position desc vat
  let t := t.normal desc vat
  let t := t.colors desc vat
  let t := Translator.texCoords desc vat 8 0 t
  t.finish desc

def runVertex (t : Translator) (source : VertexSource) (s : LoaderState) : LoaderState :=
  t.stages.foldl (fun s stage => stage.run source t.decl.stride s)
    { s with tcIndex := 0, colIndex := 0, texmtxwrite := 0, texmtxread := 0 }

def runLoop (t : Translator) (source : VertexSource) : Nat → LoaderState → LoaderState
  | 0, s => s
  | count + 1, s => runLoop t source count (runVertex t source s)

/-- The number of vertices kept, with the state of the loader. The pointers are taken from the
    beginnings of the source and of the destination. -/
def runVertices (t : Translator) (source : VertexSource) (s : LoaderState) (count : Nat) :
    Nat × LoaderState :=
  let s := runLoop t source count { s with read := 0, write := 0, skippedVertices := 0 }
  (count - s.skippedVertices, s)

end DolphinXR.VideoCommon
