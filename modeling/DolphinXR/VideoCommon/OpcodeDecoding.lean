import DolphinXR.Lib.Bytes
import DolphinXR.VideoCommon.IndexGenerator
import DolphinXR.VideoCommon.CPMemory

/- The commands of the graphics FIFO (VideoCommon/OpcodeDecoding.h). A command's opcode and header
   say how long it is, for a draw together with the vertex format, which earlier commands set; what
   is not there in full is left for later. Every command is handed to one callback of its kind and
   then, with its bytes, to `OnCommand`.

   The state of the command processor is what all callbacks keep up to date for the decoder. What a
   callback does with a display list is a parameter; `runCallback` is the one that runs it, for
   lists in memory. Sizes are numbers that do not wrap. -/
namespace DolphinXR.VideoCommon
open Lib

structure CPState where
  arrayBases : BitVec 4 → BitVec 32
  arrayStrides : BitVec 4 → BitVec 32
  matrixIndexA : BitVec 32
  matrixIndexB : BitVec 32
  vtxDesc : TVtxDesc
  vtxAttr : BitVec 3 → VAT

def getPhysicalAddressMask (isWii : Bool) : BitVec 32 := if isWii then 0x1FFFFFFF else 0x03FFFFFF

namespace CPState

/-- Without the warnings about registers that are not quite valid. -/
def loadCPReg (s : CPState) (isWii : Bool) (subCmd : BitVec 8) (value : BitVec 32) : CPState :=
  let vat := subCmd.extractLsb' 0 3
  let array := subCmd.extractLsb' 0 4
  match (subCmd &&& 0xF0#8).toNat with
  | 0x30 => { s with matrixIndexA := value }
  | 0x40 => { s with matrixIndexB := value }
  | 0x50 => { s with vtxDesc := { s.vtxDesc with low := value } }
  | 0x60 => { s with vtxDesc := { s.vtxDesc with high := value } }
  | 0x70 => { s with vtxAttr := Function.update s.vtxAttr vat { s.vtxAttr vat with g0 := value } }
  | 0x80 => { s with vtxAttr := Function.update s.vtxAttr vat { s.vtxAttr vat with g1 := value } }
  | 0x90 => { s with vtxAttr := Function.update s.vtxAttr vat { s.vtxAttr vat with g2 := value } }
  | 0xA0 =>
    { s with
      arrayBases := Function.update s.arrayBases array (value &&& getPhysicalAddressMask isWii) }
  | 0xB0 => { s with arrayStrides := Function.update s.arrayStrides array (value &&& 0xFF#32) }
  | _ => s

def getVertexSize (s : CPState) (vat : BitVec 3) : Nat :=
  VideoCommon.getVertexSize s.vtxDesc (s.vtxAttr vat)

end CPState

/-! ### Commands -/

inductive Opcode where
  | nop
  | loadCPReg
  | loadXFReg
  | loadIndx
  | callDL
  | loadBPReg
  | primitive
  | other
  deriving DecidableEq

def Opcode.ofByte (cmd : UInt8) : Opcode :=
  if cmd = 0x00 then nop
  else if cmd = 0x08 then loadCPReg
  else if cmd = 0x10 then loadXFReg
  else if cmd = 0x20 ∨ cmd = 0x28 ∨ cmd = 0x30 ∨ cmd = 0x38 then loadIndx
  else if cmd = 0x40 then callDL
  else if cmd = 0x61 then loadBPReg
  else if 0x80 ≤ cmd ∧ cmd ≤ 0xBF then primitive
  else other

/-- The callbacks; that for a display list also with what was called while it ran. -/
inductive Event (τ : Type) where
  | onXF (address : BitVec 16) (count : Nat) (data : Bytes)
  | onCP (command : UInt8) (value : BitVec 32)
  | onBP (command : UInt8) (value : BitVec 32)
  | onIndexedLoad (array : Nat) (index : BitVec 32) (address : BitVec 16) (size : Nat)
  | onPrimitiveCommand (primitive : Primitive) (vat : BitVec 3) (vertexSize numVertices : Nat)
      (vertexData : Bytes)
  | onDisplayList (address size : BitVec 32) (called : τ)
  | onNop (count : Nat)
  | onUnknown (opcode : UInt8)

/-- A callback and the bytes `OnCommand` is called with behind it. -/
structure Call (τ : Type) where
  event : Event τ
  data : Bytes

structure Decoder (τ : Type) where
  isWii : Bool
  /-- What is called while the list at an address runs, and the state it leaves. -/
  displayList : BitVec 32 → BitVec 32 → CPState → τ × CPState

/-- The big-endian number of `width` bytes at an offset. -/
def swapAt (width : Nat) (data : Bytes) (off : Nat) : BitVec 32 :=
  BitVec.ofNat 32 (readBE (slice data off width))

/-- A command that was taken: its size, its callback and the state behind it. -/
structure Taken (τ : Type) where
  size : Nat
  event : Event τ
  state : CPState

/-- What decoding makes of a stream: how much it consumes, what it calls and the state it leaves. -/
structure Decoded (τ : Type) where
  size : Nat
  calls : List (Call τ)
  state : CPState

namespace Decoder
variable {τ : Type} (d : Decoder τ)

/-- `detail::RunCommand`, which returns 0 for `none`. -/
def detail (data : Bytes) (cp : CPState) : Option (Taken τ) :=
  match data with
  | [] => none
  | cmd :: _ =>
    match Opcode.ofByte cmd with
    | .nop =>
      let count := (data.takeWhile fun b => b = 0x00).length
      some ⟨count, .onNop count, cp⟩
    | .loadCPReg =>
      if data.length < 6 then none
      else
        let cmd2 := data.getD 1 0
        let value := swapAt 4 data 2
        some ⟨6, .onCP cmd2 value, cp.loadCPReg d.isWii cmd2.toBitVec value⟩
    | .loadXFReg =>
      if data.length < 5 then none
      else
        let cmd2 := swapAt 4 data 1
        let streamSize := ((cmd2 >>> 16) &&& 0xF#32).toNat + 1
        if data.length < 5 + streamSize * 4 then none
        else
          some ⟨5 + streamSize * 4,
            .onXF (cmd2.extractLsb' 0 16) streamSize (slice data 5 (streamSize * 4)), cp⟩
    | .loadIndx =>
      if data.length < 5 then none
      else
        let value := swapAt 4 data 1
        let address := (value &&& 0xFFF#32).extractLsb' 0 16
        let size := ((value >>> 12) &&& 0xF#32).toNat + 1
        some ⟨5, .onIndexedLoad (cmd.toNat / 8 + 8) (value >>> 16) address size, cp⟩
    | .callDL =>
      if data.length < 9 then none
      else
        -- Force 32-byte alignment for both the address and the size.
        let address := swapAt 4 data 1 &&& ~~~31#32
        let size := swapAt 4 data 5 &&& ~~~31#32
        let (called, cp) := d.displayList address size cp
        some ⟨9, .onDisplayList address size called, cp⟩
    | .loadBPReg =>
      if data.length < 5 then none
      else some ⟨5, .onBP (data.getD 1 0) (swapAt 3 data 2), cp⟩
    | .primitive =>
      if data.length < 3 then none
      else
        let primitive := Primitive.ofBits (BitVec.ofNat 3 ((cmd &&& 0x78) >>> 3).toNat)
        let vat := BitVec.ofNat 3 (cmd &&& 0x07).toNat
        let vertexSize := cp.getVertexSize vat
        let numVertices := (swapAt 2 data 1).toNat
        if data.length < 3 + numVertices * vertexSize then none
        else
          some ⟨3 + numVertices * vertexSize,
            .onPrimitiveCommand primitive vat vertexSize numVertices
              (slice data 3 (numVertices * vertexSize)), cp⟩
    | .other => some ⟨1, .onUnknown cmd, cp⟩

/-- The command is handed to its callback, then to `OnCommand`. -/
def runCommand (data : Bytes) (cp : CPState) : Decoded τ :=
  match d.detail data cp with
  | none => ⟨0, [], cp⟩
  | some taken => ⟨taken.size, [⟨taken.event, data.take taken.size⟩], taken.state⟩

/-- The loop: commands as long as there are whole ones. -/
def run (data : Bytes) (cp : CPState) : Decoded τ :=
  if _h : data.length = 0 then ⟨0, [], cp⟩
  else
    let command := d.runCommand data cp
    if _h' : command.size = 0 then command
    else
      let rest := run (data.drop command.size) command.state
      ⟨command.size + rest.size, command.calls ++ rest.calls, rest.state⟩
termination_by data.length
decreasing_by
  have hsize : (d.runCommand data cp).size ≠ 0 := _h'
  rw [List.length_drop]
  omega

end Decoder

/-- `RunCallback` in a display list: a list in a list is not run. -/
def runCallbackInDisplayList (isWii : Bool) : Decoder Unit := ⟨isWii, fun _ _ cp => ((), cp)⟩

/-- `RunCallback`, with what `GetPointerForRange` finds for a list's address and size. -/
def runCallback (isWii : Bool) (memory : BitVec 32 → BitVec 32 → Option Bytes) :
    Decoder (List (Call Unit)) :=
  ⟨isWii, fun address size cp =>
    match memory address size with
    | none => ([], cp)
    | some list =>
      let decoded := (runCallbackInDisplayList isWii).run list cp
      (decoded.calls, decoded.state)⟩

/-! ### Sizes -/

theorem Opcode.ofByte_eq_nop_iff {cmd : UInt8} : Opcode.ofByte cmd = .nop ↔ cmd = 0x00 := by
  unfold Opcode.ofByte
  constructor
  · intro h
    by_contra hne
    rw [if_neg hne] at h
    repeat' split at h
    all_goals cases h
  · rintro rfl
    rfl

def nopCount (data : Bytes) : Nat := (data.takeWhile fun b => b = 0x00).length

theorem nopCount_le (data : Bytes) : nopCount data ≤ data.length :=
  (List.takeWhile_sublist _).length_le

namespace Decoder
variable {τ : Type} (d : Decoder τ)

theorem detail_nop (rest : Bytes) (cp : CPState) :
    d.detail (0x00 :: rest) cp =
      some ⟨nopCount (0x00 :: rest), .onNop (nopCount (0x00 :: rest)), cp⟩ := rfl

theorem detail_size {data : Bytes} {cp : CPState} {taken : Taken τ}
    (h : d.detail data cp = some taken) : 0 < taken.size ∧ taken.size ≤ data.length := by
  cases data with
  | nil => cases h
  | cons cmd rest =>
    cases hop : Opcode.ofByte cmd <;> simp only [detail, hop] at h
    case nop =>
      obtain rfl := Opcode.ofByte_eq_nop_iff.mp hop
      obtain rfl := Option.some.inj h
      exact ⟨by simp, nopCount_le _⟩
    case other =>
      obtain rfl := Option.some.inj h
      exact ⟨Nat.one_pos, by simp⟩
    case loadXFReg =>
      split at h
      · cases h
      · split at h
        · cases h
        · obtain rfl := Option.some.inj h
          constructor <;> dsimp only <;> omega
    case primitive =>
      split at h
      · cases h
      · split at h
        · cases h
        · obtain rfl := Option.some.inj h
          constructor <;> dsimp only <;> omega
    all_goals
      split at h
      · cases h
      · obtain rfl := Option.some.inj h
        constructor <;> dsimp only <;> omega

theorem swapAt_append {width off : Nat} {data : Bytes} (more : Bytes)
    (h : off + width ≤ data.length) : swapAt width (data ++ more) off = swapAt width data off := by
  rw [swapAt, swapAt, slice_append_left _ h]

theorem detail_append {cmd : UInt8} {rest : Bytes} {cp : CPState} {taken : Taken τ}
    (hnop : cmd ≠ 0x00) (h : d.detail (cmd :: rest) cp = some taken) (more : Bytes) :
    d.detail (cmd :: (rest ++ more)) cp = some taken := by
  have hlen : (cmd :: rest).length ≤ (cmd :: (rest ++ more)).length := by simp
  have hswap : ∀ width off, off + width ≤ (cmd :: rest).length →
      swapAt width (cmd :: (rest ++ more)) off = swapAt width (cmd :: rest) off :=
    fun _ _ hle => swapAt_append more hle
  have hslice : ∀ off len, off + len ≤ (cmd :: rest).length →
      slice (cmd :: (rest ++ more)) off len = slice (cmd :: rest) off len :=
    fun _ _ hle => slice_append_left more hle
  have hsecond : 1 < (cmd :: rest).length →
      (cmd :: (rest ++ more)).getD 1 0 = (cmd :: rest).getD 1 0 := by
    intro hle
    cases rest with
    | nil => simp at hle
    | cons b rest => rfl
  cases hop : Opcode.ofByte cmd <;> simp only [detail, hop] at h ⊢
  case nop => exact absurd (Opcode.ofByte_eq_nop_iff.mp hop) hnop
  case other => exact h
  case loadXFReg =>
    split at h
    · cases h
    · rename_i h5
      rw [if_neg (by omega), hswap 4 1 (by omega)]
      split at h
      · cases h
      · rw [if_neg (by omega), hslice _ _ (by omega)]
        exact h
  case primitive =>
    split at h
    · cases h
    · rename_i h3
      rw [if_neg (by omega), hswap 2 1 (by omega)]
      split at h
      · cases h
      · rw [if_neg (by omega), hslice _ _ (by omega)]
        exact h
  case loadCPReg =>
    split at h
    · cases h
    · rw [if_neg (by omega), hswap 4 2 (by omega), hsecond (by omega)]
      exact h
  case loadIndx =>
    split at h
    · cases h
    · rw [if_neg (by omega), hswap 4 1 (by omega)]
      exact h
  case callDL =>
    split at h
    · cases h
    · rw [if_neg (by omega), hswap 4 1 (by omega), hswap 4 5 (by omega)]
      exact h
  case loadBPReg =>
    split at h
    · cases h
    · rw [if_neg (by omega), hswap 3 2 (by omega), hsecond (by omega)]
      exact h

end Decoder

end DolphinXR.VideoCommon
