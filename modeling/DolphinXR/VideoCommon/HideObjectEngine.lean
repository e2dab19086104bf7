import DolphinXR.Lib.Bytes

/- Hide codes (VideoCommon/HideObjectEngine.cpp): patterns of one to sixteen bytes a draw's vertex
   data may begin with. A code keeps its pattern as two numbers, the engine compares bytes; while
   it captures, the engine keeps what the vertex data of each draw begins with, from which new
   codes are built.

   Memory is a function from addresses, and a pattern is compared with what stands there, however
   much of that belongs to the draw. The locks are left out: a state is what the holder of all of
   them sees, apart from `updating`, which the video thread reads without one. The files the codes
   are kept in are left out too. -/
namespace DolphinXR.HideObjectEngine
open Lib

/-! ### Codes -/

inductive HideObjectType where
  | bits8 | bits16 | bits24 | bits32 | bits40 | bits48 | bits56 | bits64
  | bits72 | bits80 | bits88 | bits96 | bits104 | bits112 | bits120 | bits128
  deriving DecidableEq

namespace HideObjectType

def all : List HideObjectType :=
  [bits8, bits16, bits24, bits32, bits40, bits48, bits56, bits64,
    bits72, bits80, bits88, bits96, bits104, bits112, bits120, bits128]

def ofIndex (i : Nat) : HideObjectType := all.getD i bits16

def getByteCount (type : HideObjectType) : Nat := all.idxOf type + 1

theorem getByteCount_le (type : HideObjectType) : type.getByteCount ≤ 16 := by
  cases type <;> decide

theorem getByteCount_ofIndex {i : Nat} (h : i < 16) : (ofIndex i).getByteCount = i + 1 := by
  revert i
  decide

end HideObjectType

structure HideObjectEntry where
  type : HideObjectType
  valueUpper : UInt64
  valueLower : UInt64
  deriving DecidableEq

structure HideObject where
  name : String
  entries : List HideObjectEntry
  active : Bool

/-- Bytes shifted into a 64-bit number from its low end. -/
def shiftIn (v : UInt64) (data : Bytes) : UInt64 :=
  data.foldl (fun v b => (v <<< 8) ||| b.toUInt64) v

/-- `available_bytes` is the length of `data`. -/
def buildEntryFromPrefix (data : Bytes) : Option HideObjectEntry :=
  if data.length = 0 then none
  else
    let byteCount := min data.length HideObjectType.bits128.getByteCount
    let type := HideObjectType.ofIndex (byteCount - 1)
    if 8 < byteCount then
      let upperBytes := byteCount - 8
      some ⟨type, shiftIn 0 (slice data 0 upperBytes),
        shiftIn 0 (slice data upperBytes (byteCount - upperBytes))⟩
    else
      some ⟨type, 0, shiftIn 0 (slice data 0 byteCount)⟩

/-- The low `n` bytes of a number, the most significant first. -/
def lowBytes (v : UInt64) : Nat → Bytes
  | 0 => []
  | j + 1 => ((v >>> UInt64.ofNat (j * 8)) &&& 0xFF).toUInt8 :: lowBytes v j

def buildSkipEntry (entry : HideObjectEntry) : Bytes :=
  let byteCount := entry.type.getByteCount
  if 8 < byteCount then
    lowBytes entry.valueUpper (byteCount - 8) ++ lowBytes entry.valueLower 8
  else lowBytes entry.valueLower byteCount

/-! ### A prefix as two numbers and back -/

theorem shl_or_toNat (v : UInt64) (b : UInt8) :
    ((v <<< 8) ||| b.toUInt64).toNat = (v.toNat * 256 + b.toNat) % 2 ^ 64 := by
  have hb : b.toNat < 2 ^ 8 := b.toNat_lt
  have hv : (v <<< 8).toNat = (v.toNat % 2 ^ 56) * 2 ^ 8 := by
    rw [UInt64.toNat_shiftLeft, Nat.shiftLeft_eq]
    simp only [UInt64.reduceToNat, Nat.reduceMod]
    omega
  rw [UInt64.toNat_or, UInt8.toNat_toUInt64, hv, Nat.mul_comm, ← Nat.two_pow_add_eq_or_of_lt hb]
  omega

theorem shiftIn_toNat (v : UInt64) (data : Bytes) :
    (shiftIn v data).toNat = (v.toNat * 256 ^ data.length + readBE data) % 2 ^ 64 := by
  induction data generalizing v with
  | nil => simp [shiftIn, readBE]
  | cons b data ih =>
    have hstep : shiftIn v (b :: data) = shiftIn ((v <<< 8) ||| b.toUInt64) data := rfl
    rw [hstep, ih, shl_or_toNat, readBE_cons, List.length_cons, Nat.pow_succ, Nat.add_mod,
      Nat.mod_mul_mod, ← Nat.add_mod]
    congr 1
    ring

theorem shiftIn_zero_toNat {data : Bytes} (h : data.length ≤ 8) :
    (shiftIn 0 data).toNat = readBE data := by
  have hlt : readBE data < 2 ^ 64 :=
    calc readBE data < 256 ^ data.length := readBE_lt data
      _ ≤ 256 ^ 8 := Nat.pow_le_pow_right (by decide) h
      _ = 2 ^ 64 := by decide
  rw [shiftIn_toNat]
  simpa using hlt

theorem lowBytes_eq_be (v : UInt64) {n : Nat} (h : n ≤ 8) : lowBytes v n = be n v.toNat := by
  induction n with
  | zero => rfl
  | succ n ih =>
    have hn : (UInt64.ofNat (n * 8)).toNat % 64 = 8 * n := by
      rw [UInt64.toNat_ofNat']
      omega
    rw [lowBytes, be, ih (by omega)]
    congr 1
    apply UInt8.toNat_inj.mp
    rw [UInt64.toNat_toUInt8, UInt64.toNat_and, UInt64.toNat_shiftRight, hn,
      Nat.shiftRight_eq_div_pow, Nat.pow_mul, show (0xFF : UInt64).toNat = 2 ^ 8 - 1 by decide,
      Nat.and_two_pow_sub_one_eq_mod]
    simp

@[simp] theorem length_lowBytes (v : UInt64) (n : Nat) : (lowBytes v n).length = n := by
  induction n <;> simp [lowBytes, *]

theorem length_buildSkipEntry (entry : HideObjectEntry) :
    (buildSkipEntry entry).length = entry.type.getByteCount := by
  simp only [buildSkipEntry]
  split
  · simp only [List.length_append, length_lowBytes]; omega
  · simp

theorem lowBytes_shiftIn {data : Bytes} (h : data.length ≤ 8) :
    lowBytes (shiftIn 0 data) data.length = data := by
  rw [lowBytes_eq_be _ h, shiftIn_zero_toNat h, be_readBE]

theorem buildSkipEntry_buildEntryFromPrefix {data : Bytes} {entry : HideObjectEntry}
    (h : buildEntryFromPrefix data = some entry) : buildSkipEntry entry = data.take 16 := by
  simp only [buildEntryFromPrefix, show HideObjectType.bits128.getByteCount = 16 by decide] at h
  split at h
  · cases h
  · rename_i hne
    have htype : (HideObjectType.ofIndex (min data.length 16 - 1)).getByteCount =
        min data.length 16 := by
      rw [HideObjectType.getByteCount_ofIndex (by omega)]; omega
    have hslice : ∀ off len, off + len ≤ min data.length 16 → len ≤ 8 →
        lowBytes (shiftIn 0 (slice data off len)) len = slice data off len := by
      intro off len hle h8
      have hlen : (slice data off len).length = len := length_slice (by omega)
      have hrt : lowBytes (shiftIn 0 (slice data off len)) (slice data off len).length =
          slice data off len := lowBytes_shiftIn (by omega)
      rwa [hlen] at hrt
    have htake : slice data 0 (min data.length 16) = data.take 16 := by
      rw [slice, List.drop_zero]
      rcases Nat.le_total data.length 16 with h16 | h16
      · rw [Nat.min_eq_left h16, List.take_length, List.take_of_length_le h16]
      · rw [Nat.min_eq_right h16]
    split at h <;> rename_i hlong
    · obtain rfl := Option.some.inj h
      have hcut : min data.length 16 - (min data.length 16 - 8) = 8 := by omega
      simp only [buildSkipEntry, htype, if_pos hlong]
      rw [hslice _ _ (by omega) (by omega), hcut, hslice _ _ (by omega) (by omega), ← htake]
      conv_rhs => rw [show min data.length 16 = (min data.length 16 - 8) + 8 by omega, slice_add]
      rw [Nat.zero_add]
    · obtain rfl := Option.some.inj h
      simp only [buildSkipEntry, htype, if_neg hlong]
      rw [hslice _ _ (by omega) (by omega), htake]

/-! ### The engine -/

abbrev Memory := Nat → UInt8

def bytesAt (m : Memory) (src n : Nat) : Bytes := (List.range n).map fun i => m (src + i)

/-- Whether `memcmp` finds the pattern at `src`. -/
def beginsWith (m : Memory) (src : Nat) (pattern : Bytes) : Bool :=
  bytesAt m src pattern.length == pattern

structure CapturedPrefix where
  drawSequence : Nat
  vertexPrefix : Bytes

structure Engine where
  activeEntries : List Bytes
  captureEnabled : Bool
  hasPinkPreview : Bool
  pinkEntries : List Bytes
  pendingCapturePrefixes : List Bytes
  collectingCapturePrefixes : List CapturedPrefix
  displayCapturePrefixes : List CapturedPrefix
  updating : Bool

structure CapturedHideObjectEntries where
  entries : List HideObjectEntry
  requestedDraws : Nat
  matchedDraws : Nat
  prefixesSeen : Nat
  shorterThan128bit : Nat

namespace Engine

def applyCodes (e : Engine) (codes : List HideObject) : Engine :=
  { e with
    activeEntries := (codes.filter (·.active)).flatMap fun code => code.entries.map buildSkipEntry
    updating := false }

def setPinkPreview (e : Engine) (entries : List HideObjectEntry) : Engine :=
  let patterns := entries.map buildSkipEntry
  { e with pinkEntries := patterns, hasPinkPreview := !patterns.isEmpty }

def matchesPinkPreview (e : Engine) (m : Memory) (src : Nat) : Bool :=
  e.pinkEntries.any (beginsWith m src)

def setCaptureEnabled (e : Engine) (enabled : Bool) : Engine :=
  { e with
    captureEnabled := enabled
    pendingCapturePrefixes := []
    collectingCapturePrefixes := []
    displayCapturePrefixes := [] }

def captureVertexPrefix (e : Engine) (m : Memory) (src availableBytes : Nat) : Engine :=
  if !e.captureEnabled || availableBytes == 0 then e
  else
    let byteCount := min availableBytes HideObjectType.bits128.getByteCount
    { e with
      pendingCapturePrefixes := e.pendingCapturePrefixes ++ [bytesAt m src byteCount] }

def commitCapturedPrefixesForDraw (e : Engine) (drawSequence : Nat) : Engine :=
  if !e.captureEnabled then e
  else
    { e with
      collectingCapturePrefixes := e.collectingCapturePrefixes ++
        e.pendingCapturePrefixes.map fun vertexPrefix => ⟨drawSequence, vertexPrefix⟩
      pendingCapturePrefixes := [] }

def onFrameEnd (e : Engine) : Engine :=
  if !e.captureEnabled then
    { e with
      pendingCapturePrefixes := []
      collectingCapturePrefixes := []
      displayCapturePrefixes := [] }
  else
    { e with
      displayCapturePrefixes := e.collectingCapturePrefixes
      collectingCapturePrefixes := []
      pendingCapturePrefixes := [] }

/-- One captured prefix of a draw that was asked for. The entries seen so far are those of the
    result. -/
def countCaptured (result : CapturedHideObjectEntries) (captured : CapturedPrefix) :
    CapturedHideObjectEntries :=
  let result := { result with prefixesSeen := result.prefixesSeen + 1 }
  match buildEntryFromPrefix captured.vertexPrefix with
  | none => result
  | some entry =>
    let result :=
      if entry.type.getByteCount < HideObjectType.bits128.getByteCount then
        { result with shorterThan128bit := result.shorterThan128bit + 1 }
      else result
    if entry ∈ result.entries then result
    else { result with entries := result.entries ++ [entry] }

def getCapturedEntriesForDrawSequences (e : Engine) (drawSequences : List Nat) :
    CapturedHideObjectEntries :=
  let asked := e.displayCapturePrefixes.filter (decide <| ·.drawSequence ∈ drawSequences)
  let result := asked.foldl countCaptured ⟨[], drawSequences.dedup.length, 0, 0, 0⟩
  { result with matchedDraws := (asked.map (·.drawSequence)).dedup.length }

theorem mem_entries_countCaptured {result : CapturedHideObjectEntries} {captured : CapturedPrefix}
    {entry : HideObjectEntry} :
    entry ∈ (countCaptured result captured).entries ↔
      entry ∈ result.entries ∨ buildEntryFromPrefix captured.vertexPrefix = some entry := by
  unfold countCaptured
  cases hbuilt : buildEntryFromPrefix captured.vertexPrefix with
  | none => simp
  | some built =>
    simp only [Option.some.injEq]
    have hentries : (if built.type.getByteCount < HideObjectType.bits128.getByteCount then
        { result with
          prefixesSeen := result.prefixesSeen + 1
          shorterThan128bit := result.shorterThan128bit + 1 }
        else { result with prefixesSeen := result.prefixesSeen + 1 }).entries = result.entries := by
      split <;> rfl
    rw [hentries]
    split
    · rename_i hseen
      rw [hentries]
      exact ⟨Or.inl, fun h => h.elim id fun heq => heq ▸ hseen⟩
    · simp [eq_comm]

theorem mem_entries_foldl_countCaptured {asked : List CapturedPrefix}
    {result : CapturedHideObjectEntries} {entry : HideObjectEntry} :
    entry ∈ (asked.foldl countCaptured result).entries ↔
      entry ∈ result.entries ∨
        ∃ captured ∈ asked, buildEntryFromPrefix captured.vertexPrefix = some entry := by
  induction asked generalizing result with
  | nil => simp
  | cons captured asked ih =>
    rw [List.foldl_cons, ih, mem_entries_countCaptured, or_assoc, List.exists_mem_cons_iff]

theorem mem_capturedEntries {e : Engine} {drawSequences : List Nat} {entry : HideObjectEntry} :
    entry ∈ (e.getCapturedEntriesForDrawSequences drawSequences).entries ↔
      ∃ captured ∈ e.displayCapturePrefixes, captured.drawSequence ∈ drawSequences ∧
        buildEntryFromPrefix captured.vertexPrefix = some entry := by
  unfold getCapturedEntriesForDrawSequences
  rw [mem_entries_foldl_countCaptured]
  simp [and_assoc]

def shouldHide (e : Engine) (m : Memory) (src : Nat) : Bool :=
  if e.updating then false else e.activeEntries.any (beginsWith m src)

def hasCodes (e : Engine) : Bool := !e.activeEntries.isEmpty

end Engine

end DolphinXR.HideObjectEngine
