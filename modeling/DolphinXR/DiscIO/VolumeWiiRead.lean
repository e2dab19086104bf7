import DolphinXR.DiscIO.BlockIntegrity

/- Reading a Wii partition (`VolumeWii::Read`, DiscIO/VolumeWii.cpp), with the cache of one
   block that it keeps from call to call.

   A run is a sequence of calls, each a loop over the blocks of its range. The blob reader
   delivers the bytes of a disc or fails at any of its calls, and then what it has left in
   the buffer is arbitrary. An encrypted block is read into a buffer of the call and
   decrypted into the cache; an unencrypted one is read into the cache itself, while the
   cache is still named after the block before. -/
namespace DolphinXR.DiscIO
open Lib

namespace VolumeWii

/-- A volume and one of its partitions, with what the blob reader delivers when it does not
    fail. -/
structure Volume where
  hasHashes : Bool
  hasEncryption : Bool
  partition : PartitionDetails
  disc : Nat → UInt8
  supportsReadWiiDecrypted : Nat → Nat → Bool
  readWiiDecrypted : Nat → Nat → Bytes

/-- A call in its loop: what it was asked for, what is left of it, and what it has copied. -/
structure ReadCall where
  request : Nat × Nat
  offset : Nat
  length : Nat
  out : Bytes

structure ReadState where
  lastDecryptedBlock : Nat
  lastDecryptedBlockData : Bytes
  call : Option ReadCall
  /-- The calls that have returned, with what those that returned true have delivered. -/
  returned : List ((Nat × Nat) × Option Bytes)

inductive ReadAction where
  /-- A call, and whether the reader succeeds if the call is handed on to it. -/
  | call (offset length : Nat) (readOk : Bool)
  /-- A turn of the loop; if the reader fails in it, what is then in its buffer. -/
  | turn (failed : Option Bytes)

/-- `UINT64_MAX`, which is the offset of no block. -/
def noBlock : Nat := 2 ^ 64 - 1

section Read
variable (c : Cipher) (v : Volume)

def Volume.discBytes (offset size : Nat) : Bytes := (List.range size).map fun i => v.disc (offset + i)

def blockOffsetOnDisc (offset : Nat) : Nat :=
  (v.partition.dataOffset + offset / blockDataSize * blockTotalSize) % 2 ^ 64

/-- The data of the block at an offset on the disc. -/
def blockData (block : Nat) : Bytes :=
  if v.hasEncryption then
    decryptBlockData c (v.partition.key.getD []) (v.discBytes block blockTotalSize)
  else v.discBytes ((block + blockHeaderSize) % 2 ^ 64) blockDataSize

def partitionBytes (offset length : Nat) : Bytes :=
  (List.range length).map fun i =>
    (blockData c v (blockOffsetOnDisc v (offset + i))).getD ((offset + i) % blockDataSize) 0

def ReadState.return (s : ReadState) (request : Nat × Nat) (delivered : Option Bytes) : ReadState :=
  { s with call := none, returned := s.returned ++ [(request, delivered)] }

/-- What a call does before its loop. -/
def startRead (s : ReadState) (offset length : Nat) (readOk : Bool) : ReadState :=
  if v.hasHashes && v.hasEncryption && v.supportsReadWiiDecrypted offset length then
    s.return (offset, length) (if readOk then some (v.readWiiDecrypted offset length) else none)
  else if !v.hasHashes then
    s.return (offset, length)
      (if readOk then some (v.discBytes ((v.partition.dataOffset + offset) % 2 ^ 64) length) else none)
  else if v.hasEncryption && v.partition.key.isNone then s.return (offset, length) none
  else { s with call := some ⟨(offset, length), offset, length, []⟩ }

/-- The block is read unless it is the one in the cache. -/
def loadBlock (s : ReadState) (block : Nat) (failed : Option Bytes) : Bool × ReadState :=
  if s.lastDecryptedBlock = block then (true, s)
  else match failed with
    | none => (true, { s with lastDecryptedBlock := block, lastDecryptedBlockData := blockData c v block })
    | some buffer =>
      (false, if v.hasEncryption then s else { s with lastDecryptedBlockData := buffer })

def copySize (offset length : Nat) : Nat := min length (blockDataSize - offset % blockDataSize)

/-- The loop goes on with what the cached block has of the range. -/
def copyBlock (s : ReadState) (r : ReadCall) : ReadState :=
  let size := copySize r.offset r.length
  let copied := slice s.lastDecryptedBlockData (r.offset % blockDataSize) size
  { s with call := some ⟨r.request, (r.offset + size) % 2 ^ 64, r.length - size, r.out ++ copied⟩ }

/-- A turn of the loop, or the end of the call. -/
def readTurn (s : ReadState) (r : ReadCall) (failed : Option Bytes) : ReadState :=
  if r.length = 0 then s.return r.request (some r.out)
  else
    let (ok, s) := loadBlock c v s (blockOffsetOnDisc v r.offset) failed
    if ok then copyBlock s r else s.return r.request none

def readStep (s : ReadState) : ReadAction → Option ReadState
  | .call offset length readOk =>
    if s.call.isSome then none else some (startRead v s offset length readOk)
  | .turn failed => s.call.map fun r => readTurn c v s r failed

/-- The runs of `Read` on the partition. -/
def readSystem : System ReadState ReadAction where
  init s := s = ⟨noBlock, zeroes blockDataSize, none, []⟩
  step := readStep c v

/-- A call's range ends below 2^64, and the reader does not fail after having changed the data
    of a block in the cache. -/
def Undisturbed (s : ReadState) : ReadAction → Prop
  | .call offset length _ => offset + length ≤ 2 ^ 64
  | .turn failed => ∀ buffer, failed = some buffer →
    v.hasEncryption = true ∨ s.lastDecryptedBlock = noBlock ∨ buffer = s.lastDecryptedBlockData

end Read

/-! ### What is delivered -/

section Delivery
variable {c : Cipher} {v : Volume}

theorem blockOffsetOnDisc_ne (offset : Nat) : blockOffsetOnDisc v offset ≠ noBlock := by
  have haligned := v.partition.aligned
  unfold blockOffsetOnDisc noBlock blockTotalSize blockHeaderSize blockDataSize
  omega

theorem partitionBytes_add (offset m n : Nat) :
    partitionBytes c v offset (m + n) =
      partitionBytes c v offset m ++ partitionBytes c v (offset + m) n := by
  simp only [partitionBytes, List.range_add, List.map_append, List.map_map, Function.comp_def,
    Nat.add_assoc]

section Blocks
variable (hdecrypt : ∀ key iv data, (c.decrypt key iv data).length = data.length)
include hdecrypt

theorem length_blockData (block : Nat) : (blockData c v block).length = blockDataSize := by
  unfold blockData
  split
  · rw [decryptBlockData, hdecrypt]
    exact length_slice (by simp [Volume.discBytes, blockTotalSize])
  · simp [Volume.discBytes]

theorem slice_blockData (offset length : Nat) :
    slice (blockData c v (blockOffsetOnDisc v offset)) (offset % blockDataSize)
        (copySize offset length) =
      partitionBytes c v offset (copySize offset length) := by
  have hlen := length_blockData hdecrypt (v := v) (blockOffsetOnDisc v offset)
  have hmod := Nat.mod_lt offset (show 0 < blockDataSize by decide)
  have hsize : copySize offset length ≤ blockDataSize - offset % blockDataSize :=
    Nat.min_le_right ..
  apply List.ext_getElem
  · rw [length_slice (by omega)]
    simp [partitionBytes]
  · intro i hi hi'
    have hlt : i < copySize offset length := by simpa [partitionBytes] using hi'
    -- The range does not leave the block.
    have hdiv : (offset + i) / blockDataSize = offset / blockDataSize := by
      unfold blockDataSize at hsize ⊢
      omega
    have hoff : (offset + i) % blockDataSize = offset % blockDataSize + i := by
      unfold blockDataSize at hsize ⊢
      omega
    have hget : (slice (blockData c v (blockOffsetOnDisc v offset)) (offset % blockDataSize)
        (copySize offset length))[i]? = _ := getElem?_slice hlt
    rw [List.getElem?_eq_getElem hi, List.getElem?_eq_getElem (by omega)] at hget
    rw [Option.some.inj hget]
    simp only [partitionBytes, List.getElem_map, List.getElem_range, blockOffsetOnDisc, hdiv, hoff]
    rw [List.getD_eq_getElem?_getD, List.getElem?_eq_getElem, Option.getD_some]

end Blocks

/-- What holds in a run: the cache has the data of its block, the call in its loop has copied
    the first bytes of its range, and those that have returned true have delivered theirs. -/
structure ReadInv (c : Cipher) (v : Volume) (s : ReadState) : Prop where
  cache : s.lastDecryptedBlock ≠ noBlock →
    s.lastDecryptedBlockData = blockData c v s.lastDecryptedBlock
  call : ∀ r, s.call = some r → r.request.1 + r.request.2 ≤ 2 ^ 64 ∧
    r.out.length + r.length = r.request.2 ∧
    (r.length ≠ 0 → r.offset = r.request.1 + r.out.length) ∧
    r.out = partitionBytes c v r.request.1 r.out.length
  returned : ∀ x ∈ s.returned, ∀ bytes, x.2 = some bytes →
    bytes = partitionBytes c v x.1.1 x.1.2

theorem ReadInv.return {s : ReadState} (h : ReadInv c v s) {request : Nat × Nat}
    {delivered : Option Bytes}
    (hdelivered : ∀ bytes, delivered = some bytes →
      bytes = partitionBytes c v request.1 request.2) :
    ReadInv c v (s.return request delivered) := by
  refine ⟨h.cache, fun r hr => (nomatch hr), fun x hx bytes hbytes => ?_⟩
  rcases List.mem_append.1 hx with hx | hx
  · exact h.returned x hx bytes hbytes
  · obtain rfl := List.mem_singleton.1 hx
    exact hdelivered bytes hbytes

theorem startRead_inv {s : ReadState} (h : ReadInv c v s) (hhashes : v.hasHashes = true)
    (hdecrypted : ∀ offset length, v.supportsReadWiiDecrypted offset length = true →
      v.readWiiDecrypted offset length = partitionBytes c v offset length)
    {offset length : Nat} (hrange : offset + length ≤ 2 ^ 64) (readOk : Bool) :
    ReadInv c v (startRead v s offset length readOk) := by
  unfold startRead
  split
  case isTrue hsupports =>
    -- The call is handed on to the reader.
    simp only [Bool.and_eq_true] at hsupports
    refine h.return fun bytes hbytes => ?_
    cases readOk with
    | false => cases hbytes
    | true => rw [← Option.some.inj hbytes, hdecrypted _ _ hsupports.2]
  case isFalse =>
    rw [hhashes]
    simp only [Bool.not_true, Bool.false_eq_true, if_false]
    split
    · exact h.return fun _ hnone => nomatch hnone
    · refine ⟨h.cache, fun r hr => ?_, h.returned⟩
      obtain rfl := Option.some.inj hr
      exact ⟨hrange, Nat.zero_add _, fun _ => rfl, rfl⟩

theorem copyBlock_inv (hdecrypt : ∀ key iv data, (c.decrypt key iv data).length = data.length)
    {s : ReadState} (h : ReadInv c v s) {r : ReadCall} (hr : s.call = some r)
    (hlength : r.length ≠ 0) (hblock : s.lastDecryptedBlock = blockOffsetOnDisc v r.offset) :
    ReadInv c v (copyBlock s r) := by
  obtain ⟨hrange, hsum, hoffset, hout⟩ := h.call r hr
  have hoffset := hoffset hlength
  have hsize : copySize r.offset r.length ≤ r.length := Nat.min_le_left ..
  have hdata : s.lastDecryptedBlockData = blockData c v (blockOffsetOnDisc v r.offset) := by
    rw [h.cache (hblock ▸ blockOffsetOnDisc_ne _), hblock]
  have hcopied := slice_blockData hdecrypt (v := v) r.offset r.length
  have hlen : (partitionBytes c v r.offset (copySize r.offset r.length)).length =
      copySize r.offset r.length := by simp [partitionBytes]
  refine ⟨h.cache, fun r' hr' => ?_, h.returned⟩
  obtain rfl := Option.some.inj hr'
  rw [hdata, hcopied]
  refine ⟨hrange, ?_, fun hne => ?_, ?_⟩
  · simp only [List.length_append, hlen]
    omega
  · simp only [List.length_append, hlen] at hne ⊢
    rw [Nat.mod_eq_of_lt (by omega)]
    omega
  · simp only [List.length_append, hlen, partitionBytes_add]
    rw [← hout, hoffset]

theorem readTurn_inv (hdecrypt : ∀ key iv data, (c.decrypt key iv data).length = data.length)
    {s : ReadState} (h : ReadInv c v s) {r : ReadCall} (hr : s.call = some r)
    {failed : Option Bytes} (hfailed : Undisturbed v s (.turn failed)) :
    ReadInv c v (readTurn c v s r failed) := by
  obtain ⟨hrange, hsum, hoffset, hout⟩ := h.call r hr
  unfold readTurn
  split
  case isTrue hzero =>
    refine h.return fun bytes hbytes => ?_
    rw [← Option.some.inj hbytes, ← hsum, hzero, Nat.add_zero]
    exact hout
  case isFalse hlength =>
    by_cases hhit : s.lastDecryptedBlock = blockOffsetOnDisc v r.offset
    · simp only [loadBlock, if_pos hhit]
      exact copyBlock_inv hdecrypt h hr hlength hhit
    · simp only [loadBlock, if_neg hhit]
      cases failed with
      | none =>
        have hloaded : ReadInv c v { s with
            lastDecryptedBlock := blockOffsetOnDisc v r.offset
            lastDecryptedBlockData := blockData c v (blockOffsetOnDisc v r.offset) } :=
          ⟨fun _ => rfl, h.call, h.returned⟩
        exact copyBlock_inv hdecrypt hloaded hr hlength rfl
      | some buffer =>
        have hkept : ReadInv c v
            (if v.hasEncryption then s else { s with lastDecryptedBlockData := buffer }) := by
          split
          · exact h
          case isFalse hplain =>
            refine ⟨fun hne => ?_, h.call, h.returned⟩
            rcases hfailed buffer rfl with hencrypted | hnone | hsame
            · exact absurd hencrypted hplain
            · exact absurd hnone hne
            · exact hsame.trans (h.cache hne)
        exact hkept.return fun _ hnone => nomatch hnone

/-- In every run in which no failed read changes the data of the cached block, each call that
    returns true delivers the bytes of the disc. -/
theorem read_delivers (hdecrypt : ∀ key iv data, (c.decrypt key iv data).length = data.length)
    (hhashes : v.hasHashes = true)
    (hdecrypted : ∀ offset length, v.supportsReadWiiDecrypted offset length = true →
      v.readWiiDecrypted offset length = partitionBytes c v offset length)
    {s : ReadState} (h : (readSystem c v).ReachableBy (Undisturbed v) s) :
    ∀ x ∈ s.returned, ∀ bytes, x.2 = some bytes → bytes = partitionBytes c v x.1.1 x.1.2 := by
  refine (h.invariant (P := ReadInv c v) ?_ ?_).returned
  · rintro s rfl
    exact ⟨fun hne => absurd rfl hne, fun _ hr => (nomatch hr), fun _ hx => (nomatch hx)⟩
  · intro s a s' hinv hok hstep
    cases a with
    | call offset length readOk =>
      simp only [readSystem, readStep] at hstep
      split at hstep
      · cases hstep
      · obtain rfl := Option.some.inj hstep
        exact startRead_inv hinv hhashes hdecrypted hok readOk
    | turn failed =>
      obtain ⟨r, hr, rfl⟩ := Option.map_eq_some_iff.1 hstep
      exact readTurn_inv hdecrypt hinv hr hok

end Delivery

/-- A cipher that changes nothing, with one digest for all data. -/
def plainCipher : Cipher where
  sha1 _ := zeroes 20
  crypt _ _ data := data
  decrypt _ _ data := data

theorem zero_aligned : 0 % 4 = 0 := rfl

def plainPartition : PartitionDetails := ⟨0, some (zeroes 16), zeroes 20, zero_aligned⟩

/-- A partition whose first block has ones and whose second has twos. -/
def twoBlocks (hasEncryption : Bool) : Volume where
  hasHashes := true
  hasEncryption := hasEncryption
  partition := plainPartition
  disc offset := UInt8.ofNat (offset / blockTotalSize + 1)
  supportsReadWiiDecrypted _ _ := false
  readWiiDecrypted _ _ := []

/-- A byte of the first block is read, then one of the second, where the reader fails when it
    has written a byte, and then the first byte again. -/
def failingRun : List ReadAction :=
  [.call 0 1 true, .turn none, .turn none, .call blockDataSize 1 true,
    .turn (some (2 :: List.replicate (blockDataSize - 1) 1)), .call 0 1 true, .turn none, .turn none]

def failingRunReturns (hasEncryption : Bool) : Option (List ((Nat × Nat) × Option Bytes)) :=
  ((readSystem plainCipher (twoBlocks hasEncryption)).run
    ⟨noBlock, zeroes blockDataSize, none, []⟩ failingRun).map (·.returned)

/-- With encryption the failed read does not matter. -/
theorem encryptedRun_delivers : ∃ s : ReadState,
    s.returned = [((0, 1), some [1]), ((blockDataSize, 1), none), ((0, 1), some [1])] ∧
      ∀ x ∈ s.returned, ∀ bytes, x.2 = some bytes →
        bytes = partitionBytes plainCipher (twoBlocks true) x.1.1 x.1.2 := by
  have hreturns : failingRunReturns true =
      some [((0, 1), some [1]), ((blockDataSize, 1), none), ((0, 1), some [1])] := by
    decide +kernel
  obtain ⟨s, hrun, hreturned⟩ := Option.map_eq_some_iff.1 hreturns
  have hok : ∀ a ∈ failingRun, ∀ s, Undisturbed (twoBlocks true) s a := by
    intro a ha s
    cases a with
    | call offset length readOk =>
      simp only [failingRun, List.mem_cons, ReadAction.call.injEq, reduceCtorEq, List.not_mem_nil,
        or_false, false_or] at ha
      show offset + length ≤ 2 ^ 64
      rcases ha with ⟨rfl, rfl, -⟩ | ⟨rfl, rfl, -⟩ | ⟨rfl, rfl, -⟩ <;> decide
    | turn failed => exact fun _ _ => .inl rfl
  exact ⟨s, hreturned, read_delivers (fun _ _ _ => rfl) rfl (fun _ _ h => absurd h Bool.false_ne_true)
    (System.ReachableBy.run (.init rfl) hok hrun)⟩

/-- Without it the first byte is delivered as that of the second block. -/
theorem unencryptedRun_stale : ∃ s, (readSystem plainCipher (twoBlocks false)).Reachable s ∧
    ((0, 1), some [2]) ∈ s.returned ∧
    partitionBytes plainCipher (twoBlocks false) 0 1 = [1] := by
  have hreturns : failingRunReturns false =
      some [((0, 1), some [1]), ((blockDataSize, 1), none), ((0, 1), some [2])] := by
    decide +kernel
  obtain ⟨s, hrun, hreturned⟩ := Option.map_eq_some_iff.1 hreturns
  exact ⟨s, System.Reachable.run (.init rfl) hrun, by simp [hreturned], by decide +kernel⟩

end VolumeWii
end DolphinXR.DiscIO
