import DolphinXR.Lib.Bytes
import DolphinXR.Lib.Transition

/- Reading by sectors through a cache of 32 lines (`SectorReader`, DiscIO/Blob.cpp). A
   line holds a chunk of blocks, from a block number that the chunk size divides; the
   chunk at the end of the disc is short. The line to evict is found by a shift register
   of each line, which is shifted in the search.

   `GetBlock` is a function with a state that delivers the bytes of the block or fails,
   and then has written any bytes. The products of the two sizes are below 2^32, so the
   arithmetic of `u32` is exact; that of `u64` is taken modulo 2^64. -/
namespace DolphinXR.DiscIO
open Lib

namespace SectorReader

def cacheLines : Nat := 32

/-- What a reader is made of: the sizes, and `GetBlock` with the bytes that stand for the
    blocks. -/
structure Sectors (σ : Type) where
  blockSize : Nat
  chunkBlocks : Nat
  dataSize : Nat
  block : Nat → Bytes
  getBlock : σ → Nat → Bytes → Bool × Bytes × σ
  blockSize_pos : 0 < blockSize
  chunkBlocks_pos : 0 < chunkBlocks
  product_lt : chunkBlocks * blockSize < 2 ^ 32
  dataSize_lt : dataSize < 2 ^ 64
  length_block : ∀ n, (block n).length = blockSize
  length_getBlock : ∀ r n out, (getBlock r n out).2.1.length = out.length
  getBlock_ok : ∀ r n out, (getBlock r n out).1 = true → (getBlock r n out).2.1 = block n

/-- `Cache`. -/
structure Line where
  data : Bytes
  blockIdx : Nat
  numBlocks : Nat
  lruSreg : UInt32

namespace Line

def reset (l : Line) : Line := { l with blockIdx := 0, numBlocks := 0, lruSreg := 0 }

def markUsed (l : Line) : Line := { l with lruSreg := l.lruSreg ||| 0x80000000 }

def fill (l : Line) (block count : Nat) : Line :=
  { l with blockIdx := block, numBlocks := count }.markUsed

def contains (l : Line) (block : Nat) : Bool :=
  decide (l.blockIdx ≤ block ∧ block - l.blockIdx < l.numBlocks)

def shiftLRU (l : Line) : Line := { l with lruSreg := l.lruSreg >>> 1 }

def isLessRecentlyUsedThan (l other : Line) : Bool := decide (l.lruSreg < other.lruSreg)

end Line

structure ReaderState (σ : Type) where
  lines : Nat → Line
  reader : σ

section Cache

/-- `FindCacheLine`: the first line that has the block, as an index. -/
def findCacheLine (lines : Nat → Line) (block : Nat) : Option (Nat × (Nat → Line)) :=
  ((List.range cacheLines).find? fun i => (lines i).contains block).map fun i =>
    (i, Function.update lines i (lines i).markUsed)

/-- A step of the search of `GetEmptyCacheLine`, with the oldest line so far. -/
def searchOldest (x : (Nat → Line) × Nat) (i : Nat) : (Nat → Line) × Nat :=
  if (x.1 i).isLessRecentlyUsedThan (x.1 x.2) then
    (Function.update x.1 x.2 (x.1 x.2).shiftLRU, i)
  else (Function.update x.1 i (x.1 i).shiftLRU, x.2)

def getEmptyCacheLine (lines : Nat → Line) : (Nat → Line) × Nat :=
  let found := (List.range' 1 (cacheLines - 1)).foldl searchOldest (lines, 0)
  (Function.update found.1 found.2 (found.1 found.2).reset, found.2)

end Cache

section Read
variable {σ : Type} (S : Sectors σ)

/-- The loop of `ReadMultipleAlignedBlocks`, which writes the buffer from `pos` on. -/
def readBlocks : Nat → Nat → Nat → Bytes → σ → Bool × Bytes × σ
  | 0, _, _, buffer, r => (true, buffer, r)
  | n + 1, block, pos, buffer, r =>
    let result := S.getBlock r (block % 2 ^ 64) (slice buffer pos S.blockSize)
    let buffer := splice buffer pos result.2.1
    if result.1 then readBlocks n (block + 1) (pos + S.blockSize) buffer result.2.2
    else (false, buffer, result.2.2)

/-- The loop that probes a disc of unknown size: the blocks that are there, and zeroes. -/
def probeBlocks : Nat → Nat → Nat → Bytes → σ → Nat × Bytes × σ
  | 0, _, _, buffer, r => (0, buffer, r)
  | n + 1, block, pos, buffer, r =>
    let result := S.getBlock r (block % 2 ^ 64) (slice buffer pos S.blockSize)
    let buffer := splice buffer pos result.2.1
    if result.1 then
      let probed := probeBlocks n (block + 1) (pos + S.blockSize) buffer result.2.2
      (probed.1 + 1, probed.2)
    else (0, splice buffer pos (List.replicate ((n + 1) * S.blockSize) 0), result.2.2)

def endBlock : Nat := (S.dataSize + S.blockSize - 1) % 2 ^ 64 / S.blockSize

/-- The blocks of a chunk that are asked for: not those behind the end, if it is known. -/
def chunkCount (blockNum : Nat) : Nat :=
  if endBlock S = 0 then S.chunkBlocks
  else min S.chunkBlocks ((endBlock S + (2 ^ 64 - blockNum)) % 2 ^ 64)

/-- `ReadChunk`: the number of blocks, and the buffer. -/
def readChunk (buffer : Bytes) (chunkNum : Nat) (r : σ) : Nat × Bytes × σ :=
  let blockNum := chunkNum * S.chunkBlocks
  let count := chunkCount S blockNum
  let result := readBlocks S count blockNum 0 buffer r
  if result.1 then
    (count, splice result.2.1 (count * S.blockSize)
      (List.replicate ((S.chunkBlocks - count) * S.blockSize) 0), result.2.2)
  else if endBlock S = 0 then probeBlocks S count blockNum 0 result.2.1 result.2.2
  else (0, result.2)

/-- `GetCacheLine`: the index of a line with the block. -/
def getCacheLine (s : ReaderState σ) (block : Nat) : Option Nat × ReaderState σ :=
  match findCacheLine s.lines block with
  | some (i, lines) => (some i, { s with lines := lines })
  | none =>
    let (lines, i) := getEmptyCacheLine s.lines
    let chunk := block / S.chunkBlocks
    let result := readChunk S (lines i).data chunk s.reader
    let line := { lines i with data := result.2.1 }
    if result.1 = 0 then (none, ⟨Function.update lines i line, result.2.2⟩)
    else
      let line := line.fill (chunk * S.chunkBlocks) result.1
      (if line.contains block then some i else none, ⟨Function.update lines i line, result.2.2⟩)

/-- The loop of `Read`: what is copied, and whether all of it is there. -/
def readLoop : Nat → Nat → Nat → Nat → Bytes → ReaderState σ → Bool × Bytes × ReaderState σ
  | 0, _, _, _, out, s => (true, out, s)
  | fuel + 1, offset, remain, position, out, s =>
    if remain = 0 then (true, out, s)
    else
      let block := offset / S.blockSize
      match getCacheLine S s block with
      | (none, s) => (false, out, s)
      | (some i, s) =>
        let line := s.lines i
        let readOffset := (block - line.blockIdx) * S.blockSize + position
        let wasRead := min (S.blockSize * line.numBlocks - readOffset) remain
        readLoop fuel ((offset + wasRead) % 2 ^ 64) (remain - wasRead) 0
          (out ++ slice line.data readOffset wasRead) s

/-- `Read`. Every turn of the loop copies a byte. -/
def read (s : ReaderState σ) (offset size : Nat) : Option Bytes × ReaderState σ :=
  if S.dataSize < (offset + size) % 2 ^ 64 then (none, s)
  else
    let result := readLoop S size offset size (offset % S.blockSize) [] s
    (if result.1 then some result.2.1 else none, result.2.2)

end Read

def SameBlocks (lines lines' : Nat → Line) : Prop :=
  ∀ i, (lines' i).data = (lines i).data ∧ (lines' i).blockIdx = (lines i).blockIdx ∧
    (lines' i).numBlocks = (lines i).numBlocks

theorem SameBlocks.update {lines lines' : Nat → Line} (h : SameBlocks lines lines') (i : Nat)
    (sreg : UInt32) :
    SameBlocks lines (Function.update lines' i { lines' i with lruSreg := sreg }) := by
  intro j
  by_cases hj : j = i
  · subst hj
    rw [Function.update_self]
    exact h j
  · rw [Function.update_of_ne hj]
    exact h j

theorem searchOldest_foldl (lines : Nat → Line) : ∀ (indices : List Nat)
    (x : (Nat → Line) × Nat), SameBlocks lines x.1 → x.2 < cacheLines →
    (∀ i ∈ indices, i < cacheLines) →
    SameBlocks lines (indices.foldl searchOldest x).1 ∧
      (indices.foldl searchOldest x).2 < cacheLines
  | [], _, hsame, hlt, _ => ⟨hsame, hlt⟩
  | i :: rest, x, hsame, hlt, hall => by
    have hi := hall i (List.mem_cons_self ..)
    refine searchOldest_foldl lines rest (searchOldest x i) ?_ ?_
      fun j hj => hall j (List.mem_cons_of_mem _ hj)
    · unfold searchOldest
      split <;> exact hsame.update _ _
    · unfold searchOldest
      split
      · exact hi
      · exact hlt

theorem getEmptyCacheLine_spec (lines : Nat → Line) : ∃ lines' i,
    getEmptyCacheLine lines = (Function.update lines' i (lines' i).reset, i) ∧
      SameBlocks lines lines' ∧ i < cacheLines := by
  obtain ⟨hsame, hlt⟩ := searchOldest_foldl lines (List.range' 1 (cacheLines - 1)) (lines, 0)
    (fun _ => ⟨rfl, rfl, rfl⟩) (show 0 < cacheLines by decide) fun i hi => by
      have := List.mem_range'_1.1 hi
      unfold cacheLines at this ⊢
      omega
  exact ⟨_, _, rfl, hsame, hlt⟩

/-! ### Filling a line -/

section Fill
variable {σ : Type} {S : Sectors σ}

/-- The byte at an offset, as `GetBlock` defines the blocks. -/
def byteAt (S : Sectors σ) (offset : Nat) : UInt8 :=
  (S.block (offset / S.blockSize)).getD (offset % S.blockSize) 0

theorem getElem?_block {block k : Nat} (hk : k < S.blockSize) :
    (S.block block)[k]? = some (byteAt S (block * S.blockSize + k)) := by
  have hdiv : (block * S.blockSize + k) / S.blockSize = block := by
    rw [Nat.mul_comm, Nat.mul_add_div S.blockSize_pos, Nat.div_eq_of_lt hk, Nat.add_zero]
  have hmod : (block * S.blockSize + k) % S.blockSize = k := by
    rw [Nat.mul_comm, Nat.mul_add_mod, Nat.mod_eq_of_lt hk]
  have hlt : k < (S.block block).length := by rw [S.length_block]; exact hk
  rw [byteAt, hdiv, hmod, List.getD_eq_getElem?_getD, List.getElem?_eq_getElem hlt,
    Option.getD_some]

theorem length_written {buffer : Bytes} {pos n : Nat} (r : σ) (block : Nat)
    (h : pos + (n + 1) * S.blockSize ≤ buffer.length) :
    (S.getBlock r block (slice buffer pos S.blockSize)).2.1.length = S.blockSize := by
  rw [Nat.add_mul] at h
  rw [S.length_getBlock, length_slice (by omega)]

theorem readBlocks_spec : ∀ (n block pos : Nat) (buffer : Bytes) (r : σ),
    pos + n * S.blockSize ≤ buffer.length →
    (readBlocks S n block pos buffer r).2.1.length = buffer.length ∧
    (∀ k < pos, (readBlocks S n block pos buffer r).2.1[k]? = buffer[k]?) ∧
    (block + n ≤ 2 ^ 64 → (readBlocks S n block pos buffer r).1 = true →
      ∀ k < n * S.blockSize, (readBlocks S n block pos buffer r).2.1[pos + k]? =
        some (byteAt S (block * S.blockSize + k)))
  | 0, _, _, _, _, _ => ⟨rfl, fun _ _ => rfl, fun _ _ k hk => by simp at hk⟩
  | n + 1, block, pos, buffer, r, h => by
    have hwritten := length_written (S := S) r (block % 2 ^ 64) h
    have hsize : (n + 1) * S.blockSize = n * S.blockSize + S.blockSize := by
      rw [Nat.add_mul, Nat.one_mul]
    have hlen : (splice buffer pos (S.getBlock r (block % 2 ^ 64)
        (slice buffer pos S.blockSize)).2.1).length = buffer.length :=
      length_splice (by omega)
    unfold readBlocks
    dsimp only
    split
    case isTrue hok =>
      obtain ⟨hlen', hbefore, hbytes⟩ := readBlocks_spec n (block + 1) (pos + S.blockSize)
        _ (S.getBlock r (block % 2 ^ 64) (slice buffer pos S.blockSize)).2.2
        (by rw [hlen]; omega)
      refine ⟨hlen'.trans hlen, fun k hk => ?_, fun hend hall k hk => ?_⟩
      · rw [hbefore k (by omega), getElem?_splice_of_lt (by omega) hk]
      · -- The block just read, or one of those behind it.
        by_cases hfirst : k < S.blockSize
        · rw [hbefore (pos + k) (by omega), getElem?_splice_self (by omega) (by omega),
            S.getBlock_ok _ _ _ hok, Nat.mod_eq_of_lt (by omega), getElem?_block hfirst]
        · have hrest := hbytes (by omega) hall (k - S.blockSize) (by omega)
          have hpos : pos + S.blockSize + (k - S.blockSize) = pos + k := by omega
          have hoff : (block + 1) * S.blockSize + (k - S.blockSize) = block * S.blockSize + k := by
            rw [Nat.add_mul]
            omega
          rwa [hpos, hoff] at hrest
    case isFalse =>
      exact ⟨hlen, fun k hk => getElem?_splice_of_lt (by omega) hk, fun _ hfalse => nomatch hfalse⟩

theorem endBlock_lt : endBlock S < 2 ^ 64 :=
  Nat.lt_of_le_of_lt (Nat.div_le_self ..) (Nat.mod_lt _ (by decide))

theorem chunkCount_eq {blockNum : Nat} (h : blockNum < endBlock S) :
    chunkCount S blockNum = min S.chunkBlocks (endBlock S - blockNum) := by
  have hlt := endBlock_lt (S := S)
  rw [chunkCount, if_neg (by omega),
    show endBlock S + (2 ^ 64 - blockNum) = endBlock S - blockNum + 2 ^ 64 by omega,
    Nat.add_mod_right, Nat.mod_eq_of_lt (by omega)]

variable (hend : S.dataSize + S.blockSize - 1 < 2 ^ 64)

include hend in
theorem endBlock_eq : endBlock S = (S.dataSize + S.blockSize - 1) / S.blockSize := by
  rw [endBlock, Nat.mod_eq_of_lt hend]

include hend in
theorem lt_endBlock {offset : Nat} (h : offset < S.dataSize) :
    offset / S.blockSize < endBlock S := by
  rw [endBlock_eq hend, Nat.lt_iff_add_one_le, Nat.le_div_iff_mul_le S.blockSize_pos, Nat.add_mul,
    Nat.one_mul]
  have := Nat.div_mul_le_self offset S.blockSize
  have := S.blockSize_pos
  omega

theorem readChunk_spec {buffer : Bytes} {chunkNum : Nat} (r : σ)
    (hbuffer : buffer.length = S.chunkBlocks * S.blockSize)
    (hchunk : chunkNum * S.chunkBlocks < endBlock S) :
    (readChunk S buffer chunkNum r).2.1.length = S.chunkBlocks * S.blockSize ∧
      ((readChunk S buffer chunkNum r).1 = 0 ∨
        (readChunk S buffer chunkNum r).1 =
            min S.chunkBlocks (endBlock S - chunkNum * S.chunkBlocks) ∧
          ∀ k < (readChunk S buffer chunkNum r).1 * S.blockSize,
            (readChunk S buffer chunkNum r).2.1[k]? =
              some (byteAt S (chunkNum * S.chunkBlocks * S.blockSize + k))) := by
  have hlt := endBlock_lt (S := S)
  have hcount := chunkCount_eq hchunk
  have hle : chunkCount S (chunkNum * S.chunkBlocks) ≤ S.chunkBlocks := by omega
  have hfits := Nat.mul_le_mul_right S.blockSize hle
  obtain ⟨hlen, -, hbytes⟩ := readBlocks_spec (S := S) (chunkCount S (chunkNum * S.chunkBlocks))
    (chunkNum * S.chunkBlocks) 0 buffer r (by omega)
  have hzeroes : (chunkCount S (chunkNum * S.chunkBlocks)) * S.blockSize +
      (List.replicate ((S.chunkBlocks - chunkCount S (chunkNum * S.chunkBlocks)) * S.blockSize)
        (0 : UInt8)).length = S.chunkBlocks * S.blockSize := by
    rw [List.length_replicate, ← Nat.add_mul]
    congr 1
    omega
  unfold readChunk
  dsimp only
  split
  case isTrue hok =>
    refine ⟨by rw [length_splice (by omega)]; omega, .inr ⟨hcount, fun k hk => ?_⟩⟩
    have hk : k < chunkCount S (chunkNum * S.chunkBlocks) * S.blockSize := hk
    rw [getElem?_splice_of_lt (by omega) hk]
    simpa using hbytes (by omega) hok k hk
  case isFalse =>
    rw [if_neg (by omega)]
    exact ⟨hlen.trans hbuffer, .inl rfl⟩

end Fill

/-! ### The lines of the cache -/

section Lines
variable {σ : Type} {S : Sectors σ}

/-- A line that is not empty has a chunk, as far as the disc goes, and its bytes. -/
structure Line.Holds (S : Sectors σ) (l : Line) : Prop where
  start : l.blockIdx = l.blockIdx / S.chunkBlocks * S.chunkBlocks
  before : l.blockIdx < endBlock S
  count : l.numBlocks = min S.chunkBlocks (endBlock S - l.blockIdx)
  bytes : ∀ k < l.numBlocks * S.blockSize,
    l.data[k]? = some (byteAt S (l.blockIdx * S.blockSize + k))

/-- What holds of the cache: the lines have chunks, and not two of them the same. -/
structure CacheInv (S : Sectors σ) (lines : Nat → Line) : Prop where
  length : ∀ i < cacheLines, (lines i).data.length = S.chunkBlocks * S.blockSize
  holds : ∀ i < cacheLines, (lines i).numBlocks ≠ 0 → (lines i).Holds S
  distinct : ∀ i < cacheLines, ∀ j < cacheLines, i ≠ j → (lines i).numBlocks ≠ 0 →
    (lines j).numBlocks ≠ 0 → (lines i).blockIdx ≠ (lines j).blockIdx

theorem CacheInv.same {lines lines' : Nat → Line} (h : CacheInv S lines)
    (hsame : SameBlocks lines lines') : CacheInv S lines' := by
  refine ⟨fun i hi => ?_, fun i hi hne => ?_, fun i hi j hj hij hne hne' => ?_⟩
  · rw [(hsame i).1]
    exact h.length i hi
  · rw [(hsame i).2.2] at hne
    obtain ⟨hstart, hbefore, hcount, hbytes⟩ := h.holds i hi hne
    obtain ⟨hdata, hidx, hnum⟩ := hsame i
    exact ⟨by rw [hidx]; exact hstart, by rw [hidx]; exact hbefore, by rw [hnum, hidx]; exact hcount,
      by rw [hnum, hdata, hidx]; exact hbytes⟩
  · rw [(hsame i).2.2] at hne
    rw [(hsame j).2.2] at hne'
    rw [(hsame i).2.1, (hsame j).2.1]
    exact h.distinct i hi j hj hij hne hne'

theorem Line.contains_iff {l : Line} {block : Nat} :
    l.contains block = true ↔ l.blockIdx ≤ block ∧ block - l.blockIdx < l.numBlocks := by
  simp [Line.contains]

theorem Line.Holds.blockIdx_eq {l : Line} (h : l.Holds S) {block : Nat}
    (hcontains : l.contains block = true) :
    l.blockIdx = block / S.chunkBlocks * S.chunkBlocks := by
  obtain ⟨hle, hlt⟩ := Line.contains_iff.1 hcontains
  have hcount := h.count
  have hstart := h.start
  have hquot : block / S.chunkBlocks = l.blockIdx / S.chunkBlocks :=
    Nat.div_eq_of_lt_le (by omega) (by rw [Nat.add_mul]; omega)
  rw [hquot]
  exact hstart

theorem Line.Holds.contains {l : Line} (h : l.Holds S) {block : Nat}
    (hidx : l.blockIdx = block / S.chunkBlocks * S.chunkBlocks) (hblock : block < endBlock S) :
    l.contains block = true := by
  have hle := Nat.div_mul_le_self block S.chunkBlocks
  have hlt := Nat.lt_div_mul_add S.chunkBlocks_pos (a := block)
  have hcount := h.count
  exact Line.contains_iff.2 ⟨by omega, by omega⟩

theorem CacheInv.unique {lines : Nat → Line} (h : CacheInv S lines) {i j block : Nat}
    (hi : i < cacheLines) (hj : j < cacheLines) (hci : (lines i).contains block = true)
    (hcj : (lines j).contains block = true) : i = j := by
  have hne : ∀ k, (lines k).contains block = true → (lines k).numBlocks ≠ 0 := fun k hk => by
    have := (Line.contains_iff.1 hk).2
    omega
  by_contra hij
  refine h.distinct i hi j hj hij (hne i hci) (hne j hcj) ?_
  rw [(h.holds i hi (hne i hci)).blockIdx_eq hci, (h.holds j hj (hne j hcj)).blockIdx_eq hcj]

theorem CacheInv.put {lines : Nat → Line} (h : CacheInv S lines) {i : Nat} {l : Line}
    (hlength : l.data.length = S.chunkBlocks * S.blockSize) (hholds : l.numBlocks ≠ 0 → l.Holds S)
    (hother : l.numBlocks ≠ 0 → ∀ j < cacheLines, j ≠ i → (lines j).numBlocks ≠ 0 →
      (lines j).blockIdx ≠ l.blockIdx) : CacheInv S (Function.update lines i l) := by
  refine ⟨fun j hj => ?_, fun j hj hne => ?_, fun j hj k hk hjk hne hne' => ?_⟩
  · by_cases hji : j = i
    · rw [hji, Function.update_self]
      exact hlength
    · rw [Function.update_of_ne hji]
      exact h.length j hj
  · by_cases hji : j = i
    · rw [hji, Function.update_self] at hne ⊢
      exact hholds hne
    · rw [Function.update_of_ne hji] at hne ⊢
      exact h.holds j hj hne
  · by_cases hji : j = i
    · have hki : k ≠ i := fun hki => hjk (hji.trans hki.symm)
      rw [hji, Function.update_self] at hne ⊢
      rw [Function.update_of_ne hki] at hne' ⊢
      exact (hother hne k hk hki hne').symm
    · rw [Function.update_of_ne hji] at hne ⊢
      by_cases hki : k = i
      · rw [hki, Function.update_self] at hne' ⊢
        exact hother hne' j hj hji hne
      · rw [Function.update_of_ne hki] at hne' ⊢
        exact h.distinct j hj k hk hjk hne hne'

theorem findCacheLine_some {lines lines' : Nat → Line} {block i : Nat}
    (h : findCacheLine lines block = some (i, lines')) :
    i < cacheLines ∧ (lines i).contains block = true ∧ SameBlocks lines lines' := by
  obtain ⟨j, hfind, heq⟩ := Option.map_eq_some_iff.1 h
  obtain ⟨rfl, rfl⟩ := Prod.mk.inj heq
  have hsame : SameBlocks lines lines := fun _ => ⟨rfl, rfl, rfl⟩
  have hcontains : (lines j).contains block = true := by simpa using List.find?_some hfind
  exact ⟨List.mem_range.1 (List.mem_of_find?_eq_some hfind), hcontains, hsame.update _ _⟩

theorem findCacheLine_none {lines : Nat → Line} {block i : Nat}
    (h : findCacheLine lines block = none) (hi : i < cacheLines) :
    (lines i).contains block = false := by
  have hfind := List.find?_eq_none.1 (Option.map_eq_none_iff.1 h) i (List.mem_range.2 hi)
  simpa using hfind

theorem SameBlocks.contains {lines lines' : Nat → Line} (h : SameBlocks lines lines')
    (i block : Nat) : (lines' i).contains block = (lines i).contains block := by
  rw [Line.contains, Line.contains, (h i).2.1, (h i).2.2]

theorem getCacheLine_spec {s : ReaderState σ} (h : CacheInv S s.lines) {block : Nat}
    (hblock : block < endBlock S) :
    CacheInv S (getCacheLine S s block).2.lines ∧
      ∀ i, (getCacheLine S s block).1 = some i →
        i < cacheLines ∧ ((getCacheLine S s block).2.lines i).contains block = true := by
  unfold getCacheLine
  split
  case h_1 i lines hfound =>
    obtain ⟨hi, hcontains, hsame⟩ := findCacheLine_some hfound
    refine ⟨h.same hsame, fun j hj => ?_⟩
    obtain rfl := Option.some.inj hj
    exact ⟨hi, (hsame.contains i block).trans hcontains⟩
  case h_2 hmiss =>
    obtain ⟨lines', i, heq, hsame, hi⟩ := getEmptyCacheLine_spec s.lines
    have hinv := h.same hsame
    have hempty : CacheInv S (Function.update lines' i (lines' i).reset) :=
      hinv.put (hinv.length i hi) (fun hne => absurd rfl hne) fun hne => absurd rfl hne
    have hmissed : ∀ j < cacheLines, j ≠ i → (Function.update lines' i (lines' i).reset j).contains
        block = false := fun j hj hji => by
      rw [Function.update_of_ne hji, hsame.contains, findCacheLine_none hmiss hj]
    have hzero : (Function.update lines' i (lines' i).reset i).numBlocks = 0 := by
      rw [Function.update_self]
      rfl
    rw [heq]
    dsimp only
    generalize Function.update lines' i (lines' i).reset = lines at hempty hmissed hzero ⊢
    have hstart : block / S.chunkBlocks * S.chunkBlocks < endBlock S :=
      Nat.lt_of_le_of_lt (Nat.div_mul_le_self ..) hblock
    obtain ⟨hlen, hread⟩ := readChunk_spec s.reader (hempty.length i hi) hstart
    split
    case isTrue =>
      exact ⟨hempty.put hlen (fun hne => absurd hzero hne) fun hne => absurd hzero hne,
        fun j hj => nomatch hj⟩
    case isFalse hcount =>
      obtain ⟨hcount', hbytes⟩ := hread.resolve_left hcount
      have hnew : Line.Holds S (Line.fill { lines i with data :=
          (readChunk S (lines i).data (block / S.chunkBlocks) s.reader).2.1 }
          (block / S.chunkBlocks * S.chunkBlocks)
          (readChunk S (lines i).data (block / S.chunkBlocks) s.reader).1) :=
        ⟨by simp only [Line.fill, Line.markUsed, Nat.mul_div_cancel _ S.chunkBlocks_pos],
          hstart, hcount', hbytes⟩
      have hcontains := hnew.contains rfl hblock
      rw [if_pos hcontains]
      refine ⟨hempty.put hlen (fun _ => hnew) fun _ j hj hji hne hidx => ?_, fun j hj => ?_⟩
      · -- Another line with the chunk would have had the block.
        have hj' := (hempty.holds j hj hne).contains hidx hblock
        rw [hmissed j hj hji] at hj'
        cases hj'
      · obtain rfl := Option.some.inj hj
        dsimp only
        rw [Function.update_self]
        exact ⟨hi, hcontains⟩

end Lines
/-! ### Runs -/

section Runs
variable {σ : Type} (S : Sectors σ)

/-- The bytes of a range, as `GetBlock` defines the blocks. -/
def diskBytes (offset size : Nat) : Bytes := (List.range size).map fun i => byteAt S (offset + i)

structure RunState (σ : Type) where
  state : ReaderState σ
  /-- The calls that have returned, with what those that returned true have delivered. -/
  returned : List ((Nat × Nat) × Option Bytes)

/-- Sequences of calls of `Read`, with an offset and a size, on a reader whose sizes have been
    set. -/
def readSystem : System (RunState σ) (Nat × Nat) where
  init s := (∀ i, s.state.lines i = ⟨List.replicate (S.chunkBlocks * S.blockSize) 0, 0, 0, 0⟩) ∧
    s.returned = []
  step s a :=
    let result := read S s.state a.1 a.2
    some ⟨result.2, s.returned ++ [(a, result.1)]⟩

def DoesNotWrap (_ : RunState σ) (a : Nat × Nat) : Prop :=
  a.1 + a.2 < 2 ^ 64 ∨ S.dataSize < (a.1 + a.2) % 2 ^ 64

variable {S}

theorem diskBytes_add (offset m n : Nat) :
    diskBytes S offset (m + n) = diskBytes S offset m ++ diskBytes S (offset + m) n := by
  simp only [diskBytes, List.range_add, List.map_append, List.map_map, Function.comp_def,
    Nat.add_assoc]

theorem Line.Holds.slice_data {l : Line} (h : l.Holds S) (pos size : Nat)
    (hlen : pos + size ≤ l.numBlocks * S.blockSize) :
    slice l.data pos size = diskBytes S (l.blockIdx * S.blockSize + pos) size := by
  apply List.ext_getElem?
  intro i
  by_cases hi : i < size
  · rw [getElem?_slice hi, h.bytes _ (by omega), diskBytes, List.getElem?_map,
      List.getElem?_range hi, ← Nat.add_assoc]
    rfl
  · rw [List.getElem?_eq_none (by simp [slice]; omega),
      List.getElem?_eq_none (by simp [diskBytes]; omega)]

theorem readLoop_spec (hend : S.dataSize + S.blockSize - 1 < 2 ^ 64) : ∀ (fuel : Nat)
    {offset remain position : Nat} (out : Bytes) {s : ReaderState σ}, remain ≤ fuel →
    offset + remain ≤ S.dataSize → (remain ≠ 0 → position = offset % S.blockSize) →
    CacheInv S s.lines →
    CacheInv S (readLoop S fuel offset remain position out s).2.2.lines ∧
      ((readLoop S fuel offset remain position out s).1 = true →
        (readLoop S fuel offset remain position out s).2.1 = out ++ diskBytes S offset remain)
  | 0, offset, remain, position, out, s, hfuel, _, _, h => by
    obtain rfl : remain = 0 := by omega
    exact ⟨h, fun _ => by simp [readLoop, diskBytes]⟩
  | fuel + 1, offset, remain, position, out, s, hfuel, hrange, hposition, h => by
    have hD := S.dataSize_lt
    unfold readLoop
    split
    case isTrue hzero =>
      subst hzero
      exact ⟨h, fun _ => by simp [diskBytes]⟩
    case isFalse hremain =>
      have hposition := hposition hremain
      have hblock : offset / S.blockSize < endBlock S := lt_endBlock hend (by omega)
      obtain ⟨hinv, hline⟩ := getCacheLine_spec h hblock
      dsimp only
      split
      case h_1 s' heq =>
        rw [heq] at hinv
        exact ⟨hinv, fun hfalse => nomatch hfalse⟩
      case h_2 i s' heq =>
        rw [heq] at hinv hline
        obtain ⟨hi, hcontains⟩ := hline i rfl
        obtain ⟨hle, hlt⟩ := Line.contains_iff.1 hcontains
        have hholds := hinv.holds i hi (by omega)
        dsimp only at hle hlt hholds
        -- Where the offset is in the line, and what the line has from there on.
        have hoffset : (s'.lines i).blockIdx * S.blockSize +
            ((offset / S.blockSize - (s'.lines i).blockIdx) * S.blockSize + position) =
              offset := by
          rw [← Nat.add_assoc, ← Nat.add_mul, Nat.add_sub_cancel' hle, hposition]
          exact Nat.div_add_mod' offset S.blockSize
        have hinside : (offset / S.blockSize - (s'.lines i).blockIdx) * S.blockSize + position <
            (s'.lines i).numBlocks * S.blockSize := by
          have hmul := Nat.mul_le_mul_right S.blockSize (Nat.succ_le_of_lt hlt)
          have hmod := Nat.mod_lt offset S.blockSize_pos
          rw [Nat.succ_mul] at hmul
          omega
        generalize (offset / S.blockSize - (s'.lines i).blockIdx) * S.blockSize + position =
          readOffset at hoffset hinside ⊢
        rw [Nat.mul_comm S.blockSize]
        generalize hread : min ((s'.lines i).numBlocks * S.blockSize - readOffset) remain = wasRead
        have hslice := hholds.slice_data readOffset wasRead (by omega)
        rw [hoffset] at hslice
        rw [hslice]
        have hmod : (offset + wasRead) % 2 ^ 64 = offset + wasRead := Nat.mod_eq_of_lt (by omega)
        rw [hmod]
        -- What is left begins with the block behind the line.
        have hnext : remain - wasRead ≠ 0 → 0 = (offset + wasRead) % S.blockSize := by
          intro hne
          have hbehind : offset + wasRead =
              ((s'.lines i).blockIdx + (s'.lines i).numBlocks) * S.blockSize := by
            rw [Nat.add_mul]
            omega
          rw [hbehind, Nat.mul_mod_left]
        obtain ⟨hinv', hout⟩ := readLoop_spec hend fuel (out ++ diskBytes S offset wasRead)
          (by omega) (by omega) hnext hinv
        refine ⟨hinv', fun hok => ?_⟩
        rw [hout hok, List.append_assoc, ← diskBytes_add, Nat.add_sub_cancel' (by omega)]

theorem read_spec (hend : S.dataSize + S.blockSize - 1 < 2 ^ 64) {s : RunState σ}
    {offset size : Nat} (hwraps : DoesNotWrap S s (offset, size))
    (h : CacheInv S s.state.lines) :
    CacheInv S (read S s.state offset size).2.lines ∧
      ∀ bytes, (read S s.state offset size).1 = some bytes → bytes = diskBytes S offset size := by
  have hD := S.dataSize_lt
  unfold read
  split
  case isTrue => exact ⟨h, fun _ hnone => nomatch hnone⟩
  case isFalse hle =>
    have hrange : offset + size ≤ S.dataSize := by
      rcases hwraps with hlt | hgt
      · rw [Nat.mod_eq_of_lt hlt] at hle
        omega
      · exact absurd hgt hle
    obtain ⟨hinv, hout⟩ := readLoop_spec hend size [] (Nat.le_refl size) hrange (fun _ => rfl) h
    refine ⟨hinv, fun bytes hbytes => ?_⟩
    dsimp only at hbytes
    split at hbytes
    case isTrue hok => rw [← Option.some.inj hbytes, hout hok, List.nil_append]
    case isFalse => cases hbytes

/-- In every run in which no sum wraps around, the calls that return true deliver the bytes of
    the blocks, and no two lines have the same block. -/
theorem read_transparent (hend : S.dataSize + S.blockSize - 1 < 2 ^ 64) {s : RunState σ}
    (h : (readSystem S).ReachableBy (DoesNotWrap S) s) :
    (∀ x ∈ s.returned, ∀ bytes, x.2 = some bytes → bytes = diskBytes S x.1.1 x.1.2) ∧
      ∀ i < cacheLines, ∀ j < cacheLines, ∀ block, (s.state.lines i).contains block = true →
        (s.state.lines j).contains block = true → i = j := by
  have hinv : CacheInv S s.state.lines ∧
      ∀ x ∈ s.returned, ∀ bytes, x.2 = some bytes → bytes = diskBytes S x.1.1 x.1.2 := by
    refine h.invariant (P := fun s => CacheInv S s.state.lines ∧
      ∀ x ∈ s.returned, ∀ bytes, x.2 = some bytes → bytes = diskBytes S x.1.1 x.1.2) ?_ ?_
    · rintro s ⟨hlines, hreturned⟩
      refine ⟨⟨fun i _ => ?_, fun i _ hne => ?_, fun i _ j _ _ hne => ?_⟩, fun x hx => ?_⟩
      · rw [hlines, List.length_replicate]
      · exact absurd (by rw [hlines]) hne
      · exact absurd (by rw [hlines]) hne
      · rw [hreturned] at hx
        cases hx
    · intro s a s' ⟨hcache, hreturned⟩ hok hstep
      obtain rfl := Option.some.inj hstep
      obtain ⟨hcache', hbytes⟩ := read_spec hend hok hcache
      refine ⟨hcache', fun x hx bytes hx' => ?_⟩
      rcases List.mem_append.1 hx with hx | hx
      · exact hreturned x hx bytes hx'
      · obtain rfl := List.mem_singleton.1 hx
        exact hbytes bytes hx'
  exact ⟨hinv.2, fun i hi j hj block hci hcj => hinv.1.unique hi hj hci hcj⟩

end Runs

/-- Ten blocks of a byte each, in chunks of eight, which never fail. -/
def tenBlocks : Sectors Unit where
  blockSize := 1
  chunkBlocks := 8
  dataSize := 10
  block n := [UInt8.ofNat n]
  getBlock _ n out := (decide (out.length = 1), if out.length = 1 then [UInt8.ofNat n] else out, ())
  blockSize_pos := by decide
  chunkBlocks_pos := by decide
  product_lt := by decide
  dataSize_lt := by decide
  length_block _ := rfl
  length_getBlock _ n out := by split <;> simp_all
  getBlock_ok _ n out h := if_pos (of_decide_eq_true h)

def emptyReader : RunState Unit := ⟨⟨fun _ => ⟨List.replicate 8 0, 0, 0, 0⟩, ()⟩, []⟩

theorem emptyReader_init : (readSystem tenBlocks).init emptyReader := ⟨fun _ => rfl, rfl⟩

/-- A read over the end of the last chunk. -/
theorem tenBlocks_transparent : ∃ s : RunState Unit,
    s.returned = [((8, 1), some [8]), ((6, 4), some [6, 7, 8, 9])] ∧
      (∀ x ∈ s.returned, ∀ bytes, x.2 = some bytes → bytes = diskBytes tenBlocks x.1.1 x.1.2) ∧
      ∀ i < cacheLines, ∀ j < cacheLines, ∀ block, (s.state.lines i).contains block = true →
        (s.state.lines j).contains block = true → i = j := by
  have hreturned : ((readSystem tenBlocks).run emptyReader [(8, 1), (6, 4)]).map (·.returned) =
      some [((8, 1), some [8]), ((6, 4), some [6, 7, 8, 9])] := by decide +kernel
  obtain ⟨s, hrun, heq⟩ := Option.map_eq_some_iff.1 hreturned
  have hok : ∀ a ∈ [(8, 1), (6, 4)], ∀ s, DoesNotWrap tenBlocks s a := by
    simp [DoesNotWrap]
  exact ⟨s, heq, read_transparent (by decide)
    (System.ReachableBy.run (.init emptyReader_init) hok hrun)⟩

end SectorReader
end DolphinXR.DiscIO
