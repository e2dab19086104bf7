import DolphinXR.Lib.Bytes
import DolphinXR.Lib.Transition

/- `CachedBlobReader` (DiscIO/CachedBlob.cpp): a thread copies the wrapped reader
   cluster by cluster into a memory region, all but the clusters that the scrubber
   calls unused, and publishes how far it has come; a read that lies below that
   point is served from the region.

   `GetCacheState` asks the scrubber at the start of the range and then every 32
   KiB behind it, so a range that starts late in its first cluster and ends early
   in its last one is never asked about in the last. `read_transparent_iff` says,
   at whatever point the filler is, which reads return what the wrapped reader
   returns, from bytes that have been read.

   What a reader makes of a range need not be what it makes of the clusters in it:
   the filler's copy and the wrapped reader each have a state of their own, which
   reads change, and the cache can be no more transparent than the two agree. Reads
   of nothing are left to the reader. The filler's steps and its store to
   `m_cache_filled_pos` interleave with reads; a failed read may leave anything in
   its part of the region. Left out: the periodic log, and how the scrubber finds
   its table. -/
namespace DolphinXR.DiscIO
open Lib

/-- `DiscScrubber`, as far as `CanBlockBeScrubbed` uses it. -/
structure DiscScrubber where
  freeTable : List Bool
  isScrubbing : Bool

def clusterSize : Nat := 0x8000

namespace DiscScrubber

def canBlockBeScrubbed (s : DiscScrubber) (offset : Nat) : Bool :=
  if !s.isScrubbing then false
  else decide (offset / clusterSize ≥ s.freeTable.length) ||
    (s.freeTable[offset / clusterSize]?).getD true

theorem canBlockBeScrubbed_congr (s : DiscScrubber) {a b : Nat}
    (h : a / clusterSize = b / clusterSize) :
    s.canBlockBeScrubbed a = s.canBlockBeScrubbed b := by
  simp only [canBlockBeScrubbed, h]

end DiscScrubber

/-- A reader with its state: `Read`, which returns as many bytes as it is asked for if it
    succeeds, and `GetDataSize`, a signed 64-bit file size. -/
structure BlobReader (S : Type) where
  read : S → Nat → Nat → Option Bytes × S
  read_length : ∀ s offset size bytes, (read s offset size).1 = some bytes → bytes.length = size
  dataSize : Nat
  dataSize_lt : dataSize < 2 ^ 63

/-- `size` bytes from `offset` on, if all of them are there. -/
def readBytes (byte : Nat → Option UInt8) (offset size : Nat) : Option Bytes :=
  (List.range' offset size).mapM byte

/-- The reader serves an image: in every state, and however the ranges are cut. -/
def BlobReader.IsImage {S : Type} (r : BlobReader S) (byte : Nat → Option UInt8) : Prop :=
  ∀ s offset size, 0 < size → (r.read s offset size).1 = readBytes byte offset size

/-! ### The cache -/

/-- The filler's copy of the reader, its region, its scrubber, the cluster it has come to, and
    the published `m_cache_filled_pos`; and as a history what has been read into the region, each
    time from where on. -/
structure CacheFiller (S : Type) where
  reader : S
  memory : Nat → UInt8
  copied : List (Nat × Bytes)
  mapped : Bool
  scrubber : DiscScrubber
  readOffset : Nat
  cacheFilledPos : Nat
  stopped : Bool

inductive CacheState where
  | cached | notCached | scrubbed
  deriving DecidableEq

/-- The loop of `GetCacheState`: some cluster asked about can be scrubbed. -/
def anyScrubbed (s : DiscScrubber) (endPos i : Nat) : Bool :=
  if i < endPos then s.canBlockBeScrubbed i || anyScrubbed s endPos (i + clusterSize) else false
termination_by endPos - i
decreasing_by simp only [clusterSize]; omega

section Cache
variable {S : Type}

namespace CacheFiller

def getCacheState (c : CacheFiller S) (offset size : Nat) : CacheState :=
  let endPos := (offset + size) % 2 ^ 64
  if endPos > c.cacheFilledPos then .notCached
  else if anyScrubbed c.scrubber endPos offset then .scrubbed
  else .cached

/-- `CacheFiller::Read`: `none` where it returns false. -/
def read (c : CacheFiller S) (offset size : Nat) : Option Bytes :=
  if size = 0 then some []
  else
    match c.getCacheState offset size with
    | .cached => some ((List.range' offset size).map c.memory)
    | .scrubbed => none
    | .notCached => none

end CacheFiller

/-- `CachedBlobReader::Read`, with the wrapped reader in a state. -/
def cachedRead (r : BlobReader S) (c : CacheFiller S) (s : S) (offset size : Nat) :
    Option Bytes × S :=
  match c.read offset size with
  | some bytes => (some bytes, s)
  | none => r.read s offset size

/-! ### The filler's thread -/

def getReadSize (r : BlobReader S) (pos : Nat) : Nat := min (r.dataSize - pos) clusterSize

/-- What the thread does next: set up region and scrubber or fail to; stop because it
    is told to; go through its loop once, up to the store; the store. `garbage` is
    what a failed read leaves behind. -/
inductive FillerAction where
  | create (region : Bool) (scrubber : DiscScrubber)
  | stop
  | iterate (garbage : Nat → UInt8)
  | publish

/-- The region with the bytes of `[offset, offset + size)` replaced. -/
def writeRegion (memory : Nat → UInt8) (offset size : Nat) (bytes : Nat → UInt8) : Nat → UInt8 :=
  fun b => if offset ≤ b ∧ b < offset + size then bytes b else memory b

/-- One turn of the loop of `ThreadFunc`. -/
def CacheFiller.iterate (r : BlobReader S) (garbage : Nat → UInt8) (c : CacheFiller S) :
    CacheFiller S :=
  let readSize := getReadSize r c.readOffset
  if readSize = 0 then { c with stopped := true }
  else if !c.scrubber.canBlockBeScrubbed c.readOffset then
    match r.read c.reader c.readOffset readSize with
    | (some bytes, s) =>
      { c with
        reader := s
        copied := (c.readOffset, bytes) :: c.copied
        memory := writeRegion c.memory c.readOffset readSize
          fun b => (bytes[b - c.readOffset]?).getD 0
        readOffset := c.readOffset + readSize }
    | (none, s) =>
      { c with
        reader := s
        memory := writeRegion c.memory c.readOffset readSize garbage
        stopped := true }
  else { c with readOffset := c.readOffset + readSize }

def fillerStep (r : BlobReader S) (c : CacheFiller S) : FillerAction → Option (CacheFiller S)
  | .create region scrubber =>
    if c.mapped || c.stopped then none
    else if region then some { c with mapped := true, scrubber := scrubber }
    else some { c with stopped := true }
  | .stop =>
    if c.mapped && !c.stopped && decide (c.readOffset = c.cacheFilledPos) then
      some { c with stopped := true }
    else none
  | .iterate garbage =>
    if c.mapped && !c.stopped && decide (c.readOffset = c.cacheFilledPos) then
      some (c.iterate r garbage)
    else none
  | .publish =>
    if c.readOffset ≠ c.cacheFilledPos then some { c with cacheFilledPos := c.readOffset }
    else none

/-- Before the thread has done anything. The region will be zero; what lies behind
    it is not known. -/
def fillerInit (r : BlobReader S) (c : CacheFiller S) : Prop :=
  (∀ b, b < r.dataSize → c.memory b = 0) ∧ c.copied = [] ∧ c.mapped = false ∧
    c.scrubber.isScrubbing = false ∧ c.readOffset = 0 ∧ c.cacheFilledPos = 0 ∧ c.stopped = false

def fillerSystem (r : BlobReader S) : System (CacheFiller S) FillerAction where
  init := fillerInit r
  step := fillerStep r

/-! ### Reads of an image -/

theorem mapM_eq_some_map_iff {α β : Type} {f : α → Option β} {g : α → β} : ∀ {l : List α},
    l.mapM f = some (l.map g) ↔ ∀ a ∈ l, f a = some (g a)
  | [] => by simp
  | a :: l => by
    rw [List.mapM_cons, List.map_cons, List.forall_mem_cons, ← mapM_eq_some_map_iff]
    cases hfa : f a with
    | none => simp
    | some b =>
      cases hl : l.mapM f with
      | none => simp
      | some bs => simp

theorem readBytes_eq_iff {byte : Nat → Option UInt8} {f : Nat → UInt8} {offset size : Nat} :
    readBytes byte offset size = some ((List.range' offset size).map f) ↔
      ∀ b, offset ≤ b → b < offset + size → byte b = some (f b) := by
  rw [readBytes, mapM_eq_some_map_iff]
  refine ⟨fun h b h1 h2 => h b (List.mem_range'_1.2 ⟨h1, h2⟩), fun h b hb => ?_⟩
  obtain ⟨h1, h2⟩ := List.mem_range'_1.1 hb
  exact h b h1 h2

theorem readBytes_getElem? {byte : Nat → Option UInt8} {offset size : Nat} {bytes : Bytes}
    (h : readBytes byte offset size = some bytes) {b : Nat} (h1 : offset ≤ b)
    (h2 : b < offset + size) : byte b = some ((bytes[b - offset]?).getD 0) := by
  induction size generalizing offset bytes with
  | zero => omega
  | succ n ih =>
    rw [readBytes, List.range'_succ, List.mapM_cons] at h
    obtain ⟨x, hx, h⟩ := Option.bind_eq_some_iff.1 h
    obtain ⟨rest, hrest, h⟩ := Option.bind_eq_some_iff.1 h
    cases h
    rcases Nat.eq_or_lt_of_le h1 with rfl | hlt
    · simpa using hx
    · have hrec := ih hrest hlt (by omega)
      rw [hrec, show b - offset = b - (offset + 1) + 1 by omega, List.getElem?_cons_succ]

theorem readBytes_length {byte : Nat → Option UInt8} {offset size : Nat} {bytes : Bytes}
    (h : readBytes byte offset size = some bytes) : bytes.length = size := by
  induction size generalizing offset bytes with
  | zero =>
    cases h
    rfl
  | succ n ih =>
    rw [readBytes, List.range'_succ, List.mapM_cons] at h
    obtain ⟨x, -, h⟩ := Option.bind_eq_some_iff.1 h
    obtain ⟨rest, hrest, h⟩ := Option.bind_eq_some_iff.1 h
    cases h
    rw [List.length_cons, ih hrest]

/-! ### What the filler keeps -/

def WasRead (c : CacheFiller S) (b : Nat) : Prop :=
  ∃ x ∈ c.copied, x.1 ≤ b ∧ b < x.1 + x.2.length

/-- What was read is what the region has there, and belongs to clusters that are not unused. -/
structure CopiedOk (r : BlobReader S) (c : CacheFiller S) (x : Nat × Bytes) : Prop where
  le : x.1 + x.2.length ≤ c.readOffset
  read : ∃ s, (r.read s x.1 x.2.length).1 = some x.2
  used : ∀ b, x.1 ≤ b → b < x.1 + x.2.length → c.scrubber.canBlockBeScrubbed b = false
  memory : ∀ b, x.1 ≤ b → b < x.1 + x.2.length → x.2[b - x.1]? = some (c.memory b)

/-- What holds at every point of the filler's thread: clusters that are not unused
    have been read into the region up to `readOffset`, and the others are zero. -/
structure FillerOk (r : BlobReader S) (c : CacheFiller S) : Prop where
  filled_le : c.cacheFilledPos ≤ c.readOffset
  read_le : c.readOffset ≤ r.dataSize
  cluster : c.readOffset % clusterSize = 0 ∨ c.readOffset = r.dataSize
  unmapped : c.mapped = false → c.readOffset = 0
  copied : ∀ x ∈ c.copied, CopiedOk r c x
  loaded : ∀ b, b < c.readOffset → c.scrubber.canBlockBeScrubbed b = false → WasRead c b
  unused : ∀ b, b < c.readOffset → c.scrubber.canBlockBeScrubbed b = true → c.memory b = 0
  clean : c.stopped = false → ∀ b, c.readOffset ≤ b → b < r.dataSize → c.memory b = 0

variable {r : BlobReader S} {c c' : CacheFiller S}

theorem fillerOk_init (h : fillerInit r c) : FillerOk r c := by
  obtain ⟨hzero, hcopied, -, -, hread, hfilled, -⟩ := h
  refine ⟨by omega, by omega, Or.inl (by rw [hread, Nat.zero_mod]), fun _ => hread, ?_, ?_, ?_,
    fun _ b _ hb => hzero b hb⟩
  · intro x hx
    rw [hcopied] at hx
    cases hx
  · intro b hb; omega
  · intro b hb; omega

theorem same_cluster (h : FillerOk r c) {b : Nat} (h1 : c.readOffset ≤ b)
    (h2 : b < c.readOffset + getReadSize r c.readOffset) :
    c.scrubber.canBlockBeScrubbed b = c.scrubber.canBlockBeScrubbed c.readOffset := by
  refine DiscScrubber.canBlockBeScrubbed_congr _ ?_
  have hcluster := h.cluster
  simp only [getReadSize, clusterSize] at h2 hcluster ⊢
  omega

theorem CopiedOk.keep {x : Nat × Bytes} (h : CopiedOk r c x) (hle : c.readOffset ≤ c'.readOffset)
    (hscrubber : c'.scrubber = c.scrubber)
    (hmemory : ∀ b, b < c.readOffset → c'.memory b = c.memory b) : CopiedOk r c' x where
  le := h.le.trans hle
  read := h.read
  used b h1 h2 := by
    rw [hscrubber]
    exact h.used b h1 h2
  memory b h1 h2 := by
    have hbound := h.le
    rw [hmemory b (by omega)]
    exact h.memory b h1 h2

theorem fillerOk_iterate (garbage : Nat → UInt8) (h : FillerOk r c) (hstopped : c.stopped = false)
    (hmapped : c.mapped = true) (hpos : c.readOffset = c.cacheFilledPos) :
    FillerOk r (c.iterate r garbage) := by
  have hle := h.filled_le
  have hread := h.read_le
  have hcluster := h.cluster
  have hsize : getReadSize r c.readOffset = min (r.dataSize - c.readOffset) clusterSize := rfl
  have hnext : c.readOffset + getReadSize r c.readOffset ≤ r.dataSize := by omega
  have haligned : (c.readOffset + getReadSize r c.readOffset) % clusterSize = 0 ∨
      c.readOffset + getReadSize r c.readOffset = r.dataSize := by
    simp only [clusterSize] at hcluster hsize ⊢; omega
  have hunmapped : c.mapped = false → c.readOffset + getReadSize r c.readOffset = 0 := by
    rw [hmapped]; intro hf; cases hf
  unfold CacheFiller.iterate
  simp only
  split
  · exact ⟨hle, hread, hcluster, h.unmapped, fun x hx => (h.copied x hx).keep (Nat.le_refl _) rfl
      fun _ _ => rfl, h.loaded, h.unused, fun hf => by cases hf⟩
  next hne =>
  split
  next hused =>
    have hused : c.scrubber.canBlockBeScrubbed c.readOffset = false := by simpa using hused
    split
    next bytes s hbytes =>
      -- The cluster was read, and what was read before lies in front of it.
      have hcopy : (r.read c.reader c.readOffset (getReadSize r c.readOffset)).1 = some bytes := by
        rw [hbytes]
      have hlength := r.read_length _ _ _ _ hcopy
      refine ⟨by simp only; omega, hnext, haligned, hunmapped, ?_, ?_, ?_, ?_⟩
      · intro x hx
        rcases List.mem_cons.1 hx with rfl | hx
        · refine ⟨by simp only [hlength]; omega, ⟨c.reader, by simpa only [hlength] using hcopy⟩,
            fun b h1 h2 => ?_, fun b h1 h2 => ?_⟩
          · simp only [hlength] at h1 h2
            exact (same_cluster h h1 h2).trans hused
          · simp only [hlength] at h1 h2
            simp only [writeRegion, h1, h2, and_self, if_true]
            rw [List.getElem?_eq_getElem (by omega), Option.getD_some]
        · refine (h.copied x hx).keep (Nat.le_add_right ..) rfl fun b hb => ?_
          simp only [writeRegion]
          rw [if_neg (by omega)]
      · intro b hb hscrub
        simp only at hb hscrub
        rcases Nat.lt_or_ge b c.readOffset with hlt | hge
        · obtain ⟨x, hx, h1, h2⟩ := h.loaded b hlt hscrub
          exact ⟨x, List.mem_cons_of_mem _ hx, h1, h2⟩
        · exact ⟨_, List.mem_cons_self, hge, by simp only [hlength]; exact hb⟩
      · intro b hb hscrub
        simp only [writeRegion] at hb ⊢
        split
        next hin =>
          simp only at hscrub
          rw [same_cluster h hin.1 hin.2, hused] at hscrub
          cases hscrub
        next hout => exact h.unused b (by omega) hscrub
      · intro _ b hb hlt
        simp only [writeRegion] at hb ⊢
        rw [if_neg (by omega)]
        exact h.clean hstopped b (by omega) hlt
    next =>
      -- The read failed: only bytes at or behind `readOffset` are lost.
      refine ⟨hle, hread, hcluster, h.unmapped, fun x hx => (h.copied x hx).keep (Nat.le_refl _) rfl
        fun b hb => ?_, h.loaded, fun b hb hscrub => ?_, fun hf => by cases hf⟩
      · simp only [writeRegion]
        rw [if_neg (by omega)]
      · simp only [writeRegion] at hb ⊢
        rw [if_neg (by omega)]
        exact h.unused b hb hscrub
  next hscrubbed =>
    have hscrubbed : c.scrubber.canBlockBeScrubbed c.readOffset = true := by simpa using hscrubbed
    refine ⟨by simp only; omega, hnext, haligned, hunmapped, fun x hx => (h.copied x hx).keep
      (Nat.le_add_right ..) rfl fun _ _ => rfl, ?_, ?_, ?_⟩
    · intro b hb hscrub
      rcases Nat.lt_or_ge b c.readOffset with hlt | hge
      · exact h.loaded b hlt hscrub
      · simp only at hscrub
        rw [same_cluster h hge hb, hscrubbed] at hscrub
        cases hscrub
    · intro b hb hscrub
      rcases Nat.lt_or_ge b c.readOffset with hlt | hge
      · exact h.unused b hlt hscrub
      · exact h.clean hstopped b hge (by simp only at hb; omega)
    · intro _ b hb hlt
      exact h.clean hstopped b (by simp only at hb; omega) hlt

theorem fillerOk_step {a : FillerAction} (h : FillerOk r c) (hstep : fillerStep r c a = some c') :
    FillerOk r c' := by
  have hkeep : ∀ x ∈ c.copied, ∀ c' : CacheFiller S, c'.readOffset = c.readOffset →
      c'.scrubber = c.scrubber → c'.memory = c.memory → CopiedOk r c' x := by
    intro x hx c' hoffset hscrubber hmemory
    exact (h.copied x hx).keep hoffset.ge hscrubber fun b _ => by rw [hmemory]
  cases a with
  | create region scrubber =>
    simp only [fillerStep] at hstep
    split at hstep
    · cases hstep
    next hfresh =>
    simp only [Bool.or_eq_true, not_or, Bool.not_eq_true] at hfresh
    have hzero := h.unmapped hfresh.1
    split at hstep
    · cases hstep
      refine ⟨h.filled_le, h.read_le, h.cluster, fun _ => hzero, fun x hx => ?_, ?_, ?_, h.clean⟩
      · -- Nothing has been read so far.
        have hbound := (h.copied x hx).le
        exact ⟨hbound, (h.copied x hx).read, fun b h1 h2 => by omega, fun b h1 h2 => by omega⟩
      · intro b hb; simp only at hb; omega
      · intro b hb; simp only at hb; omega
    · cases hstep
      exact ⟨h.filled_le, h.read_le, h.cluster, h.unmapped,
        fun x hx => hkeep x hx _ rfl rfl rfl, h.loaded, h.unused, fun hf => by cases hf⟩
  | stop =>
    simp only [fillerStep] at hstep
    split at hstep
    · cases hstep
      exact ⟨h.filled_le, h.read_le, h.cluster, h.unmapped,
        fun x hx => hkeep x hx _ rfl rfl rfl, h.loaded, h.unused, fun hf => by cases hf⟩
    · cases hstep
  | iterate garbage =>
    simp only [fillerStep] at hstep
    split at hstep
    next hready =>
      cases hstep
      simp only [Bool.and_eq_true, Bool.not_eq_true', decide_eq_true_eq] at hready
      exact fillerOk_iterate garbage h hready.1.2 hready.1.1 hready.2
    · cases hstep
  | publish =>
    simp only [fillerStep] at hstep
    split at hstep
    · cases hstep
      exact ⟨Nat.le_refl _, h.read_le, h.cluster, h.unmapped,
        fun x hx => hkeep x hx _ rfl rfl rfl, h.loaded, h.unused, h.clean⟩
    · cases hstep

theorem fillerOk_reachable (h : (fillerSystem r).Reachable c) : FillerOk r c :=
  h.invariant (fun _ => fillerOk_init) (fun _ _ _ _ => fillerOk_step)

/-! ### Which reads are transparent -/

theorem anyScrubbed_eq_false_iff (s : DiscScrubber) (endPos i : Nat) :
    anyScrubbed s endPos i = false ↔
      ∀ k, i + k * clusterSize < endPos → s.canBlockBeScrubbed (i + k * clusterSize) = false := by
  fun_induction anyScrubbed s endPos i with
  | case1 i hlt ih =>
    rw [Bool.or_eq_false_iff, ih]
    constructor
    · rintro ⟨h0, hrest⟩ k hk
      cases k with
      | zero => simpa using h0
      | succ k =>
        rw [show i + (k + 1) * clusterSize = i + clusterSize + k * clusterSize by ring] at hk ⊢
        exact hrest k hk
    · intro h
      refine ⟨by simpa using h 0 (by omega), fun k hk => ?_⟩
      rw [show i + clusterSize + k * clusterSize = i + (k + 1) * clusterSize by ring] at hk ⊢
      exact h (k + 1) hk
  | case2 i hge => exact ⟨fun _ k hk => by omega, fun _ => rfl⟩

/-- The read is answered from the region: its end is published, and no cluster asked
    about is unused. -/
def Served (c : CacheFiller S) (offset size : Nat) : Prop :=
  (offset + size) % 2 ^ 64 ≤ c.cacheFilledPos ∧
    ∀ k, offset + k * clusterSize < (offset + size) % 2 ^ 64 →
      c.scrubber.canBlockBeScrubbed (offset + k * clusterSize) = false

theorem getCacheState_cached_iff (c : CacheFiller S) (offset size : Nat) :
    c.getCacheState offset size = .cached ↔ Served c offset size := by
  unfold CacheFiller.getCacheState Served
  rw [← anyScrubbed_eq_false_iff]
  simp only
  split
  next hgt => exact ⟨fun h => (by cases h), fun h => absurd h.1 (by omega)⟩
  next hle =>
  cases anyScrubbed c.scrubber ((offset + size) % 2 ^ 64) offset with
  | true => simp
  | false => simpa using hle

section Range
variable {s : S} {offset size : Nat}

theorem read_served (hsize : 0 < size) (h : Served c offset size) :
    c.read offset size = some ((List.range' offset size).map c.memory) := by
  rw [CacheFiller.read, if_neg (by omega), (getCacheState_cached_iff c offset size).2 h]

theorem read_not_served (hsize : 0 < size) (h : ¬ Served c offset size) :
    c.read offset size = none := by
  rw [← getCacheState_cached_iff] at h
  rw [CacheFiller.read, if_neg (by omega)]
  cases hs : c.getCacheState offset size with
  | cached => exact absurd hs h
  | notCached => rfl
  | scrubbed => rfl

/-- The range ends below the published position, in a cluster that is not unused. -/
def EndsInside (c : CacheFiller S) (offset size : Nat) : Prop :=
  offset + size ≤ c.cacheFilledPos ∧
    c.scrubber.canBlockBeScrubbed (offset + size - 1) = false

/-- The wrapped reader has the range as its copy had what was read into the region. -/
def SameBytes (r : BlobReader S) (c : CacheFiller S) (s : S) (offset size : Nat) : Prop :=
  ∃ out, (r.read s offset size).1 = some out ∧ ∀ x ∈ c.copied, ∀ b, x.1 ≤ b →
    b < x.1 + x.2.length → offset ≤ b → b < offset + size → out[b - offset]? = x.2[b - x.1]?

/-- A read returns what the wrapped reader returns, and from the region only what was read into
    it. -/
structure Transparent (r : BlobReader S) (c : CacheFiller S) (s : S) (offset size : Nat) : Prop where
  same : (cachedRead r c s offset size).1 = (r.read s offset size).1
  wasRead : c.read offset size ≠ none → ∀ b, offset ≤ b → b < offset + size → WasRead c b

theorem wasRead_iff (hok : FillerOk r c) (hsize : 0 < size) (hserved : Served c offset size) :
    (∀ b, offset ≤ b → b < offset + size → WasRead c b) ↔ EndsInside c offset size := by
  have hle := hok.filled_le
  have hread := hok.read_le
  have hbound := r.dataSize_lt
  constructor
  · intro h
    obtain ⟨x, hx, h1, h2⟩ := h (offset + size - 1) (by omega) (by omega)
    have hcopied := hok.copied x hx
    have hend := hcopied.le
    have hfilled := hserved.1
    rw [Nat.mod_eq_of_lt (by omega)] at hfilled
    exact ⟨hfilled, hcopied.used _ h1 h2⟩
  · rintro ⟨hend, hlast⟩ b h1 h2
    refine hok.loaded b (by omega) ?_
    rcases Nat.lt_or_ge (b / clusterSize) ((offset + size - 1) / clusterSize) with hlt | hge
    · let k := b / clusterSize - offset / clusterSize
      have hmono : offset / clusterSize ≤ b / clusterSize := Nat.div_le_div_right h1
      have hsame : (offset + k * clusterSize) / clusterSize = b / clusterSize := by
        rw [Nat.add_mul_div_right _ _ (by decide)]
        omega
      have hin : offset + k * clusterSize < (offset + size) % 2 ^ 64 := by
        have hk : k = b / clusterSize - offset / clusterSize := rfl
        rw [Nat.mod_eq_of_lt (by omega)]
        simp only [clusterSize] at hk hlt hmono ⊢
        omega
      rw [← DiscScrubber.canBlockBeScrubbed_congr c.scrubber hsame]
      exact hserved.2 k hin
    · have hsame : b / clusterSize = (offset + size - 1) / clusterSize :=
        Nat.le_antisymm (Nat.div_le_div_right (by omega)) hge
      rw [DiscScrubber.canBlockBeScrubbed_congr c.scrubber hsame]
      exact hlast

theorem read_eq_iff (hok : FillerOk r c)
    (hall : ∀ b, offset ≤ b → b < offset + size → WasRead c b) :
    (r.read s offset size).1 = some ((List.range' offset size).map c.memory) ↔
      SameBytes r c s offset size := by
  constructor
  · intro h
    refine ⟨_, h, fun x hx b h1 h2 h3 h4 => ?_⟩
    rw [(hok.copied x hx).memory b h1 h2, List.getElem?_map, List.getElem?_range' (by omega)]
    simp only [Option.map_some, Nat.one_mul]
    rw [Nat.add_sub_cancel' h3]
  · rintro ⟨out, hout, hsame⟩
    have hlength := r.read_length _ _ _ _ hout
    rw [hout]
    refine congrArg some (List.ext_getElem? fun i => ?_)
    rcases Nat.lt_or_ge i size with hi | hi
    · obtain ⟨x, hx, h1, h2⟩ := hall (offset + i) (by omega) (by omega)
      have hbyte := hsame x hx (offset + i) h1 h2 (by omega) (by omega)
      rw [(hok.copied x hx).memory _ h1 h2, Nat.add_sub_cancel_left] at hbyte
      rw [hbyte, List.getElem?_map, List.getElem?_range' hi]
      simp only [Option.map_some, Nat.one_mul]
    · rw [List.getElem?_eq_none (by omega), List.getElem?_eq_none (by simpa using hi)]

theorem sameBytes_of_isImage {byte : Nat → Option UInt8} (himage : r.IsImage byte)
    (hok : FillerOk r c) (hsize : 0 < size)
    (hall : ∀ b, offset ≤ b → b < offset + size → WasRead c b) : SameBytes r c s offset size := by
  rw [← read_eq_iff hok hall, himage s offset size hsize, readBytes_eq_iff]
  intro b h1 h2
  obtain ⟨x, hx, h3, h4⟩ := hall b h1 h2
  obtain ⟨s', hread⟩ := (hok.copied x hx).read
  rw [himage s' _ _ (by omega)] at hread
  rw [readBytes_getElem? hread h3 h4, (hok.copied x hx).memory b h3 h4, Option.getD_some]

end Range

theorem transparent_iff (hreach : (fillerSystem r).Reachable c) (s : S) (offset size : Nat) :
    Transparent r c s offset size ↔ (size = 0 → (r.read s offset 0).1.isSome) ∧
      (0 < size → Served c offset size →
        EndsInside c offset size ∧ SameBytes r c s offset size) := by
  have hok := fillerOk_reachable hreach
  rcases Nat.eq_zero_or_pos size with rfl | hpos
  · have hempty : cachedRead r c s offset 0 = (some [], s) := rfl
    constructor
    · intro h
      refine ⟨fun _ => ?_, fun h0 => absurd h0 (Nat.lt_irrefl _)⟩
      rw [← h.same, hempty]
      rfl
    · rintro ⟨h, -⟩
      refine ⟨?_, fun _ b h1 h2 => by omega⟩
      obtain ⟨bytes, hbytes⟩ := Option.isSome_iff_exists.1 (h rfl)
      have hlength := r.read_length _ _ _ _ hbytes
      rw [hempty, hbytes, List.length_eq_zero_iff.1 hlength]
  by_cases hserved : Served c offset size
  · have hread := read_served hpos hserved
    have hcached : (cachedRead r c s offset size).1 =
        some ((List.range' offset size).map c.memory) := by rw [cachedRead, hread]
    constructor
    · intro h
      have hall := h.wasRead (by rw [hread]; exact Option.some_ne_none _)
      refine ⟨fun h0 => by omega, fun _ _ => ⟨(wasRead_iff hok hpos hserved).1 hall, ?_⟩⟩
      rw [← read_eq_iff hok hall, ← h.same, hcached]
    · rintro ⟨-, h⟩
      obtain ⟨hinside, hsame⟩ := h hpos hserved
      have hall := (wasRead_iff hok hpos hserved).2 hinside
      exact ⟨hcached.trans ((read_eq_iff hok hall).2 hsame).symm, fun _ => hall⟩
  · have hread := read_not_served hpos hserved
    refine iff_of_true ⟨by rw [cachedRead, hread], fun hne => absurd hread hne⟩
      ⟨fun h0 => by omega, fun _ hs => absurd hs hserved⟩

theorem image_transparent_iff {byte : Nat → Option UInt8} (himage : r.IsImage byte)
    (hreach : (fillerSystem r).Reachable c) (s : S) (offset size : Nat) :
    Transparent r c s offset size ↔ (size = 0 → (r.read s offset 0).1.isSome) ∧
      (0 < size → Served c offset size → EndsInside c offset size) := by
  have hok := fillerOk_reachable hreach
  rw [transparent_iff hreach s offset size]
  refine and_congr_right fun _ => forall₂_congr fun hpos hserved => ?_
  exact and_iff_left_of_imp fun hinside =>
    sameBytes_of_isImage himage hok hpos ((wasRead_iff hok hpos hserved).2 hinside)

/-- At every point of the filler's thread and for every range, the cached reader is transparent
    exactly if what it serves from the region ends in a cluster that was read, and the wrapped
    reader has what its copy had. For a reader of an image the cluster alone matters. -/
theorem read_transparent_iff (r : BlobReader S) (c : CacheFiller S)
    (hreach : (fillerSystem r).Reachable c) (s : S) (offset size : Nat) :
    (Transparent r c s offset size ↔ (size = 0 → (r.read s offset 0).1.isSome) ∧
      (0 < size → Served c offset size →
        EndsInside c offset size ∧ SameBytes r c s offset size)) ∧
    ∀ byte, r.IsImage byte →
      (Transparent r c s offset size ↔ (size = 0 → (r.read s offset 0).1.isSome) ∧
        (0 < size → Served c offset size → EndsInside c offset size)) :=
  ⟨transparent_iff hreach s offset size,
    fun _ himage => image_transparent_iff himage hreach s offset size⟩

theorem stale_zero (hreach : (fillerSystem r).Reachable c) {b : Nat} (hb : b < c.cacheFilledPos)
    (hstale : c.scrubber.canBlockBeScrubbed b = true) : c.memory b = 0 := by
  have hok := fillerOk_reachable hreach
  have hle := hok.filled_le
  exact hok.unused b (by omega) hstale

/-- If the start of the range lies no later in its cluster than the last byte does in
    its own, every cluster of the range is asked about. -/
theorem endsInside_of_inspected {offset size : Nat} (hpos : 0 < size) (hsum : offset + size < 2 ^ 64)
    (hphase : offset % clusterSize ≤ (offset + size - 1) % clusterSize)
    (hserved : Served c offset size) : EndsInside c offset size := by
  obtain ⟨hfilled, hasked⟩ := hserved
  rw [Nat.mod_eq_of_lt hsum] at hfilled hasked
  let k := (offset + size - 1) / clusterSize - offset / clusterSize
  have hsame : (offset + k * clusterSize) / clusterSize = (offset + size - 1) / clusterSize := by
    have : offset / clusterSize ≤ (offset + size - 1) / clusterSize :=
      Nat.div_le_div_right (by omega)
    rw [Nat.add_mul_div_right _ _ (by decide)]
    omega
  have hin : offset + k * clusterSize < offset + size := by
    have hk : k = (offset + size - 1) / clusterSize - offset / clusterSize := rfl
    simp only [clusterSize] at hk hphase ⊢
    omega
  refine ⟨hfilled, ?_⟩
  rw [← DiscScrubber.canBlockBeScrubbed_congr c.scrubber hsame]
  exact hasked k hin

end Cache

/-! ### A read that is not transparent -/

/-- A reader of an image. -/
def imageReader (byte : Nat → Option UInt8) (dataSize : Nat) (h : dataSize < 2 ^ 63) :
    BlobReader Unit where
  read _ offset size := (if size = 0 then some [] else readBytes byte offset size, ())
  read_length _ offset size bytes hread := by
    dsimp only at hread
    split at hread
    case isTrue hzero =>
      cases hread
      exact hzero.symm
    case isFalse => exact readBytes_length hread
  dataSize := dataSize
  dataSize_lt := h

theorem imageReader_isImage (byte : Nat → Option UInt8) {dataSize : Nat} (h : dataSize < 2 ^ 63) :
    (imageReader byte dataSize h).IsImage byte :=
  fun _ _ size hsize => if_neg (show size ≠ 0 by omega)

def pages (b : Nat) : Option UInt8 := if b < 0x10000 then some (UInt8.ofNat (b / 0x100)) else none

def pagesReader : BlobReader Unit := imageReader pages 0x10000 (by decide)

def firstUsed : DiscScrubber := ⟨[false, true], true⟩

theorem pagesReader_read : pagesReader.read () 0 0x8000 =
    (some ((List.range' 0 0x8000).map fun b => UInt8.ofNat (b / 0x100)), ()) := by
  refine Prod.ext ((imageReader_isImage pages (by decide) () 0 0x8000 (by decide)).trans ?_) rfl
  rw [readBytes_eq_iff]
  intro b _ hb
  exact if_pos (by omega)

/-- The filler of `pagesReader` at work. -/
def pagesFiller (memory : Nat → UInt8) (copied : List (Nat × Bytes))
    (readOffset cacheFilledPos : Nat) : CacheFiller Unit :=
  ⟨(), memory, copied, true, firstUsed, readOffset, cacheFilledPos, false⟩

section Pages
variable {memory memory' : Nat → UInt8} {copied copied' : List (Nat × Bytes)}
  {readOffset readOffset' cacheFilledPos : Nat}

theorem pagesFiller_publish (h : (fillerSystem pagesReader).Reachable
      (pagesFiller memory copied readOffset cacheFilledPos)) (hne : readOffset ≠ cacheFilledPos) :
    (fillerSystem pagesReader).Reachable (pagesFiller memory copied readOffset readOffset) :=
  System.Reachable.step (a := FillerAction.publish) h (if_pos hne)

theorem pagesFiller_iterate (h : (fillerSystem pagesReader).Reachable
      (pagesFiller memory copied readOffset readOffset))
    (hturn : (pagesFiller memory copied readOffset readOffset).iterate pagesReader (fun _ => 0) =
      pagesFiller memory' copied' readOffset' readOffset) :
    (fillerSystem pagesReader).Reachable (pagesFiller memory' copied' readOffset' readOffset) := by
  refine System.Reachable.step (a := FillerAction.iterate fun _ => 0) h ?_
  rw [← hturn]
  exact if_pos (by simp [pagesFiller])

end Pages

theorem pagesReader_filled : ∃ memory copied,
    (fillerSystem pagesReader).Reachable (pagesFiller memory copied 0x10000 0x10000) := by
  have hstart : (fillerSystem pagesReader).Reachable (pagesFiller (fun _ => 0) [] 0 0) := by
    refine System.Reachable.step (a := FillerAction.create true firstUsed)
      (s := ⟨(), fun _ => 0, [], false, ⟨[], false⟩, 0, 0, false⟩) (System.Reachable.init ?_) rfl
    exact ⟨fun _ _ => rfl, rfl, rfl, rfl, rfl, rfl, rfl⟩
  have hfirst : ∃ memory copied,
      (pagesFiller (fun _ => 0) [] 0 0).iterate pagesReader (fun _ => 0) =
        pagesFiller memory copied 0x8000 0 := by
    have hsize : getReadSize pagesReader 0 = 0x8000 := by decide
    have hused : firstUsed.canBlockBeScrubbed 0 = false := by decide
    simp only [CacheFiller.iterate, pagesFiller, hsize, hused, pagesReader_read, Bool.not_false,
      if_true]
    rw [if_neg (by decide)]
    exact ⟨_, _, rfl⟩
  obtain ⟨memory, copied, hfirst⟩ := hfirst
  have hsecond : (pagesFiller memory copied 0x8000 0x8000).iterate pagesReader (fun _ => 0) =
      pagesFiller memory copied 0x10000 0x8000 := by
    have hsize : getReadSize pagesReader 0x8000 = 0x8000 := by decide
    have hunused : firstUsed.canBlockBeScrubbed 0x8000 = true := by decide
    simp only [CacheFiller.iterate, pagesFiller, hsize, hunused, Bool.not_true]
    rw [if_neg (by decide), if_neg (by decide)]
  have hhalf := pagesFiller_publish (pagesFiller_iterate hstart hfirst) (by decide)
  exact ⟨memory, copied, pagesFiller_publish (pagesFiller_iterate hhalf hsecond) (by decide)⟩

theorem pagesFiller_served (memory : Nat → UInt8) (copied : List (Nat × Bytes)) {offset : Nat}
    (hoffset : offset < 0x8000) : Served (pagesFiller memory copied 0x10000 0x10000) offset 2 := by
  have hsum : (offset + 2) % 2 ^ 64 = offset + 2 := Nat.mod_eq_of_lt (by omega)
  refine ⟨?_, fun k hk => ?_⟩
  · rw [hsum]
    change offset + 2 ≤ 0x10000
    omega
  · obtain rfl : k = 0 := by
      rw [hsum] at hk
      simp only [clusterSize] at hk
      omega
    have hfirst : firstUsed.canBlockBeScrubbed 0 = false := by decide
    rw [Nat.zero_mul, Nat.add_zero]
    refine (DiscScrubber.canBlockBeScrubbed_congr firstUsed (b := 0) ?_).trans hfirst
    rw [Nat.zero_div]
    exact Nat.div_eq_of_lt hoffset

/-- Of two bytes around the border of the clusters only the first is asked about, and
    the second is served as a zero. -/
theorem pagesReader_stale_read : ∃ c, (fillerSystem pagesReader).Reachable c ∧
    ¬ Transparent pagesReader c () 0x7fff 2 := by
  obtain ⟨memory, copied, hreach⟩ := pagesReader_filled
  refine ⟨_, hreach, fun h => ?_⟩
  have hzero : memory 0x8000 = 0 := stale_zero hreach (b := 0x8000)
    (show 0x8000 < 0x10000 by decide) (show firstUsed.canBlockBeScrubbed 0x8000 = true by decide)
  have hpage : (pagesReader.read () 0x7fff 2).1 = some [0x7f, 0x80] := by decide
  have hsame := h.same
  rw [cachedRead, read_served (by decide) (pagesFiller_served memory copied (by decide)),
    hpage] at hsame
  have hbytes : [memory 0x7fff, memory 0x8000] = [0x7f, 0x80] := Option.some.inj hsame
  rw [hzero] at hbytes
  revert hbytes
  simp

/-- Two bytes of the first cluster come back, each from its page. -/
theorem pagesReader_read_transparent : ∃ c, (fillerSystem pagesReader).Reachable c ∧
    c.read 0x7eff 2 = some [0x7e, 0x7f] ∧ Transparent pagesReader c () 0x7eff 2 := by
  obtain ⟨memory, copied, hreach⟩ := pagesReader_filled
  have hserved : Served (pagesFiller memory copied 0x10000 0x10000) 0x7eff 2 :=
    pagesFiller_served memory copied (by decide)
  have hinside : EndsInside (pagesFiller memory copied 0x10000 0x10000) 0x7eff 2 :=
    endsInside_of_inspected (by decide) (by decide) (by decide) hserved
  have htransparent := ((read_transparent_iff pagesReader _ hreach () 0x7eff 2).2 pages
    (imageReader_isImage pages (by decide))).2
      ⟨fun h0 => absurd h0 (by decide), fun _ _ => hinside⟩
  have hpage : (pagesReader.read () 0x7eff 2).1 = some [0x7e, 0x7f] := by decide
  refine ⟨_, hreach, ?_, htransparent⟩
  have hbytes := htransparent.same
  rw [hpage, cachedRead, read_served (by decide) hserved] at hbytes
  rw [read_served (by decide) hserved]
  exact hbytes

end DolphinXR.DiscIO
