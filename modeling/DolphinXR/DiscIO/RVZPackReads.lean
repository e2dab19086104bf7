import DolphinXR.DiscIO.RVZPack

/- What RVZ packing reads. `GetSeed` skips to the next offset that is a multiple of four and
   subtracts the skipped bytes from the size it is given; where fewer bytes are left than it skips,
   the size wraps to nearly 2^64 and the words behind the input are read. `rvzPack_inBounds_iff` says
   when this happens: the search comes, behind a run of zero bytes, to a place from which the input
   does not reach its last multiple of four. -/
namespace DolphinXR.DiscIO.Rvz
open Common Lib Lib.CheckedRead Lfg

/-! ### The reads of GetSeed -/

section GetSeed
variable {input : List Byte}

theorem inBounds_readWord {i : Nat} (h : i + 4 ≤ input.length) : InBounds (readWord input i) := by
  refine (inBounds_read (by omega)).bind fun _ _ => ?_
  refine (inBounds_read (by omega)).bind fun _ _ => ?_
  refine (inBounds_read (by omega)).bind fun _ _ => ?_
  exact (inBounds_read (by omega)).bind fun _ _ => inBounds_pure _

theorem inBounds_allLookShifted {i n : Nat} (h : i + 4 * n ≤ input.length) :
    InBounds (allLookShifted input i n) := by
  induction n generalizing i with
  | zero => exact inBounds_ok _
  | succ n ih =>
    refine (inBounds_readWord (by omega)).bind fun x _ => ?_
    split
    · exact ih (by omega)
    · exact inBounds_pure _

theorem inBounds_readWords {i n : Nat} (h : i + 4 * n ≤ input.length) :
    InBounds (readWords input i n) := by
  induction n generalizing i with
  | zero => exact inBounds_ok _
  | succ n ih =>
    refine (inBounds_readWord (by omega)).bind fun x _ => ?_
    exact (ih (by omega)).bind fun _ _ => inBounds_pure _

theorem inBounds_getSeedWordsIn {start size dataOffset : Nat} {seedOut : Seed}
    (h : start + 4 * size ≤ input.length) :
    InBounds (getSeedWordsIn input start size dataOffset seedOut) := by
  rw [getSeedWordsIn]
  split
  case isTrue => exact inBounds_ok _
  case isFalse hsize =>
    refine (inBounds_allLookShifted (by omega)).bind fun all _ => ?_
    split
    · exact (inBounds_readWords (by omega)).bind fun _ _ => inBounds_pure _
    · exact inBounds_pure _

theorem not_inBounds_getSeedWordsIn {start size dataOffset : Nat} {seedOut : Seed}
    (hsize : lfgK ≤ size) (h : input.length ≤ start) :
    ¬InBounds (getSeedWordsIn input start size dataOffset seedOut) := by
  intro hbounds
  rw [getSeedWordsIn, if_neg (Nat.not_lt.2 hsize), inBounds_bind_iff] at hbounds
  have hall : allLookShifted input start lfgK = .error start := by
    show (readWord input start >>= _) = _
    rw [readWord, read_eq_error h]
    rfl
  exact hbounds.1 start hall

theorem inBounds_reconstructIn {left i : Nat} {g : Generator} (h : i + left ≤ input.length) :
    InBounds (reconstructIn input left i g) := by
  induction left generalizing i g with
  | zero => exact inBounds_ok _
  | succ left ih =>
    refine (inBounds_read (by omega)).bind fun b _ => ?_
    split
    · exact (ih (by omega)).bind fun _ _ => inBounds_pure _
    · exact inBounds_pure _

theorem bytesToSkip_eq {off : Nat} (h : off < 2 ^ 63) : bytesToSkip off = (4 - off % 4) % 4 := by
  rw [bytesToSkip, sub64, alignUp, alignDown]
  omega

theorem inBounds_getSeedIn_iff {address position size off : Nat} {seedOut : Seed}
    (hoff : off < 2 ^ 63) (hsize : position + size ≤ input.length)
    (hinput : input.length < 2 ^ 63) (hend : size < bytesToSkip off → position + size = input.length) :
    InBounds (getSeedIn input address position size off seedOut) ↔
      sub64 ((address + position) % 2 ^ 64) off % 4 ≠ 0 ∨ bytesToSkip off ≤ size := by
  by_cases halign : sub64 ((address + position) % 2 ^ 64) off % 4 ≠ 0
  · rw [getSeedIn, if_pos halign]
    exact iff_of_true (inBounds_ok _) (.inl halign)
  have hskip : bytesToSkip off < 4 := by
    rw [bytesToSkip_eq hoff]
    exact Nat.mod_lt _ (by decide)
  rw [getSeedIn, if_neg halign]
  by_cases hle : bytesToSkip off ≤ size
  · refine iff_of_true ?_ (.inr hle)
    have hsub : sub64 size (bytesToSkip off) = size - bytesToSkip off := by
      rw [sub64]
      omega
    refine (inBounds_getSeedWordsIn (by rw [hsub]; omega)).bind fun found _ => ?_
    obtain ⟨seedOut, _ | b⟩ := found
    · exact inBounds_pure _
    · exact (inBounds_reconstructIn hsize).bind fun _ _ => inBounds_pure _
  · refine iff_of_false (fun h => ?_) (not_or.2 ⟨halign, hle⟩)
    have hsub : sub64 size (bytesToSkip off) = 2 ^ 64 + size - bytesToSkip off := by
      rw [sub64]
      omega
    have hwords : lfgK ≤ sub64 size (bytesToSkip off) / 4 := by
      rw [hsub, lfgK]
      omega
    have := hend (Nat.lt_of_not_le hle)
    exact not_inBounds_getSeedWordsIn hwords (by omega) (inBounds_bind_iff.1 h).1

end GetSeed

/-! ### The search -/

variable {p : PackParameters} {s s' : SearchState}

def zeroRun (p : PackParameters) (position : Nat) : Nat :=
  ((p.input.drop position).takeWhile (· = 0)).length

theorem zeroRun_le (p : PackParameters) (position : Nat) :
    zeroRun p position ≤ p.totalSize - position := by
  have := (List.takeWhile_sublist (l := p.input.drop position) (· = 0)).length_le
  rwa [List.length_drop] at this

theorem countZeroes_eq {input : List Byte} {position left : Nat}
    (h : position + left = input.length) :
    countZeroes input position left =
      .ok ((input.drop position).takeWhile (· = 0)).length := by
  induction left generalizing position with
  | zero =>
    rw [countZeroes, List.drop_eq_nil_of_le (by omega)]
    rfl
  | succ left ih =>
    have hlt : position < input.length := by omega
    rw [countZeroes, read_eq_ok hlt, List.drop_eq_getElem_cons hlt]
    show (if input[position] = 0 then _ else _) = _
    by_cases hzero : input[position] = 0
    · rw [if_pos hzero, ih (by omega), List.takeWhile_cons_of_pos (by simpa using hzero)]
      rfl
    · rw [if_neg hzero, List.takeWhile_cons_of_neg (by simpa using hzero)]
      rfl

theorem blockRest_eq {offset : Nat} (h : offset < 2 ^ 64) :
    sub64 (alignUp ((offset + 1) % 2 ^ 64) blockTotalSize % 2 ^ 64) offset =
      blockTotalSize - offset % blockTotalSize := by
  rw [sub64, alignUp, alignDown, blockTotalSize]
  by_cases hlast : offset + 1 = 2 ^ 64
  · have : offset = 2 ^ 64 - 1 := by omega
    subst this
    rfl
  · have : (offset + 1) % 2 ^ 64 = offset + 1 := by omega
    rw [this]
    omega

inductive Reached (p : PackParameters) : SearchState → Prop where
  | start : Reached p (searchStart p)
  | step {s s' : SearchState} : Reached p s → s.position < p.totalSize →
    searchStep p s = .ok s' → Reached p s'

/-- The position and the offset are u64 values that move together. -/
structure Lockstep (p : PackParameters) (position dataOffset : Nat) : Prop where
  position_lt : position < 2 ^ 64
  dataOffset_lt : dataOffset < 2 ^ 64
  moves : dataOffset % 4 = (p.dataOffset + position) % 4

/-- Enough is left behind the zero bytes to reach the input's last multiple of four. -/
def CallFits (p : PackParameters) (position : Nat) : Prop :=
  position + zeroRun p position + (p.dataOffset + p.totalSize) % 4 ≤ p.totalSize

theorem fileEndOffset_lt {offset fileEnd : Nat} (h : fileEndOffset p offset = some fileEnd) :
    fileEnd < 2 ^ 64 := by
  rw [fileEndOffset] at h
  obtain ⟨find, -, hfind⟩ := Option.bind_eq_some_iff.1 h
  obtain ⟨file, -, hsum⟩ := Option.map_eq_some_iff.1 hfind
  rw [← hsum]
  exact Nat.mod_lt _ (Nat.two_pow_pos 64)

theorem nextPosition_cases (position dataOffset n : Nat) :
    nextPosition p position dataOffset n =
      (position + bytesToRead p position dataOffset,
        (dataOffset + bytesToRead p position dataOffset) % 2 ^ 64) ∨
    ∃ fileEnd < 2 ^ 64, nextPosition p position dataOffset n =
      ((position + sub64 fileEnd dataOffset) % 2 ^ 64, fileEnd) := by
  rw [nextPosition]
  cases hfile : fileEndOffset p (dataOffset + n) with
  | none => exact .inl rfl
  | some fileEnd =>
    by_cases hlt : fileEnd < (dataOffset + bytesToRead p position dataOffset) % 2 ^ 64
    · refine .inr ⟨fileEnd, fileEndOffset_lt hfile, ?_⟩
      simp only [hlt, if_true]
    · refine .inl ?_
      simp only [hlt, if_false]

theorem lockstep_nextPosition {position dataOffset n : Nat} (h : Lockstep p position dataOffset)
    (hposition : position ≤ p.totalSize) :
    Lockstep p (nextPosition p position dataOffset n).1 (nextPosition p position dataOffset n).2 := by
  have hsize : p.totalSize < 2 ^ 63 := p.input_lt
  have hread : bytesToRead p position dataOffset ≤ p.totalSize - position := Nat.min_le_right _ _
  obtain ⟨hp, hd, hmoves⟩ := h
  obtain hnext | ⟨fileEnd, hend, hnext⟩ := nextPosition_cases (p := p) position dataOffset n
  · rw [hnext]
    generalize bytesToRead p position dataOffset = read at hread
    exact ⟨by omega, by omega, by omega⟩
  · rw [hnext, sub64]
    exact ⟨by omega, hend, by omega⟩

/-- The call of `GetSeed` in a round. -/
def seedCall (p : PackParameters) (s : SearchState) : Except Nat (Nat × Seed) :=
  findSeed p (s.position + zeroRun p s.position) ((s.dataOffset + zeroRun p s.position) % 2 ^ 64)

theorem searchStep_eq (h : s.position < p.totalSize) :
    searchStep p s = seedCall p s >>= fun found =>
      pure (afterRound p s (zeroRun p s.position) found) := by
  have hzeroes : countZeroes p.input s.position (p.totalSize - s.position) =
      .ok (zeroRun p s.position) := countZeroes_eq (Nat.add_sub_cancel' (Nat.le_of_lt h))
  rw [searchStep, hzeroes, ok_bind]
  rfl

theorem Lockstep.add (h : Lockstep p s.position s.dataOffset) {zeroes : Nat}
    (hle : s.position + zeroes ≤ p.totalSize) :
    Lockstep p (s.position + zeroes) ((s.dataOffset + zeroes) % 2 ^ 64) := by
  have hsize : p.totalSize < 2 ^ 63 := p.input_lt
  obtain ⟨hp, hd, hmoves⟩ := h
  exact ⟨by omega, by omega, by omega⟩

theorem add_zeroRun_le (h : s.position < p.totalSize) :
    s.position + zeroRun p s.position ≤ p.totalSize := by
  have := zeroRun_le p s.position
  omega

theorem findSeed_inBounds_iff {position dataOffset : Nat} (h : Lockstep p position dataOffset)
    (hposition : position ≤ p.totalSize) :
    InBounds (findSeed p position dataOffset) ↔
      p.address % 4 ≠ p.dataOffset % 4 ∨
        position + (p.dataOffset + p.totalSize) % 4 ≤ p.totalSize := by
  have hinput : p.input.length < 2 ^ 63 := p.input_lt
  have haddress := p.address_lt
  have hoffset := p.dataOffset_lt
  have htotal : p.totalSize = p.input.length := rfl
  obtain ⟨hp, hd, hmoves⟩ := h
  have hmod : dataOffset % blockTotalSize < 2 ^ 63 := by
    rw [blockTotalSize]
    omega
  have hskip := bytesToSkip_eq hmod
  have hread : bytesToRead p position dataOffset =
      min (blockTotalSize - dataOffset % blockTotalSize) (p.totalSize - position) := by
    rw [bytesToRead, blockRest_eq hd]
  rw [findSeed, inBounds_getSeedIn_iff hmod (by omega) hinput]
  · have haligned : sub64 ((p.address + position) % 2 ^ 64) (dataOffset % blockTotalSize) % 4 ≠ 0 ↔
        p.address % 4 ≠ p.dataOffset % 4 := by
      rw [sub64, blockTotalSize]
      omega
    have hfits : bytesToSkip (dataOffset % blockTotalSize) ≤ bytesToRead p position dataOffset ↔
        position + (p.dataOffset + p.totalSize) % 4 ≤ p.totalSize := by
      rw [hskip, hread, blockTotalSize]
      omega
    rw [haligned, hfits]
  · rw [hskip, hread, blockTotalSize]
    omega

theorem searchStep_inBounds_iff (h : Lockstep p s.position s.dataOffset)
    (hposition : s.position < p.totalSize) :
    InBounds (searchStep p s) ↔ p.address % 4 ≠ p.dataOffset % 4 ∨ CallFits p s.position := by
  have hle := add_zeroRun_le hposition
  rw [searchStep_eq hposition, inBounds_bind_iff, seedCall, findSeed_inBounds_iff (h.add hle) hle]
  exact and_iff_left fun _ _ => inBounds_pure _

theorem lockstep_searchStep (h : Lockstep p s.position s.dataOffset)
    (hposition : s.position < p.totalSize) (hstep : searchStep p s = .ok s') :
    Lockstep p s'.position s'.dataOffset := by
  have hle := add_zeroRun_le hposition
  rw [searchStep_eq hposition] at hstep
  cases hcall : seedCall p s with
  | error i =>
    rw [hcall] at hstep
    cases hstep
  | ok found =>
    rw [hcall, ok_bind] at hstep
    cases hstep
    exact lockstep_nextPosition (h.add hle) hle

theorem Reached.lockstep (h : Reached p s) : Lockstep p s.position s.dataOffset := by
  induction h with
  | start =>
    exact ⟨Nat.two_pow_pos 64, p.dataOffset_lt, congrArg (· % 4) (Nat.add_zero _).symm⟩
  | step _ hposition hstep ih => exact lockstep_searchStep ih hposition hstep

def RoundsFit (p : PackParameters) : Prop :=
  ∀ s, Reached p s → s.position < p.totalSize → CallFits p s.position

theorem inBounds_search (h : ∀ s, Reached p s → s.position < p.totalSize → InBounds (searchStep p s))
    (rounds : Nat) (hs : Reached p s) : InBounds (search p rounds s) := by
  induction rounds generalizing s with
  | zero => exact inBounds_ok _
  | succ rounds ih =>
    rw [search]
    split
    case isTrue hposition =>
      exact (h s hs hposition).bind fun s' hstep => ih (hs.step hposition hstep)
    case isFalse => exact inBounds_ok _

theorem searchStep_inBounds_of_search (h : ∀ rounds, InBounds (search p rounds (searchStart p)))
    (hs : Reached p s) : ∀ rounds, InBounds (search p rounds s) := by
  induction hs with
  | start => exact h
  | step _ hposition hstep ih =>
    intro rounds
    have hrounds := ih (rounds + 1)
    rwa [search, if_pos hposition, hstep, ok_bind] at hrounds

theorem inBounds_search_iff :
    (∀ rounds, InBounds (search p rounds (searchStart p))) ↔
      p.address % 4 ≠ p.dataOffset % 4 ∨ RoundsFit p := by
  have hround : ∀ s, Reached p s → s.position < p.totalSize →
      (InBounds (searchStep p s) ↔
        p.address % 4 ≠ p.dataOffset % 4 ∨ CallFits p s.position) :=
    fun s hs hposition => searchStep_inBounds_iff hs.lockstep hposition
  constructor
  · intro h
    by_cases haligned : p.address % 4 ≠ p.dataOffset % 4
    · exact .inl haligned
    · refine .inr fun s hs hposition => ?_
      have hone := searchStep_inBounds_of_search h hs 1
      rw [search, if_pos hposition, inBounds_bind_iff] at hone
      exact ((hround s hs hposition).1 hone.1).resolve_left haligned
  · intro h rounds
    refine inBounds_search (fun s hs hposition => ?_) rounds .start
    exact (hround s hs hposition).2 (h.imp_right fun hfit => hfit s hs hposition)

/-! ### The chunks -/

theorem inBounds_pushData {entry : OutputParametersEntry} {current n : Nat}
    (h : current + n ≤ p.totalSize) : InBounds (pushData p entry current n) := by
  rw [pushData]
  split
  · exact (inBounds_readRange h).bind fun _ _ => inBounds_pure _
  · exact inBounds_pure _

theorem nextJunk_start_le (junkInfo : OrderedMap Nat JunkInfo) (store : Bool)
    {current endOffset : Nat} (h : current < endOffset) :
    (nextJunk junkInfo store current endOffset).1 ≤ endOffset := by
  rw [nextJunk]
  split
  · split
    · split
      case isTrue hstart =>
        show max _ _ ≤ endOffset
        omega
      case isFalse => exact Nat.le_refl _
    · exact Nat.le_refl _
  · exact Nat.le_refl _

theorem inBounds_packChunk {junkInfo : OrderedMap Nat JunkInfo} {store : Bool} {endOffset : Nat}
    (hend : endOffset ≤ p.totalSize) (rounds current : Nat) (first : Bool)
    (entry : OutputParametersEntry) :
    InBounds (packChunk p junkInfo store endOffset rounds current first entry) := by
  induction rounds generalizing current first entry with
  | zero => exact inBounds_ok _
  | succ rounds ih =>
    rw [packChunk]
    split
    case isTrue hlt =>
      have hstart := nextJunk_start_le junkInfo store hlt
      generalize nextJunk junkInfo store current endOffset = junk at hstart ⊢
      obtain ⟨junkStart, junkEnd, seed⟩ := junk
      dsimp only at hstart ⊢
      split
      · refine (inBounds_readRange ?_).bind fun _ _ => inBounds_pure _
        show current + (endOffset - current) ≤ p.totalSize
        omega
      · exact (inBounds_pushData (by omega)).bind fun entry _ => ih _ _ _
    case isFalse => exact inBounds_ok _

theorem inBounds_packEntry (c : ChunkParameters) (junkInfo : OrderedMap Nat JunkInfo)
    (rounds i : Nat) (entry : OutputParametersEntry) :
    InBounds (packEntry p c junkInfo rounds i entry) := by
  rw [packEntry]
  split
  · exact inBounds_ok _
  · exact inBounds_packChunk (Nat.min_le_right _ _) _ _ _ _

theorem inBounds_packEntries (c : ChunkParameters) (junkInfo : OrderedMap Nat JunkInfo)
    (rounds i : Nat) (out : List OutputParametersEntry) :
    InBounds (packEntries p c junkInfo rounds i out) := by
  induction out generalizing i with
  | nil => exact inBounds_ok _
  | cons entry rest ih =>
    rw [packEntries]
    split
    · refine (inBounds_packEntry c junkInfo rounds i entry).bind fun packed _ => ?_
      cases packed with
      | none => exact inBounds_pure _
      | some packed => exact (ih (i + 1)).bind fun _ _ => inBounds_pure _
    · exact inBounds_ok _

/-- RVZ packing never reads outside of its input exactly when the input is not where `GetSeed` looks
    at it at all, or every round of the search, behind its zero bytes, still has the bytes up to the
    input's last multiple of four before it. -/
theorem rvzPack_inBounds_iff (p : PackParameters) (c : ChunkParameters)
    (out : List OutputParametersEntry) :
    (∀ rounds, InBounds (rvzPack p c out rounds)) ↔
      p.address % 4 ≠ p.dataOffset % 4 ∨ RoundsFit p := by
  rw [← inBounds_search_iff]
  refine forall_congr' fun rounds => ?_
  rw [rvzPack, inBounds_bind_iff]
  refine and_iff_left fun found _ => ?_
  cases found with
  | none => exact inBounds_pure _
  | some s => exact inBounds_packEntries c _ _ _ _

/-- A zero byte at the start of a disc. -/
def zeroByte : PackParameters where
  input := [0]
  address := 0x1000
  dataOffset := 0
  compression := true
  findFileInfo := none
  address_lt := by decide
  dataOffset_lt := by decide
  input_lt := by decide

/-- Behind the zero byte nothing is left, and `GetSeed` skips three bytes: the first word that it
    looks at is at index 4 of an input of one byte. -/
theorem rvzPack_zeroByte :
    rvzPack zeroByte { bytesPerChunk := 1, chunks := 1, multipart := false, allowJunkReuse := true }
      [{ mainData := [], hasReuseId := true, reusedGroup := false, rvzPackedSize := 0 }] 1 =
      .error 4 := by
  rfl

end DolphinXR.DiscIO.Rvz
