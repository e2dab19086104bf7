import DolphinXR.DiscIO.LaggedFibonacciRecovery

/- Offsets of data. `GetSeed` takes the block of the generator from the offset of the first whole
   word, and the position in the block from the offset of the first byte. In the last three bytes of
   a block these are of different blocks, and the bytes are compared with those of the block after
   their own. -/
namespace DolphinXR.DiscIO.Lfg
open Lib Common Generator

variable {s : Nat → Word} {seed seedOut : Seed} {data : Data} {address size off : Nat}

def Misplaced (off : Nat) : Prop := 2 ^ 64 - 4 < off ∨ lfgBytes - 4 < off % lfgBytes

instance (off : Nat) : Decidable (Misplaced off) := inferInstanceAs (Decidable (_ ∨ _))

theorem alignUp_four (off : Nat) : alignUp off 4 = 4 * ((off + 3) / 4) := alignDown_eq _ _

theorem off_add_skip (h : off ≤ 2 ^ 64 - 4) :
    off + bytesToSkip off = 4 * ((off + 3) / 4) ∧ wordOffset off = (off + 3) / 4 := by
  have hskip : off + bytesToSkip off = 4 * ((off + 3) / 4) := by
    rw [bytesToSkip, sub64, alignUp_four]
    omega
  refine ⟨hskip, ?_⟩
  rw [wordOffset, hskip]
  omega

theorem off_add_skip_of_wrap (h : 2 ^ 64 - 4 < off) (hoff : off < 2 ^ 64) :
    off + bytesToSkip off = 4 * 2 ^ 62 ∧ wordOffset off = 0 := by
  have hskip : off + bytesToSkip off = 4 * 2 ^ 62 := by
    rw [bytesToSkip, sub64, alignUp_four]
    omega
  refine ⟨hskip, ?_⟩
  rw [wordOffset, hskip]
  decide

theorem startPosition_eq (h : ¬ Misplaced off) : startPosition off = off := by
  simp only [Misplaced, lfgBytes, lfgK, not_or, Nat.not_lt] at h
  rw [startPosition, (off_add_skip h.1).2]
  simp only [lfgBytes, lfgK]
  omega

theorem startPosition_of_misplaced (h : Misplaced off) (hle : off ≤ 2 ^ 64 - 4) :
    startPosition off = off + lfgBytes := by
  simp only [Misplaced, lfgBytes, lfgK] at h
  rw [startPosition, (off_add_skip hle).2]
  simp only [lfgBytes, lfgK]
  omega

/-! ### Soundness -/

def Reconstructs (address : Nat) (data : Data) (size off : Nat) (seedOut : Seed) : Prop :=
  let r := getSeed address data size off seedOut
  r.1 ≤ size ∧ (getBytes r.1 (forwardBytes off (setSeed r.2))).1 = (List.range r.1).map data

theorem map_range_eq_iff {f g : Nat → Byte} {n : Nat} :
    (List.range n).map f = (List.range n).map g ↔ ∀ i, i < n → f i = g i := by
  rw [List.map_inj_left]
  exact forall_congr' fun i => imp_congr_left List.mem_range

/-- The bytes agree with the output of the wrong block no longer than with that of the right one. -/
def Distinguishes (data : Data) (size off : Nat) (seed : Seed) : Prop :=
  ∀ i, i < size → (∀ j, j ≤ i → data j = output seed (startPosition off + j)) →
    data i = output seed (off + i)

theorem Reconstructs.distinguishes (h : Reconstructs address data size off seedOut)
    (hsuitable : Suitable address size off)
    (hwords : Matches (wholeWords data off) (wordOffset off) (swapped seed)) :
    Distinguishes data size off seed := by
  obtain ⟨-, hbytes⟩ := h
  rw [getBytes_forward, map_range_eq_iff] at hbytes
  obtain ⟨hrecovered, hsame⟩ := getSeed_complete seedOut hsuitable hwords
  intro i hi hagrees
  have hlt : i < (getSeed address data size off seedOut).1 := by
    by_contra hge
    refine hrecovered.next (by omega) ?_
    rw [output_congr hsame]
    exact hagrees _ (by omega)
  rw [← output_congr hsame]
  exact (hbytes i hlt).symm

theorem getSeed_reconstructs_iff (address : Nat) (data : Data) (size off : Nat) (seedOut : Seed) :
    Reconstructs address data size off seedOut ↔
      (Misplaced off → Suitable address size off → ∀ seed,
        Matches (wholeWords data off) (wordOffset off) (swapped seed) →
        Distinguishes data size off seed) := by
  constructor
  · exact fun h _ hsuitable seed hwords => h.distinguishes hsuitable hwords
  · intro hcondition
    rw [Reconstructs, getBytes_forward, map_range_eq_iff]
    rcases getSeed_sound address data size off seedOut with hzero | hrecovered
    · rw [hzero]
      exact ⟨Nat.zero_le _, fun i hi => absurd hi (Nat.not_lt_zero i)⟩
    · refine ⟨hrecovered.le, fun i hi => ?_⟩
      have hlt := Nat.lt_of_lt_of_le hi hrecovered.le
      by_cases hmisplaced : Misplaced off
      · refine (hcondition hmisplaced hrecovered.suitable _ hrecovered.words i hlt fun j hj => ?_).symm
        exact hrecovered.agrees j (by omega)
      · have hagrees := hrecovered.agrees i hi
        rw [startPosition_eq hmisplaced] at hagrees
        exact hagrees.symm

/-! ### Words in lists -/

def listed (w : Nat → Word) (n t : Nat) : List Word := (List.range n).map fun i => w (t + i)

/-- The next words before the shift, from the last seventeen. -/
def rawList : Nat → List Word → List Word
  | 0, _ => []
  | n + 1, last => last.headD 0 ::
    rawList n (last.tail ++
      [(last.headD 0 <<< 23) ^^^ (last.getD 1 0 >>> 9) ^^^ last.getD 16 0])

/-- The words a block after the others, from those that are added first on. -/
def turned : Nat → List Word → List Word → List Word
  | 0, _, _ => []
  | n + 1, added, block =>
    let first := List.zipWith HXor.hXor block added
    first ++ turned n first (block.drop lfgJ)

def nextBlock (block : List Word) : List Word := turned lfgJ (block.drop lag) block

theorem listed_append (w : Nat → Word) (m n t : Nat) :
    listed w (m + n) t = listed w m t ++ listed w n (t + m) := by
  unfold listed
  rw [List.range_add, List.map_append, List.map_map]
  congr 1
  refine List.map_congr_left fun i _ => ?_
  show w (t + (m + i)) = w (t + m + i)
  rw [Nat.add_assoc]

theorem length_listed (w : Nat → Word) (n t : Nat) : (listed w n t).length = n := by
  rw [listed, List.length_map, List.length_range]

theorem rawList_listed (s : Nat → Word) (n t : Nat) :
    rawList n (listed (raw s) 17 t) = listed (raw s) n t := by
  induction n generalizing t with
  | zero => rfl
  | succ n ih =>
    have hnext : (listed (raw s) 17 t).tail ++ [raw s (t + 17)] = listed (raw s) 17 (t + 1) := by
      calc (listed (raw s) 17 t).tail ++ [raw s (t + 17)]
          = (listed (raw s) 1 t ++ listed (raw s) 17 (t + 1)).tail :=
            congrArg List.tail (listed_append (raw s) 17 1 t).symm
        _ = listed (raw s) 17 (t + 1) := rfl
    rw [rawList, Nat.add_comm n 1, listed_append, ← ih, ← hnext, raw_add]
    rfl

theorem zipWith_listed {w : Nat → Word} (hw : IsLagged w) {m n t : Nat} (h : m ≤ n) :
    List.zipWith HXor.hXor (listed w m t) (listed w n (t + lag)) = listed w m (t + lfgK) := by
  obtain ⟨rest, rfl⟩ := Nat.exists_eq_add_of_le h
  have hshort : List.zipWith HXor.hXor (listed w m t) (listed w m (t + lag)) =
      listed w m (t + lfgK) := by
    unfold listed
    rw [List.zipWith_map, List.zipWith_self]
    refine List.map_congr_left fun i _ => ?_
    rw [Nat.add_right_comm, ← hw (t + i), Nat.add_right_comm]
  rw [listed_append w m rest, ← List.append_nil (listed w m t),
    List.zipWith_append (by rw [length_listed, length_listed]), hshort, List.zipWith_nil_left,
    List.append_nil]

theorem turned_nil (n : Nat) (added : List Word) : turned n added [] = [] := by
  induction n generalizing added with
  | zero => rfl
  | succ n ih => exact ih []

theorem turned_listed {w : Nat → Word} (hw : IsLagged w) (n : Nat) {r t : Nat} (hr : r ≤ lfgJ * n) :
    turned n (listed w lfgJ (t + lag)) (listed w r t) = listed w r (t + lfgK) := by
  induction n generalizing r t with
  | zero =>
    obtain rfl := Nat.le_zero.1 hr
    rfl
  | succ n ih =>
    unfold turned
    dsimp only
    rcases Nat.le_total r lfgJ with hshort | hlong
    · have hnil : (listed w r t).drop lfgJ = [] :=
        List.drop_eq_nil_of_le (by rw [length_listed]; exact hshort)
      rw [zipWith_listed hw hshort, hnil, turned_nil, List.append_nil]
    · obtain ⟨m, rfl⟩ := Nat.exists_eq_add_of_le hlong
      have hfirst : List.zipWith HXor.hXor (listed w (lfgJ + m) t) (listed w lfgJ (t + lag)) =
          listed w lfgJ (t + lfgJ + lag) := by
        rw [listed_append, ← List.append_nil (listed w lfgJ (t + lag)),
          List.zipWith_append (by rw [length_listed, length_listed]), zipWith_listed hw le_rfl,
          List.zipWith_nil_right, List.append_nil, Nat.add_assoc]
        rfl
      have hblock : (listed w (lfgJ + m) t).drop lfgJ = listed w m (t + lfgJ) := by
        rw [listed_append]
        exact List.drop_left' (length_listed w lfgJ t)
      rw [hfirst, hblock, ih (by rw [Nat.mul_succ, Nat.add_comm] at hr; omega), listed_append,
        Nat.add_right_comm t lfgJ lfgK, Nat.add_assoc t lfgJ lag]
      rfl

theorem nextBlock_iterate {w : Nat → Word} (hw : IsLagged w) (m : Nat) :
    nextBlock^[m] (listed w lfgK 0) = listed w lfgK (lfgK * m) := by
  induction m with
  | zero => rfl
  | succ m ih =>
    have hadded : (listed w lfgK (lfgK * m)).drop lag = listed w lfgJ (lfgK * m + lag) := by
      have hsplit : listed w lfgK (lfgK * m) = _ := listed_append w lag lfgJ (lfgK * m)
      rw [hsplit]
      exact List.drop_left' (length_listed w lag _)
    rw [Function.iterate_succ_apply', ih, nextBlock, hadded, turned_listed hw lfgJ (by decide),
      Nat.mul_succ]

theorem seedWords_eq (s : Nat → Word) (m : Nat) {i : Nat} (hi : i < lfgK) :
    seedWords s (lfgK * m + i) =
      (nextBlock^[m] ((rawList lfgK (listed s 17 0)).map fun x => swap32 (shift x))).getD i 0 := by
  have hraw : listed s 17 0 = listed (raw s) 17 0 := by
    refine List.map_congr_left fun j hj => ?_
    rw [raw_of_lt (by simpa using hj)]
  have hblock : (listed (raw s) lfgK 0).map (fun x => swap32 (shift x)) =
      listed (seedWords s) lfgK 0 := by
    unfold listed
    rw [List.map_map]
    refine List.map_congr_left fun j hj => ?_
    rw [Function.comp_apply, Nat.zero_add, seedWords, words_of_lt (List.mem_range.1 hj)]
    rfl
  have hlagged : IsLagged (seedWords s) := isLagged_words (rawBlock s)
  rw [hraw, rawList_listed, hblock, nextBlock_iterate hlagged, listed,
    List.getD_eq_getElem?_getD, List.getElem?_map, List.getElem?_range hi]
  rfl

/-! ### Data of another block -/

def lastWordSeed : Seed := fun i => if i = 16 then 1 else 0

/-- Output from a block's last three bytes on, these three taken from the end of the next block. -/
def misplacedData : Data := fun i =>
  if i < 3 then output lastWordSeed (2081 + lfgBytes + i) else output lastWordSeed (2081 + i)

theorem lastWordSeed_words_ne :
    let block := (rawList lfgK (listed (swapped lastWordSeed) 17 0)).map fun x => swap32 (shift x)
    byteOf ((nextBlock^[5] block).getD 520 0) 1 ≠ byteOf ((nextBlock^[4] block).getD 520 0) 1 := by
  decide +kernel

theorem output_lastWordSeed_ne :
    output lastWordSeed (2081 + lfgBytes) ≠ output lastWordSeed 2081 := by
  intro heq
  apply lastWordSeed_words_ne
  rw [output_eq, output_eq] at heq
  show byteOf _ 1 = byteOf _ 1
  rw [← seedWords_eq _ 5 (by decide), ← seedWords_eq _ 4 (by decide)]
  exact heq

/-- The first byte is counted, although no seed that was found outputs it at its offset. -/
theorem misplacedData_not_reconstructed :
    ¬ Reconstructs 2081 misplacedData (3 + lfgBytes) 2081 fun _ => 0 := by
  intro h
  have hskip : 2081 + bytesToSkip 2081 = 4 * 521 := by decide
  have hoffset : wordOffset 2081 = 521 := by decide
  have hstart : startPosition 2081 = 2081 + lfgBytes := by decide
  have hdata : ∀ i, bytesToSkip 2081 ≤ i → i < 3 + lfgBytes →
      misplacedData i = output lastWordSeed (2081 + i) := by
    intro i hi _
    exact if_neg (by omega)
  have hwords : Matches (wholeWords misplacedData 2081) (wordOffset 2081)
      (swapped lastWordSeed) := by
    intro i hi
    have hroom : bytesToSkip 2081 + 4 * i + 4 ≤ 3 + lfgBytes := by
      simp only [lfgBytes, lfgK] at hi ⊢
      omega
    rw [wholeWords, wordAt_eq hskip hdata hroom, hoffset, Nat.add_assoc]
  have hzero : misplacedData 0 = output lastWordSeed (2081 + lfgBytes + 0) := if_pos (by decide)
  have hfirst := h.distinguishes ⟨by decide, by decide⟩ hwords 0 (by decide) fun j hj => by
    obtain rfl := Nat.le_zero.1 hj
    rw [hstart, hzero]
  rw [hzero, Nat.add_zero, Nat.add_zero] at hfirst
  exact output_lastWordSeed_ne hfirst

/-! ### Completeness -/

/-- All of the data is counted, and the seed has the stream of the one it was made with. -/
def Recovers (address : Nat) (data : Data) (size off : Nat) (seedOut seed : Seed) : Prop :=
  (getSeed address data size off seedOut).1 = size ∧
    ∀ count, (getBytes count (setSeed (getSeed address data size off seedOut).2)).1 =
      (getBytes count (setSeed seed)).1

theorem getBytes_eq_iff (seed seed' : Seed) :
    (∀ count, (getBytes count (setSeed seed)).1 = (getBytes count (setSeed seed')).1) ↔
      ∀ p, output seed p = output seed' p := by
  simp only [getBytes_eq, map_range_eq_iff]
  exact ⟨fun h p => h (p + 1) p (Nat.lt_succ_self p), fun h _ i _ => h i⟩

theorem output_of_blank (h : Blank (swapped seed)) (p : Nat) : output seed p = 0 := by
  rw [output_eq, (seedWords_eq_zero_iff _).2 h]
  simp [byteOf]

theorem blank_of_block {m : Nat}
    (h : ∀ i, i < lfgK → seedWords s (m + i + lfgK) = seedWords s (m + i)) : Blank s := by
  rw [← seedWords_eq_zero_iff]
  refine (isLagged_words _).eq_of_window isLagged_zero (t := m + lag) fun i hi => ?_
  have hlag := isLagged_words (rawBlock s) (m + i)
  have hplace : m + i + lag = m + lag + i := by omega
  have hsame : seedWords s (m + i) = seedWords s (m + i) ^^^ seedWords s (m + lag + i) := by
    rw [← hplace]
    exact (h i hi).symm.trans hlag
  calc seedWords s (m + lag + i)
      = seedWords s (m + i) ^^^ (seedWords s (m + i) ^^^ seedWords s (m + lag + i)) := by
        rw [← BitVec.xor_assoc, BitVec.xor_self, BitVec.zero_xor]
    _ = 0 := by rw [← hsame]; exact BitVec.xor_self

theorem blank_of_wrap
    (h : ∀ i, i < lfgK → seedWords s (lfgK * 4 + i) = seedWords s (lfgK * 4 + (2 ^ 62 + i))) :
    Blank s := by
  rw [← seedWords_eq_zero_iff]
  have hlagged : IsLagged (seedWords s) := isLagged_words _
  have hrepeat : ∀ n, seedWords s (n + 2 ^ 62) = seedWords s n := by
    refine (Lagged.shift hlagged (2 ^ 62)).eq_of_window xor_cancel lag_lt lag_pos hlagged
      (t := lfgK * 4) fun i hi => ?_
    rw [h i hi]
    exact congrArg _ (by omega)
  have hzero : ∀ x : Word, 0 ^^^ x = x := fun x => BitVec.zero_xor
  exact Lagged.eq_zero (fun x => BitVec.xor_self) xor_cancel hzero hlagged hrepeat

theorem suitable_of_enough (haligned : sub64 address off % 4 = 0) (hsize : size < 2 ^ 64)
    (hwords : bytesToSkip off + 4 * lfgK ≤ size) : Suitable address size off := by
  refine ⟨haligned, ?_⟩
  have hsub : sub64 size (bytesToSkip off) = size - bytesToSkip off := by
    unfold sub64
    omega
  rw [hsub]
  omega

theorem matches_output (hdata : ∀ i, i < size → data i = output seed (off + i))
    (hwords : bytesToSkip off + 4 * lfgK ≤ size) (h : Misplaced off → Blank (swapped seed)) :
    Matches (wholeWords data off) (wordOffset off) (swapped seed) := by
  intro i hi
  rw [wholeWords]
  by_cases hmisplaced : Misplaced off
  · have hzero := (seedWords_eq_zero_iff _).2 (h hmisplaced)
    rw [hzero]
    apply word_ext
    intro j hj
    rw [byteOf_wordAt data _ hj, hdata _ (by omega), output_of_blank (h hmisplaced)]
    simp [byteOf]
  · have hle : off ≤ 2 ^ 64 - 4 := Nat.le_of_not_lt fun hlt => hmisplaced (.inl hlt)
    obtain ⟨hskip, hoffset⟩ := off_add_skip hle
    rw [wordAt_eq hskip (fun i _ => hdata i) (by omega), hoffset, Nat.add_assoc]

theorem blank_of_recovers (hoff : off < 2 ^ 64) (hwords : bytesToSkip off + 4 * lfgK ≤ size)
    (hdata : ∀ i, i < size → data i = output seed (off + i)) {seed' : Seed}
    (h : Recovered address data size off size seed')
    (hsame : ∀ n, seedWords (swapped seed') n = seedWords (swapped seed) n)
    (hmisplaced : Misplaced off) : Blank (swapped seed) := by
  by_cases hle : off ≤ 2 ^ 64 - 4
  · obtain ⟨hskip, -⟩ := off_add_skip hle
    have hlater : off + lfgBytes + bytesToSkip off = 4 * ((off + 3) / 4 + lfgK) := by
      simp only [lfgBytes]
      omega
    have hagrees : ∀ i, i < size → data i = output seed (off + lfgBytes + i) := by
      intro i hi
      rw [h.agrees i hi, startPosition_of_misplaced hmisplaced hle, output_congr hsame]
    refine blank_of_block (m := lfgK * 4 + (off + 3) / 4) fun i hi => ?_
    have hhere := wordAt_eq hskip (fun i _ => hdata i) (i := i) (by omega)
    have hthere := wordAt_eq hlater (fun i _ => hagrees i) (i := i) (by omega)
    have hplace : lfgK * 4 + (off + 3) / 4 + i + lfgK = lfgK * 4 + ((off + 3) / 4 + lfgK + i) := by
      omega
    rw [hplace, ← hthere, hhere, Nat.add_assoc]
  · obtain ⟨hskip, hoffset⟩ := off_add_skip_of_wrap (by omega) hoff
    refine blank_of_wrap fun i hi => ?_
    have hhere := wordAt_eq hskip (fun i _ => hdata i) (i := i) (by omega)
    have hthere := h.words i hi
    rw [hoffset, hsame] at hthere
    exact hthere.symm.trans hhere

theorem Recovers.condition (h : Recovers address data size off seedOut seed) (hoff : off < 2 ^ 64)
    (hwords : bytesToSkip off + 4 * lfgK ≤ size)
    (hdata : ∀ i, i < size → data i = output seed (off + i)) :
    sub64 address off % 4 = 0 ∧ (Misplaced off → Blank (swapped seed)) := by
  obtain ⟨hcount, hstreams⟩ := h
  rw [getBytes_eq_iff] at hstreams
  have hpos : 0 < lfgK := by decide
  rcases getSeed_sound address data size off seedOut with hzero | hrecovered
  · omega
  · rw [hcount] at hrecovered
    exact ⟨hrecovered.suitable.aligned,
      blank_of_recovers hoff hwords hdata hrecovered (seedWords_eq_of_output hstreams)⟩

theorem getSeed_recovers_iff (hoff : off < 2 ^ 64) (hsize : size < 2 ^ 64)
    (hwords : bytesToSkip off + 4 * lfgK ≤ size)
    (hdata : (List.range size).map data = (getBytes size (forwardBytes off (setSeed seed))).1) :
    Recovers address data size off seedOut seed ↔
      sub64 address off % 4 = 0 ∧ (Misplaced off → Blank (swapped seed)) := by
  rw [getBytes_forward, map_range_eq_iff] at hdata
  constructor
  · exact fun h => h.condition hoff hwords hdata
  · intro ⟨haligned, hblank⟩
    obtain ⟨hrecovered, hsame⟩ := getSeed_complete seedOut
      (suitable_of_enough haligned hsize hwords) (matches_output hdata hwords hblank)
    refine ⟨Nat.le_antisymm hrecovered.le (Nat.le_of_not_lt fun hlt => ?_),
      (getBytes_eq_iff _ _).2 (output_congr hsame)⟩
    -- The first byte that is not counted would differ from the one that was output.
    refine hrecovered.next hlt ?_
    rw [hdata _ hlt, output_congr hsame]
    by_cases hmisplaced : Misplaced off
    · rw [output_of_blank (hblank hmisplaced), output_of_blank (hblank hmisplaced)]
    · rw [startPosition_eq hmisplaced]

/-- An offset that is not aligned, in the middle of a block. -/
theorem getSeed_recovers_five : Recovers 5 (fun i => output lastWordSeed (5 + i)) (3 + lfgBytes) 5
    (fun _ => 0) lastWordSeed :=
  (getSeed_recovers_iff (by decide) (by decide) (by decide) (getBytes_forward ..).symm).2
    ⟨by decide, fun h => absurd h (by decide)⟩

/-- At the last three bytes of a block the output of a generator is not recovered. -/
theorem misplaced_not_recovered : ¬ Recovers 2081 (fun i => output lastWordSeed (2081 + i))
    (3 + lfgBytes) 2081 (fun _ => 0) lastWordSeed := by
  intro h
  have hblank := (h.condition (by decide) (by decide) fun _ _ => rfl).2 (by decide)
  exact absurd (hblank.2 16 (by decide) (by decide)) (by decide)

end DolphinXR.DiscIO.Lfg
