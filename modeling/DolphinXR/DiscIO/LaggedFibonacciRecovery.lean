import DolphinXR.DiscIO.LaggedFibonacciStream

/- Seeds of data. `GetSeed` goes back from the whole words at the next offset that is aligned, and
   then compares bytes with the generator from the offset itself, both reduced by the period of its
   blocks. In the last three bytes of a block the words are of the next one, and the comparison
   starts a block too late. -/
namespace DolphinXR.DiscIO.Lfg
open Lib Generator

variable {s : Nat → Word} {seed : Seed} {data : Data} {address size off : Nat}

/-! ### Whole words -/

def Matches (data : Nat → Word) (dataOffset : Nat) (s : Nat → Word) : Prop :=
  ∀ i, i < lfgK → data i = seedWords s (lfgK * 4 + dataOffset + i)

def filled (data : Nat → Word) (offsetModK : Nat) : Buffer :=
  copyWords (fun i => data (lfgK - offsetModK + i)) offsetModK 0
    (copyWords data (lfgK - offsetModK) offsetModK fun _ => 0)

theorem filled_eq {words : Nat → Word} {d i : Nat} (hd : d < lfgK) (hi : i < lfgK) :
    filled words d ((d + i) % lfgK) = words i := by
  unfold filled copyWords
  by_cases hlast : d + i < lfgK
  · rw [Nat.mod_eq_of_lt hlast, if_neg (by omega), if_pos (by omega), Nat.add_sub_cancel_left]
  · have hwrap : (d + i) % lfgK = d + i - lfgK := by
      rw [Nat.mod_eq_sub_mod (by omega), Nat.mod_eq_of_lt (by omega)]
    have hplace : lfgK - d + (d + i - lfgK - 0) = i := by omega
    rw [hwrap, if_pos (by omega)]
    exact congrArg words hplace

def start (data : Nat → Word) (dataOffset : Nat) : Buffer :=
  (backward 0 lfgK)^[4] ((backward 0 lfgK)^[dataOffset / lfgK]
    (backward 0 (dataOffset % lfgK) (filled data (dataOffset % lfgK))))

theorem words_start (data : Nat → Word) (dataOffset : Nat) {i : Nat} (hi : i < lfgK) :
    words (start data dataOffset) (lfgK * 4 + dataOffset + i) = data i := by
  have hd : dataOffset % lfgK < lfgK := Nat.mod_lt _ (by decide)
  have hw := isLagged_words (start data dataOffset)
  have hblocks : forward^[dataOffset / lfgK] (forward^[4] (start data dataOffset)) =
      backward 0 (dataOffset % lfgK) (filled data (dataOffset % lfgK)) := by
    rw [start, forward_backward_iterate, forward_backward_iterate]
  have hwindow := IsWindow.forward hw 4
    (IsWindow.forward hw 0 (isWindow_words (start data dataOffset)) 4) (dataOffset / lfgK)
  rw [hblocks, backward_eq hd.le] at hwindow
  have hthere := Window.turns lag_lt hw hd.le hwindow
  rw [turns_turnsBack xor_cancel lag_lt lag_pos hd.le] at hthere
  have hcell := hthere i hi
  have hplace : lfgK * (0 + 4 + dataOffset / lfgK) + dataOffset % lfgK =
      lfgK * 4 + dataOffset := by
    have hdiv := Nat.div_add_mod dataOffset lfgK
    rw [Nat.zero_add, Nat.mul_add]
    omega
  rw [hplace] at hcell
  have hmod : (lfgK * 4 + dataOffset + i) % lfgK = (dataOffset % lfgK + i) % lfgK := by
    rw [Nat.add_assoc, Nat.mul_add_mod, Nat.mod_add_mod]
  rw [← hcell, hmod, filled_eq hd hi]

theorem getSeedWords_eq (data : Nat → Word) {size : Nat} (dataOffset : Nat) (seedOut : Seed)
    (hsize : lfgK ≤ size) (hlooks : ∀ i, i < lfgK → LooksShifted (swap32 (data i))) :
    getSeedWords data size dataOffset seedOut =
      (( reinitialize ((backward 0 lfgK)^[dataOffset / lfgK]
          (backward 0 (dataOffset % lfgK) (filled data (dataOffset % lfgK))))).1,
        ( reinitialize ((backward 0 lfgK)^[dataOffset / lfgK]
          (backward 0 (dataOffset % lfgK) (filled data (dataOffset % lfgK))))).2.map
            forward^[dataOffset / lfgK]) := by
  rw [getSeedWords, if_neg (by omega), if_neg (not_not_intro hlooks)]
  rfl

theorem getSeedWords_sound {data : Nat → Word} {dataOffset : Nat} {seedOut : Seed} {b : Buffer}
    (h : getSeedWords data size dataOffset seedOut = (seed, some b)) :
    lfgK ≤ size ∧ Matches data dataOffset (swapped seed) ∧
      ∀ i, words b i = seedWords (swapped seed) (lfgK * 4 + (lfgK * (dataOffset / lfgK) + i)) := by
  have hsize : lfgK ≤ size := by
    by_contra hsmall
    rw [getSeedWords, if_pos (by omega)] at h
    cases (Prod.mk.inj h).2
  have hlooks : ∀ i, i < lfgK → LooksShifted (swap32 (data i)) := by
    by_contra hnot
    rw [getSeedWords, if_neg (by omega), if_pos hnot] at h
    cases (Prod.mk.inj h).2
  rw [getSeedWords_eq data dataOffset seedOut hsize hlooks] at h
  obtain ⟨hseed, hbuffer⟩ := Prod.mk.inj h
  obtain ⟨b', hb', rfl⟩ := Option.map_eq_some_iff.1 hbuffer
  have hw := isLagged_words (start data dataOffset)
  have hlooks' := looksShifted_of_window hw (t := lfgK * 4 + dataOffset) fun i hi => by
    rw [words_start data dataOffset hi]
    exact hlooks i hi
  obtain ⟨hsame, hrest⟩ := reinitialize_sound (w := words (start data dataOffset))
    (fun i hi => (words_of_lt hi).symm) hw hlooks' (Prod.ext hseed hb')
  refine ⟨hsize, fun i hi => ?_, fun i => ?_⟩
  · rw [hsame, words_start data dataOffset hi]
  · rw [words_forward, hrest, hsame]

theorem getSeedWords_complete {data : Nat → Word} {dataOffset : Nat} (seedOut : Seed)
    (hsize : lfgK ≤ size) (h : Matches data dataOffset s) :
    ∃ seed b, getSeedWords data size dataOffset seedOut = (seed, some b) ∧
      ∀ n, seedWords (swapped seed) n = seedWords s n := by
  have hlooks : ∀ n, LooksShifted (swap32 (seedWords s n)) := by
    refine looksShifted_of_window (isLagged_words _) (t := 0) fun i hi => ?_
    rw [Nat.zero_add, seedWords, words_of_lt hi, rawBlock, swap32_swap32]
    exact looksShifted_shift _
  have heq := getSeedWords_eq data dataOffset seedOut hsize fun i hi => by
    rw [h i hi]
    exact hlooks _
  have hsame : ∀ n, words (start data dataOffset) n = seedWords s n := by
    refine (isLagged_words _).eq_of_window (isLagged_words _) (t := lfgK * 4 + dataOffset)
      fun i hi => ?_
    exact (words_start data dataOffset hi).trans (h i hi)
  obtain ⟨seed, b, hfound⟩ := reinitialize_complete (s := s)
    (b := (backward 0 lfgK)^[dataOffset / lfgK]
      (backward 0 (dataOffset % lfgK) (filled data (dataOffset % lfgK))))
    fun i hi => (words_of_lt hi).symm.trans (hsame i)
  rw [hfound] at heq
  refine ⟨seed, _, heq, fun n => ?_⟩
  have hagain := (getSeedWords_sound heq).2.1
  refine (isLagged_words _).eq_of_window (isLagged_words _) (t := lfgK * 4 + dataOffset)
    (fun i hi => ?_) n
  exact (hagain i hi).symm.trans (h i hi)

/-! ### Bytes -/

def output (seed : Seed) (position : Nat) : Byte := (setSeed seed).stream position

theorem output_eq (seed : Seed) (position : Nat) :
    output seed position =
      byteOf (seedWords (swapped seed) (lfgK * 4 + position / 4)) (position % 4) := by
  have hposition : 0 + position = position := Nat.zero_add position
  rw [output, stream, byteOfWords, words_setSeed]
  show byteOf (seedWords (swapped seed) (lfgK * 4 + (0 + position) / 4)) ((0 + position) % 4) = _
  rw [hposition]

theorem getBytes_forward (seed : Seed) (off count : Nat) :
    (getBytes count (forwardBytes off (setSeed seed))).1 =
      (List.range count).map fun i => output seed (off + i) := by
  rw [getBytes_eq]
  exact List.map_congr_left fun i _ => stream_forwardBytes _ off i

theorem word_ext {x y : Word} (h : ∀ j, j < 4 → byteOf x j = byteOf y j) : x = y := by
  apply BitVec.eq_of_getLsbD_eq
  intro i hi
  have hbit := congrArg (fun z => BitVec.getLsbD z (i % 8)) (h (i / 8) (by omega))
  simp only [byteOf, BitVec.getLsbD_extractLsb'] at hbit
  have hmod : i % 8 < 8 := Nat.mod_lt _ (by decide)
  rw [Nat.div_add_mod] at hbit
  simpa [hmod] using hbit

theorem byteOf_wordAt (data : Data) (i : Nat) {j : Nat} (hj : j < 4) :
    byteOf (wordAt data i) j = data (i + j) := by
  apply BitVec.eq_of_getLsbD_eq
  intro k hk
  simp only [byteOf, wordAt, BitVec.getLsbD_extractLsb', BitVec.getLsbD_append, hk, decide_true,
    Bool.true_and]
  interval_cases j
  · rw [if_pos (by omega)]
    exact congrArg _ (by omega)
  · rw [if_neg (by omega), if_pos (by omega)]
    exact congrArg _ (by omega)
  · rw [if_neg (by omega), if_neg (by omega), if_pos (by omega)]
    exact congrArg _ (by omega)
  · rw [if_neg (by omega), if_neg (by omega), if_neg (by omega)]
    exact congrArg _ (by omega)

theorem wordAt_eq {skip m : Nat} (hm : off + skip = 4 * m)
    (h : ∀ i, skip ≤ i → i < size → data i = output seed (off + i)) {i : Nat}
    (hi : skip + 4 * i + 4 ≤ size) :
    wordAt data (skip + 4 * i) = seedWords (swapped seed) (lfgK * 4 + (m + i)) := by
  apply word_ext
  intro j hj
  have hdiv : (off + (skip + 4 * i + j)) / 4 = m + i := by omega
  have hmod : (off + (skip + 4 * i + j)) % 4 = j := by omega
  rw [byteOf_wordAt data _ hj, h _ (by omega) (by omega), output_eq, hdiv, hmod]

theorem seedWords_eq_of_output {seed seed' : Seed} (h : ∀ p, output seed p = output seed' p)
    (n : Nat) : seedWords (swapped seed) n = seedWords (swapped seed') n := by
  refine (isLagged_words _).eq_of_window (isLagged_words _) (t := lfgK * 4) (fun i hi => ?_) n
  apply word_ext
  intro j hj
  have hbyte := h (4 * i + j)
  have hdiv : (4 * i + j) / 4 = i := by omega
  have hmod : (4 * i + j) % 4 = j := by omega
  rw [output_eq, output_eq, hdiv, hmod] at hbyte
  exact hbyte

theorem output_congr {seed seed' : Seed}
    (h : ∀ n, seedWords (swapped seed) n = seedWords (swapped seed') n) (p : Nat) :
    output seed p = output seed' p := by
  rw [output_eq, output_eq, h]

/-! ### Counting -/

theorem reconstruct_succ (data : Data) (left i : Nat) (g : Generator) :
    reconstruct data (left + 1) i g =
      if g.getByte.1 = data i then reconstruct data left (i + 1) g.getByte.2 + 1 else 0 := rfl

theorem reconstruct_le (data : Data) (left i : Nat) (g : Generator) :
    reconstruct data left i g ≤ left := by
  induction left generalizing i g with
  | zero => exact le_rfl
  | succ left ih =>
    rw [reconstruct_succ]
    split
    · exact Nat.succ_le_succ (ih (i + 1) _)
    · exact Nat.zero_le _

theorem reconstruct_agrees (data : Data) (left i : Nat) (g : Generator) :
    (∀ j, j < reconstruct data left i g → data (i + j) = g.stream j) ∧
      (reconstruct data left i g < left →
        data (i + reconstruct data left i g) ≠ g.stream (reconstruct data left i g)) := by
  induction left generalizing i g with
  | zero => exact ⟨fun j hj => absurd hj (Nat.not_lt_zero j), fun h => absurd h (Nat.lt_irrefl 0)⟩
  | succ left ih =>
    have hfirst := g.getByte_fst
    by_cases hbyte : g.getByte.1 = data i
    · have hcount : reconstruct data (left + 1) i g =
          reconstruct data left (i + 1) g.getByte.2 + 1 := by
        rw [reconstruct_succ, if_pos hbyte]
      obtain ⟨hagrees, hnext⟩ := ih (i + 1) g.getByte.2
      rw [hcount]
      constructor
      · intro j hj
        cases j with
        | zero => exact hbyte.symm.trans hfirst
        | succ j =>
          have hj' := hagrees j (by omega)
          rwa [g.stream_getByte, Nat.add_assoc, Nat.add_comm 1 j] at hj'
      · intro hlt
        have hne := hnext (by omega)
        rwa [g.stream_getByte, Nat.add_assoc, Nat.add_comm 1] at hne
    · have hcount : reconstruct data (left + 1) i g = 0 := by
        rw [reconstruct_succ, if_neg hbyte]
      rw [hcount]
      exact ⟨fun j hj => absurd hj (Nat.not_lt_zero j), fun _ heq => hbyte (hfirst.trans heq.symm)⟩

/-! ### The seed of data -/

def startPosition (off : Nat) : Nat := lfgBytes * (wordOffset off / lfgK) + off % lfgBytes

/-- What the code sees of the data before it looks for a seed. -/
structure Suitable (address size off : Nat) : Prop where
  aligned : sub64 address off % 4 = 0
  enough : lfgK ≤ sub64 size (bytesToSkip off) / 4

structure Recovered (address : Nat) (data : Data) (size off count : Nat) (seed : Seed) : Prop where
  suitable : Suitable address size off
  words : Matches (wholeWords data off) (wordOffset off) (swapped seed)
  le : count ≤ size
  agrees : ∀ i, i < count → data i = output seed (startPosition off + i)
  next : count < size → data count ≠ output seed (startPosition off + count)

theorem getSeed_recovered {seedOut : Seed} {b : Buffer} (haligned : sub64 address off % 4 = 0)
    (h : getSeedWords (wholeWords data off) (sub64 size (bytesToSkip off) / 4) (wordOffset off)
      seedOut = (seed, some b)) :
    (getSeed address data size off seedOut).2 = seed ∧
      Recovered address data size off (getSeed address data size off seedOut).1 seed := by
  obtain ⟨henough, hwords, hbuffer⟩ := getSeedWords_sound h
  have hpos : off % lfgBytes < lfgBytes := Nat.mod_lt _ (by decide)
  have heq : getSeed address data size off seedOut =
      (reconstruct data size 0 ⟨b, off % lfgBytes, hpos⟩, seed) := by
    rw [getSeed, if_neg (not_not_intro haligned), h]
  have hstream : ∀ i, stream ⟨b, off % lfgBytes, hpos⟩ i = output seed (startPosition off + i) := by
    intro i
    have hdiv : (startPosition off + i) / 4 =
        lfgK * (wordOffset off / lfgK) + (off % lfgBytes + i) / 4 := by
      simp only [startPosition, lfgBytes, lfgK]
      omega
    have hmod : (startPosition off + i) % 4 = (off % lfgBytes + i) % 4 := by
      simp only [startPosition, lfgBytes, lfgK]
      omega
    rw [stream, byteOfWords, hbuffer, output_eq, hdiv, hmod]
  obtain ⟨hagrees, hnext⟩ := reconstruct_agrees data size 0 ⟨b, off % lfgBytes, hpos⟩
  rw [heq]
  refine ⟨rfl, ⟨haligned, henough⟩, hwords, reconstruct_le .., fun i hi => ?_, fun hlt => ?_⟩
  · have hi' := hagrees i hi
    rwa [Nat.zero_add, hstream] at hi'
  · have hn := hnext hlt
    rwa [Nat.zero_add, hstream] at hn

theorem getSeed_sound (address : Nat) (data : Data) (size off : Nat) (seedOut : Seed) :
    (getSeed address data size off seedOut).1 = 0 ∨
      Recovered address data size off (getSeed address data size off seedOut).1
        (getSeed address data size off seedOut).2 := by
  by_cases haligned : sub64 address off % 4 = 0
  · obtain ⟨⟨seed, found⟩, h⟩ : ∃ r, getSeedWords (wholeWords data off)
        (sub64 size (bytesToSkip off) / 4) (wordOffset off) seedOut = r := ⟨_, rfl⟩
    cases found with
    | none =>
      left
      rw [getSeed, if_neg (not_not_intro haligned), h]
    | some b =>
      obtain ⟨hseed, hrecovered⟩ := getSeed_recovered haligned h
      rw [hseed]
      exact .inr hrecovered
  · rw [getSeed, if_pos haligned]
    exact .inl rfl

theorem getSeed_complete (seedOut : Seed) (h : Suitable address size off)
    (hwords : Matches (wholeWords data off) (wordOffset off) s) :
    Recovered address data size off (getSeed address data size off seedOut).1
        (getSeed address data size off seedOut).2 ∧
      ∀ n, seedWords (swapped (getSeed address data size off seedOut).2) n = seedWords s n := by
  obtain ⟨seed, b, hfound, hsame⟩ := getSeedWords_complete seedOut h.enough hwords
  obtain ⟨hseed, hrecovered⟩ := getSeed_recovered h.aligned hfound
  rw [hseed]
  exact ⟨hrecovered, hsame⟩

end DolphinXR.DiscIO.Lfg
