import DolphinXR.Lib.LaggedSequence
import DolphinXR.DiscIO.LaggedFibonacciGenerator

/- What the generator outputs. Its words are a lagged sequence of which the buffer is a window:
   `Forward` moves the window on by a block and `Backward` takes it back, and the bytes that come
   out one by one or many at once are those of the sequence, from the position of the generator
   on.

   A seed gives words as well: `Initialize` makes the words of a block out of a seed by a
   recurrence of its own; `Reinitialize` takes a block back to a seed with the same words and
   finds one whenever there is one, although two bits of the first word of the seed are not in any
   word. -/
namespace DolphinXR.DiscIO.Lfg
open Lib

def lag : Nat := lfgK - lfgJ

def IsLagged (w : Nat → Word) : Prop := Lagged HXor.hXor lfgK lag w

def IsWindow (b : Buffer) (w : Nat → Word) (t : Nat) : Prop := Window lfgK b w t

def words (b : Buffer) : Nat → Word := extend HXor.hXor lfgK lag b

section
variable {b : Buffer} {w v : Nat → Word} {t : Nat}

theorem xor_cancel (x y : Word) : x ^^^ y ^^^ y = x := by
  rw [BitVec.xor_assoc, BitVec.xor_self, BitVec.xor_zero]

theorem lag_lt : lag < lfgK := by decide

theorem lag_pos : 0 < lag := by decide

theorem isLagged_words (b : Buffer) : IsLagged (words b) := lagged_extend lag_lt

theorem words_of_lt {i : Nat} (h : i < lfgK) : words b i = b i := extend_of_lt h

theorem isWindow_words (b : Buffer) : IsWindow b (words b) 0 := window_extend

theorem IsLagged.eq_of_window (hw : IsLagged w) (hv : IsLagged v)
    (h : ∀ i, i < lfgK → w (t + i) = v (t + i)) (n : Nat) : w n = v n :=
  Lagged.eq_of_window xor_cancel lag_lt lag_pos hw hv h n

/-! ### Blocks -/

theorem xorAt_eq_turn {i j : Nat} (h : (i + lag) % lfgK = j) (b : Buffer) :
    xorAt b i j = turn HXor.hXor lfgK lag b i := by
  rw [xorAt, turn, h]

theorem low_eq_turn {i : Nat} (h : i < lfgJ) (b : Buffer) :
    xorAt b i (i + lfgK - lfgJ) = turn HXor.hXor lfgK lag b i := by
  apply xorAt_eq_turn
  simp only [lfgJ, lfgK, lag] at h ⊢
  omega

theorem high_eq_turn {i : Nat} (h : lfgJ ≤ i) (hlt : i < lfgK) (b : Buffer) :
    xorAt b i (i - lfgJ) = turn HXor.hXor lfgK lag b i := by
  apply xorAt_eq_turn
  simp only [lfgJ, lfgK, lag] at h hlt ⊢
  omega

theorem range_split {e : Nat} :
    List.range e = List.range' 0 (min e lfgJ) ++ List.range' lfgJ (e - lfgJ) := by
  rw [List.range_eq_range']
  by_cases h : e ≤ lfgJ
  · rw [Nat.min_eq_left h, Nat.sub_eq_zero_of_le h, List.range'_zero, List.append_nil]
  · have hsplit := List.range'_append_1 (s := 0) (m := lfgJ) (n := e - lfgJ)
    rw [Nat.zero_add, Nat.add_sub_cancel' (Nat.le_of_not_le h)] at hsplit
    rw [Nat.min_eq_right (Nat.le_of_not_le h), hsplit]

theorem forward_eq (b : Buffer) : forward b = turns HXor.hXor lfgK lag lfgK b := by
  have hlow : (List.range lfgJ).foldl (fun b i => xorAt b i (i + lfgK - lfgJ)) b =
      (List.range lfgJ).foldl (turn HXor.hXor lfgK lag) b :=
    List.foldl_ext _ _ _ fun b i hi => low_eq_turn (List.mem_range.1 hi) b
  have hsplit : List.range lfgK = List.range lfgJ ++ List.range' lfgJ (lfgK - lfgJ) := by
    rw [range_split, List.range_eq_range']
    rfl
  rw [forward, hlow, turns, hsplit, List.foldl_append]
  apply List.foldl_ext
  intro b i hi
  obtain ⟨hle, hlt⟩ := List.mem_range'_1.1 hi
  exact high_eq_turn hle (by simp only [lfgJ, lfgK] at hlt ⊢; omega) b

theorem backward_eq {e : Nat} (he : e ≤ lfgK) (b : Buffer) :
    backward 0 e b = turnsBack HXor.hXor lfgK lag e b := by
  rw [turnsBack, range_split, List.reverse_append, List.foldl_append]
  simp only [backward, Nat.max_zero, Nat.min_eq_left he, Nat.sub_zero]
  have hhigh : ∀ b : Buffer, (List.range' lfgJ (e - lfgJ)).reverse.foldl
      (fun b i => xorAt b i (i - lfgJ)) b =
      (List.range' lfgJ (e - lfgJ)).reverse.foldl (turn HXor.hXor lfgK lag) b := by
    intro b
    apply List.foldl_ext
    intro b i hi
    obtain ⟨hle, hlt⟩ := List.mem_range'_1.1 (List.mem_reverse.1 hi)
    exact high_eq_turn hle (by omega) b
  rw [hhigh]
  apply List.foldl_ext
  intro b i hi
  obtain ⟨-, hlt⟩ := List.mem_range'_1.1 (List.mem_reverse.1 hi)
  exact low_eq_turn (by omega) b

theorem forward_backward (b : Buffer) : forward (backward 0 lfgK b) = b := by
  rw [forward_eq, backward_eq le_rfl]
  exact turns_turnsBack xor_cancel lag_lt lag_pos le_rfl b

theorem forward_backward_iterate (m : Nat) (b : Buffer) :
    forward^[m] ((backward 0 lfgK)^[m] b) = b :=
  Function.LeftInverse.iterate forward_backward m b

theorem IsWindow.forward (hw : IsLagged w) (block : Nat) (h : IsWindow b w (lfgK * block))
    (m : Nat) : IsWindow (forward^[m] b) w (lfgK * (block + m)) := by
  have hforward : Lfg.forward = turns HXor.hXor lfgK lag lfgK := funext forward_eq
  rw [hforward]
  exact Window.iterate lag_lt hw h m

theorem words_forward (b : Buffer) (m i : Nat) :
    words (forward^[m] b) i = words b (lfgK * m + i) := by
  have hwindow := IsWindow.forward (isLagged_words b) 0 (isWindow_words b) m
  have hshift : IsLagged fun n => words b (n + lfgK * m) := (isLagged_words b).shift _
  rw [Nat.add_comm (lfgK * m) i]
  refine (isLagged_words _).eq_of_window hshift (t := 0) (fun j hj => ?_) i
  have hcell := hwindow j hj
  rw [Nat.zero_add, Nat.mul_add_mod, Nat.mod_eq_of_lt hj] at hcell
  rw [Nat.zero_add, words_of_lt hj, hcell, Nat.add_comm]

/-! ### Bytes -/

def byteOfWords (w : Nat → Word) (position : Nat) : Byte := byteOf (w (position / 4)) (position % 4)

namespace Generator

def stream (g : Generator) (i : Nat) : Byte := byteOfWords (words g.buffer) (g.positionBytes + i)

theorem byteAt_eq (g : Generator) {position : Nat} (h : position < lfgBytes) :
    g.byteAt position = byteOfWords (words g.buffer) position := by
  rw [byteAt, byteOfWords, words_of_lt (by simp only [lfgBytes] at h; omega)]

theorem byteOfWords_forward (b : Buffer) (m position : Nat) :
    byteOfWords (words (forward^[m] b)) position =
      byteOfWords (words b) (lfgBytes * m + position) := by
  have hdiv : (lfgBytes * m + position) / 4 = lfgK * m + position / 4 := by
    simp only [lfgBytes, lfgK]
    omega
  have hmod : (lfgBytes * m + position) % 4 = position % 4 := by
    simp only [lfgBytes, lfgK]
    omega
  rw [byteOfWords, byteOfWords, words_forward, hdiv, hmod]

theorem stream_advance (g : Generator) (n : Nat) (h : g.positionBytes + n ≤ lfgBytes) (i : Nat) :
    (g.advance (g.positionBytes + n) h).stream i = g.stream (n + i) := by
  unfold advance
  split
  · next hend =>
    have hforward := byteOfWords_forward g.buffer 1 i
    rw [Function.iterate_one, Nat.mul_one] at hforward
    rw [stream, stream, Nat.zero_add, hforward, ← hend, Nat.add_assoc]
  · rw [stream, stream, Nat.add_assoc]

theorem getByte_fst (g : Generator) : g.getByte.1 = g.stream 0 := g.byteAt_eq g.position_lt

theorem stream_getByte (g : Generator) (i : Nat) : g.getByte.2.stream i = g.stream (i + 1) := by
  rw [Nat.add_comm]
  exact g.stream_advance 1 g.position_lt i

theorem getBytes_eq (count : Nat) (g : Generator) :
    (g.getBytes count).1 = (List.range count).map g.stream := by
  induction count using Nat.strong_induction_on generalizing g with
  | _ count ih =>
    rw [getBytes]
    by_cases hcount : count = 0
    · rw [dif_pos hcount, hcount]
      rfl
    · have hlt := g.position_lt
      rw [dif_neg hcount]
      have hsplit : ∀ length, length ≤ count → (List.range count).map g.stream =
          (List.range length).map g.stream ++
            (List.range (count - length)).map fun i => g.stream (length + i) := by
        intro length hle
        obtain ⟨rest, rfl⟩ := Nat.exists_eq_add_of_le hle
        rw [List.range_add, List.map_append, List.map_map, Nat.add_sub_cancel_left]
        rfl
      rw [hsplit _ (Nat.min_le_left count (lfgBytes - g.positionBytes))]
      simp only []
      rw [ih _ (by omega)]
      congr 1
      · apply List.map_congr_left
        intro i hi
        have hi' := List.mem_range.1 hi
        exact g.byteAt_eq (by omega)
      · apply List.map_congr_left
        intro i _
        exact g.stream_advance _ (by omega) i

theorem stream_forwardLoop (b : Buffer) (positionBytes i : Nat) :
    (forwardLoop b positionBytes).stream i = byteOfWords (words b) (positionBytes + i) := by
  induction positionBytes using Nat.strong_induction_on generalizing b with
  | _ positionBytes ih =>
    rw [forwardLoop]
    by_cases h : lfgBytes ≤ positionBytes
    · have hpos : 0 < lfgBytes := by decide
      have hforward := byteOfWords_forward b 1 (positionBytes - lfgBytes + i)
      rw [Function.iterate_one, Nat.mul_one] at hforward
      have hsum : lfgBytes + (positionBytes - lfgBytes + i) = positionBytes + i := by omega
      rw [dif_pos h, ih _ (Nat.sub_lt (Nat.lt_of_lt_of_le hpos h) hpos), hforward, hsum]
    · rw [dif_neg h]
      rfl

theorem stream_forwardBytes (g : Generator) (count i : Nat) :
    (g.forwardBytes count).stream i = g.stream (count + i) := by
  rw [forwardBytes, stream_forwardLoop, stream, Nat.add_assoc]

end Generator

end

/-! ### Seeds -/

def raw (s : Nat → Word) (i : Nat) : Word :=
  if _hi : i < 17 then s i else (raw s (i - 17) <<< 23) ^^^ (raw s (i - 16) >>> 9) ^^^ raw s (i - 1)
termination_by i

def rawBlock (s : Nat → Word) : Buffer := fun i => swap32 (shift (raw s i))

def seedWords (s : Nat → Word) : Nat → Word := words (rawBlock s)

def swapped (seed : Seed) : Nat → Word := fun i => swap32 (seed i)

variable {s s' : Nat → Word} {b b' : Buffer} {w : Nat → Word}

theorem raw_of_lt {i : Nat} (h : i < 17) : raw s i = s i := by rw [raw, dif_pos h]

theorem raw_add (s : Nat → Word) (i : Nat) :
    raw s (i + 17) = (raw s i <<< 23) ^^^ (raw s (i + 1) >>> 9) ^^^ raw s (i + 16) := by
  rw [raw, dif_neg (by omega), Nat.add_sub_cancel]
  rfl

theorem calculated_eq {j : Nat} (hj : 17 ≤ j) (h : ∀ i, i < j → b i = raw s i) :
    calculated b j = raw s j := by
  obtain ⟨i, rfl⟩ := Nat.exists_eq_add_of_le' hj
  rw [raw_add, calculated, h _ (by omega), h _ (by omega), h _ (by omega), Nat.add_sub_cancel]
  rfl

/-- The words of a buffer from a place on are those of a seed, as far as output shows them. -/
def KeepsFrom (s : Nat → Word) (b : Buffer) (j e : Nat) : Prop :=
  ∀ i, j ≤ i → i < e → raw s i &&& keptBits = unshift (b i)

theorem update_raw {j : Nat} (h : ∀ i, i < j → b i = raw s i) :
    ∀ i, i < j + 1 → Function.update b j (raw s j) i = raw s i := by
  intro i hi
  by_cases heq : i = j
  · subst heq
    exact Function.update_self ..
  · rw [Function.update_of_ne heq, h i (by omega)]

theorem initializeLoop_sound {check : Bool} {j m : Nat} (hj : 17 ≤ j)
    (h : ∀ i, i < j → b i = raw s i)
    (hloop : initializeLoop check (List.range' j m) b = some b') :
    (∀ i, i < j + m → b' i = raw s i) ∧ (check → KeepsFrom s b j (j + m)) := by
  induction m generalizing j b with
  | zero =>
    obtain rfl := Option.some.inj hloop
    exact ⟨h, fun _ i hle hlt => absurd hle (by omega)⟩
  | succ m ih =>
    rw [List.range'_succ, initializeLoop, calculated_eq hj h] at hloop
    split at hloop
    · cases hloop
    · next hcheck =>
      obtain ⟨hraw, hkeeps⟩ := ih (by omega) (update_raw h) hloop
      rw [Nat.add_right_comm, Nat.add_assoc] at hraw
      refine ⟨hraw, fun hc i hle hlt => ?_⟩
      by_cases heq : i = j
      · subst heq
        exact Decidable.not_not.1 fun hne => hcheck ⟨hc, hne⟩
      · have hi := hkeeps hc i (by omega) (by omega)
        rwa [Function.update_of_ne heq] at hi

theorem initializeLoop_complete (check : Bool) {j m : Nat} (hj : 17 ≤ j)
    (h : ∀ i, i < j → b i = raw s i) (hkeeps : check → KeepsFrom s b j (j + m)) :
    ∃ b', initializeLoop check (List.range' j m) b = some b' := by
  induction m generalizing j b with
  | zero => exact ⟨b, rfl⟩
  | succ m ih =>
    rw [List.range'_succ, initializeLoop, calculated_eq hj h]
    rw [if_neg fun hin => hin.2 (hkeeps hin.1 j le_rfl (by omega))]
    refine ih (by omega) (update_raw h) fun hc i hle hlt => ?_
    rw [Function.update_of_ne (by omega)]
    exact hkeeps hc i (by omega) (by omega)

theorem initializeBuffer_sound {check : Bool} (h : ∀ i, i < 17 → b i = s i)
    (hinit : initializeBuffer check b = some b') :
    (∀ i, words b' i = seedWords s (lfgK * 4 + i)) ∧ (check → KeepsFrom s b 17 lfgK) := by
  obtain ⟨c, hloop, rfl⟩ := Option.map_eq_some_iff.1 hinit
  have hseed : ∀ i, i < 17 → b i = raw s i := fun i hi => by rw [raw_of_lt hi, h i hi]
  obtain ⟨hraw, hkeeps⟩ := initializeLoop_sound le_rfl hseed hloop
  refine ⟨fun i => ?_, hkeeps⟩
  rw [words_forward]
  refine (isLagged_words _).eq_of_window (isLagged_words (rawBlock s)) (t := 0)
    (fun j hj => ?_) _
  rw [Nat.zero_add, words_of_lt hj, words_of_lt hj, rawBlock, hraw j hj]

theorem setSeed_buffer (seed : Seed) :
    (setSeed seed).buffer = (initializeBuffer false (swapped seed)).getD seed := by
  have hswapped : swapped seed = fun i => swap32 (seed i) := rfl
  rw [hswapped]
  simp only [setSeed]

theorem words_setSeed (seed : Seed) (i : Nat) :
    words (setSeed seed).buffer i = seedWords (swapped seed) (lfgK * 4 + i) := by
  obtain ⟨c, hloop⟩ := initializeLoop_complete false (m := lfgK - seedSize) le_rfl
    (fun i hi => (raw_of_lt hi).symm : ∀ i, i < 17 → swapped seed i = raw (swapped seed) i)
    (fun hc => absurd hc Bool.false_ne_true)
  obtain ⟨b, hinit⟩ : ∃ b, initializeBuffer false (swapped seed) = some b :=
    ⟨_, congrArg (Option.map _) hloop⟩
  rw [setSeed_buffer, hinit, Option.getD_some]
  exact (initializeBuffer_sound (fun i _ => rfl) hinit).1 i

/-! ### From a block back to a seed -/

theorem restore_eq (e : Nat) (b : Buffer) (i : Nat) :
    (List.range e).foldl (fun b i => Function.update b i (restored b i)) b i =
      if i < e then restored b i else b i := by
  induction e generalizing i with
  | zero => rfl
  | succ e ih =>
    rw [List.range_succ, List.foldl_append, List.foldl_cons, List.foldl_nil]
    by_cases hi : i = e
    · subst hi
      rw [Function.update_self, if_pos (by omega), restored, restored, ih, ih, ih,
        if_neg (by omega), if_neg (by omega), if_neg (by omega)]
    · rw [Function.update_of_ne hi, ih]
      exact if_congr (by omega) rfl rfl

theorem looksShifted_of_window (hw : IsLagged w) {t : Nat}
    (h : ∀ i, i < lfgK → LooksShifted (swap32 (w (t + i)))) (n : Nat) :
    LooksShifted (swap32 (w n)) := by
  refine forall_of_window (P := fun n => LooksShifted (swap32 (w n))) lag_lt lag_pos ?_ ?_ h n
  · intro n h0 h1
    rw [hw n, swap32_xor]
    exact h0.xor h1
  · intro n h0 h1
    have hback : w n = w (n + lfgK) ^^^ w (n + lag) := by
      rw [hw n]
      exact (xor_cancel _ _).symm
    rw [hback, swap32_xor]
    exact h0.xor h1

/-- The seed that `Reinitialize` reads off the block `w`. -/
def restoredSeed (w : Nat → Word) : Nat → Word := restored fun i => swap32 (w i)

theorem reinitialize_eq (hb : ∀ i, i < lfgK → (backward 0 lfgK)^[4] b i = w i) :
    ∃ c : Buffer, (∀ i, i < 17 → c i = restoredSeed w i) ∧
      (∀ i, 17 ≤ i → i < lfgK → c i = swap32 (w i)) ∧
      reinitialize b = (fun i => swap32 (c i), initializeBuffer true c) := by
  refine ⟨(List.range seedSize).foldl (fun b i => Function.update b i (restored b i))
    fun i => swap32 ((backward 0 lfgK)^[4] b i), fun i hi => ?_, fun i hle hi => ?_, rfl⟩
  · have hk : i + 16 < lfgK := by
      simp only [lfgK]
      omega
    rw [restore_eq, if_pos (by exact hi), restoredSeed, restored, restored, hb i (by omega),
      hb (i + 15) (by omega), hb (i + 16) hk]
  · rw [restore_eq, if_neg (by simp only [seedSize]; omega), hb i hi]

theorem reinitialize_sound (hb : ∀ i, i < lfgK → (backward 0 lfgK)^[4] b i = w i) (hw : IsLagged w)
    (hlooks : ∀ n, LooksShifted (swap32 (w n))) {seed : Seed}
    (h : reinitialize b = (seed, some b')) :
    (∀ n, seedWords (swapped seed) n = w n) ∧ ∀ i, words b' i = w (lfgK * 4 + i) := by
  obtain ⟨c, hlow, hhigh, hc⟩ := reinitialize_eq hb
  rw [hc] at h
  obtain ⟨hseed, hinit⟩ := Prod.mk.inj h
  have hswapped : swapped seed = c := by
    rw [← hseed]
    exact funext fun i => swap32_swap32 (c i)
  obtain ⟨hwords, hkeeps⟩ := initializeBuffer_sound (s := c) (fun _ _ => rfl) hinit
  have hkept : ∀ i, i < lfgK → raw c i &&& keptBits = unshift (swap32 (w i)) := by
    intro i hi
    by_cases hi' : i < 17
    · rw [raw_of_lt hi', hlow i hi']
      exact restored_kept _ i
    · rw [hkeeps rfl i (by omega) hi, hhigh i (by omega) hi]
  have hsame : ∀ n, seedWords c n = w n := by
    intro n
    refine (isLagged_words _).eq_of_window hw (t := 0) (fun i hi => ?_) n
    rw [Nat.zero_add, words_of_lt hi, rawBlock, shift_of_kept (hlooks i) (hkept i hi),
      swap32_swap32]
  refine ⟨fun n => by rw [hswapped, hsame n], fun i => ?_⟩
  rw [hwords, hsame]

theorem raw_congr (h0 : s 0 &&& keptBits = s' 0 &&& keptBits)
    (h : ∀ i, 0 < i → i < 17 → s i = s' i) (n : Nat) (hn : 0 < n) : raw s n = raw s' n := by
  induction n using Nat.strong_induction_on with
  | _ n ih =>
    by_cases hlt : n < 17
    · rw [raw_of_lt hlt, raw_of_lt hlt, h n hn hlt]
    · obtain ⟨i, rfl⟩ := Nat.exists_eq_add_of_le' (Nat.le_of_not_lt hlt)
      have hfirst : raw s i <<< 23 = raw s' i <<< 23 := by
        by_cases hi : i = 0
        · subst hi
          rw [raw_of_lt (by decide), raw_of_lt (by decide)]
          exact shiftLeft_congr h0
        · rw [ih i (by omega) (by omega)]
      rw [raw_add, raw_add, hfirst, ih (i + 1) (by omega) (by omega),
        ih (i + 16) (by omega) (by omega)]

theorem restoredSeed_seedWords (s : Nat → Word) :
    restoredSeed (seedWords s) 0 &&& keptBits = s 0 &&& keptBits ∧
      ∀ i, 0 < i → i < 17 → restoredSeed (seedWords s) i = s i := by
  have hword : ∀ i, i < lfgK → swap32 (seedWords s i) = shift (raw s i) := fun i hi => by
    rw [seedWords, words_of_lt hi, rawBlock, swap32_swap32]
  constructor
  · rw [restoredSeed, restored_kept, hword 0 (by decide), unshift_shift, raw_of_lt (by decide)]
  · intro i hpos hi
    have hk : i + 16 < lfgK := by
      simp only [lfgK]
      omega
    obtain ⟨j, rfl⟩ := Nat.exists_eq_add_of_le' hpos
    rw [← raw_of_lt (s := s) hi]
    exact restored_eq (hword _ (by omega)) (hword _ (by omega)) (hword _ hk) (raw_add s j)

theorem reinitialize_complete
    (hb : ∀ i, i < lfgK → (backward 0 lfgK)^[4] b i = seedWords s i) :
    ∃ seed b', reinitialize b = (seed, some b') := by
  obtain ⟨c, hlow, hhigh, hc⟩ := reinitialize_eq hb
  obtain ⟨hzero, hrest⟩ := restoredSeed_seedWords s
  have hraw := raw_congr (by rw [hlow 0 (by decide), hzero] : c 0 &&& keptBits = s 0 &&& keptBits)
    fun i hpos hi => by rw [hlow i hi, hrest i hpos hi]
  obtain ⟨c', hloop⟩ := initializeLoop_complete true (m := lfgK - seedSize) le_rfl
    (fun i hi => (raw_of_lt hi).symm : ∀ i, i < 17 → c i = raw c i) fun _ i hle hlt => by
      rw [hraw i (by omega), hhigh i hle hlt, seedWords, words_of_lt (by exact hlt), rawBlock,
        swap32_swap32, unshift_shift]
  exact ⟨_, _, hc.trans (congrArg _ (congrArg (Option.map _) hloop))⟩

def Blank (s : Nat → Word) : Prop := s 0 &&& keptBits = 0 ∧ ∀ i, 0 < i → i < 17 → s i = 0

theorem isLagged_zero : IsLagged fun _ => 0 := fun _ => BitVec.xor_self.symm

theorem seedWords_eq_zero_iff (s : Nat → Word) : (∀ n, seedWords s n = 0) ↔ Blank s := by
  constructor
  · intro h
    obtain ⟨hzero, hrest⟩ := restoredSeed_seedWords s
    have hseed : ∀ i, restoredSeed (seedWords s) i = 0 := fun i => by
      simp only [restoredSeed, restored, h]
      decide
    rw [hseed] at hzero
    exact ⟨hzero.symm.trans (by decide), fun i hpos hi => (hrest i hpos hi).symm.trans (hseed i)⟩
  · intro h n
    have hnone : ∀ n, raw (fun _ => 0) n = 0 := by
      intro n
      induction n using Nat.strong_induction_on with
      | _ n ih =>
        by_cases hlt : n < 17
        · exact raw_of_lt hlt
        · obtain ⟨i, rfl⟩ := Nat.exists_eq_add_of_le' (Nat.le_of_not_lt hlt)
          rw [raw_add, ih i (by omega), ih (i + 1) (by omega), ih (i + 16) (by omega)]
          decide
    have hzero : s 0 &&& keptBits = (fun _ => 0 : Nat → Word) 0 &&& keptBits := by
      rw [h.1]
      decide
    have hraw : ∀ n, 0 < n → raw s n = raw (fun _ => 0) n := raw_congr hzero h.2
    refine (isLagged_words _).eq_of_window isLagged_zero (t := 0) (fun i hi => ?_) n
    rw [Nat.zero_add, words_of_lt hi, rawBlock]
    by_cases hi0 : i = 0
    · subst hi0
      rw [raw_of_lt (by decide), shift_congr hzero]
      decide
    · rw [hraw i (by omega), hnone]
      decide

end DolphinXR.DiscIO.Lfg
