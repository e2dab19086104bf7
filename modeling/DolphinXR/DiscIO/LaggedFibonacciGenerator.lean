import Mathlib.Data.BitVec
import Mathlib.Tactic.IntervalCases
import DolphinXR.Common.Align

/- The generator of junk data (DiscIO/LaggedFibonacciGenerator.cpp) on a little-endian host. The
   buffer is a function of the index, of which the program uses those below 521; data are what is in
   memory from an address on, of which `size` bytes are the caller's.

   Output shifts a word by 18 where it shifts the others by 16, which loses two bits and leaves two
   others twice; what is left tells all the bits but the lost two, and these come back from the
   words 15 and 16 further on. -/
namespace DolphinXR.DiscIO.Lfg
open Common

abbrev Byte := BitVec 8

abbrev Word := BitVec 32

def seedSize : Nat := 17

def lfgK : Nat := 521

def lfgJ : Nat := 32

def lfgBytes : Nat := lfgK * 4

theorem mod_lfgBytes_lt (n : Nat) : n % lfgBytes < lfgBytes := Nat.mod_lt n (by decide)

abbrev Buffer := Nat → Word

abbrev Seed := Nat → Word

abbrev Data := Nat → Byte

def swap32 (x : Word) : Word :=
  x.extractLsb' 0 8 ++ x.extractLsb' 8 8 ++ x.extractLsb' 16 8 ++ x.extractLsb' 24 8

def byteOf (x : Word) (i : Nat) : Byte := x.extractLsb' (8 * i) 8

def wordAt (data : Data) (i : Nat) : Word :=
  data (i + 3) ++ data (i + 2) ++ data (i + 1) ++ data i

def xorAt (b : Buffer) (i j : Nat) : Buffer := Function.update b i (b i ^^^ b j)

def forward (b : Buffer) : Buffer :=
  (List.range' lfgJ (lfgK - lfgJ)).foldl (fun b i => xorAt b i (i - lfgJ))
    ((List.range lfgJ).foldl (fun b i => xorAt b i (i + lfgK - lfgJ)) b)

/-- The two loops go down to `startWord`. -/
def backward (startWord endWord : Nat) (b : Buffer) : Buffer :=
  let loopEnd := max lfgJ startWord
  let b := (List.range' loopEnd (min endWord lfgK - loopEnd)).reverse.foldl
    (fun b i => xorAt b i (i - lfgJ)) b
  (List.range' startWord (min endWord lfgJ - startWord)).reverse.foldl
    (fun b i => xorAt b i (i + lfgK - lfgJ)) b

def calculated (b : Buffer) (i : Nat) : Word :=
  (b (i - 17) <<< 23) ^^^ (b (i - 16) >>> 9) ^^^ b (i - 1)

/-- What can be told of a word before the shift by 18 from the word after it. -/
def unshift (x : Word) : Word := (x &&& 0xFF00FFFF#32) ||| ((x <<< 2) &&& 0x00FC0000#32)

/-- The shift by 18 where the others are by 16. -/
def shift (x : Word) : Word := (x &&& 0xFF00FFFF#32) ||| ((x >>> 2) &&& 0x00FF0000#32)

/-- A word looks like one that was shifted by 18, which leaves two bits twice. -/
def LooksShifted (x : Word) : Prop := x &&& 0x00C00000#32 = (x >>> 2) &&& 0x00C00000#32

instance (x : Word) : Decidable (LooksShifted x) := inferInstanceAs (Decidable (_ = _))

/-- The loop of `Initialize` over the words after the seed. -/
def initializeLoop (checkExistingData : Bool) : List Nat → Buffer → Option Buffer
  | [], b => some b
  | i :: rest, b =>
    if checkExistingData ∧ calculated b i &&& 0xFFFCFFFF#32 ≠ unshift (b i) then none
    else initializeLoop checkExistingData rest (Function.update b i (calculated b i))

def initializeBuffer (checkExistingData : Bool) (b : Buffer) : Option Buffer :=
  (initializeLoop checkExistingData (List.range' seedSize (lfgK - seedSize)) b).map fun b =>
    forward^[4] fun i => swap32 (shift (b i))

/-- A word of the seed, with the bits that the shift by 18 lost. -/
def restored (b : Buffer) (i : Nat) : Word :=
  unshift (b i) ||| (((b (i + 16) ^^^ b (i + 15)) <<< 9) &&& 0x00030000#32)

/-- The seed, and the buffer if the words after it are those of the seed. -/
def reinitialize (b : Buffer) : Seed × Option Buffer :=
  let b := (backward 0 lfgK)^[4] b
  let b : Buffer := fun i => swap32 (b i)
  let b := (List.range seedSize).foldl (fun b i => Function.update b i (restored b i)) b
  (fun i => swap32 (b i), initializeBuffer true b)

structure Generator where
  buffer : Buffer
  positionBytes : Nat
  position_lt : positionBytes < lfgBytes

def setSeed (seed : Seed) : Generator where
  buffer := (initializeBuffer false fun i => swap32 (seed i)).getD seed
  positionBytes := 0
  position_lt := by decide

namespace Generator

def byteAt (g : Generator) (position : Nat) : Byte := byteOf (g.buffer (position / 4)) (position % 4)

def advance (g : Generator) (position : Nat) (h : position ≤ lfgBytes) : Generator :=
  if hend : position = lfgBytes then ⟨forward g.buffer, 0, by decide⟩
  else ⟨g.buffer, position, by omega⟩

def getByte (g : Generator) : Byte × Generator :=
  (g.byteAt g.positionBytes, g.advance (g.positionBytes + 1) g.position_lt)

def getBytes (count : Nat) (g : Generator) : List Byte × Generator :=
  if _hcount : count = 0 then ([], g)
  else
    let length := min count (lfgBytes - g.positionBytes)
    have hlength : 0 < length := by have := g.position_lt; omega
    have hroom : g.positionBytes + length ≤ lfgBytes := by have := g.position_lt; omega
    let out := (List.range length).map fun i => g.byteAt (g.positionBytes + i)
    let (rest, g) := getBytes (count - length) (g.advance (g.positionBytes + length) hroom)
    (out ++ rest, g)
termination_by count

/-- The loop of `Forward`. -/
def forwardLoop (b : Buffer) (positionBytes : Nat) : Generator :=
  if h : lfgBytes ≤ positionBytes then
    forwardLoop (forward b) (positionBytes - lfgBytes)
  else ⟨b, positionBytes, Nat.not_le.1 h⟩
termination_by positionBytes
decreasing_by
  have hpos : 0 < lfgBytes := by decide
  exact Nat.sub_lt (Nat.lt_of_lt_of_le hpos h) hpos

/-- `Forward` by a number of bytes. -/
def forwardBytes (count : Nat) (g : Generator) : Generator :=
  forwardLoop g.buffer (g.positionBytes + count)

end Generator

/-- `std::copy_n` into the buffer. -/
def copyWords (data : Nat → Word) (count at' : Nat) (b : Buffer) : Buffer := fun i =>
  if at' ≤ i ∧ i < at' + count then data (i - at') else b i

/-- `GetSeed` of whole words: the seed as it is left, and the generator's buffer. -/
def getSeedWords (data : Nat → Word) (size dataOffset : Nat) (seedOut : Seed) :
    Seed × Option Buffer :=
  if size < lfgK then (seedOut, none)
  else if ¬ ∀ i, i < lfgK → LooksShifted (swap32 (data i)) then (seedOut, none)
  else
    let offsetModK := dataOffset % lfgK
    let offsetDivK := dataOffset / lfgK
    let b := copyWords data (lfgK - offsetModK) offsetModK fun _ => 0
    let b := copyWords (fun i => data (lfgK - offsetModK + i)) offsetModK 0 b
    let b := backward 0 offsetModK b
    let b := (backward 0 lfgK)^[offsetDivK] b
    let (seedOut, b) := reinitialize b
    (seedOut, b.map forward^[offsetDivK])

/-- The bytes that are the generator's, from the byte `i` of the data on. -/
def reconstruct (data : Data) : Nat → Nat → Generator → Nat
  | 0, _, _ => 0
  | left + 1, i, g =>
    let (byte, g) := g.getByte
    if byte = data i then reconstruct data left (i + 1) g + 1 else 0

/-- Differences of `size_t` values. -/
def sub64 (x y : Nat) : Nat := (x + 2 ^ 64 - y) % 2 ^ 64

def bytesToSkip (dataOffset : Nat) : Nat := sub64 (alignUp dataOffset 4 % 2 ^ 64) dataOffset

def wordOffset (dataOffset : Nat) : Nat := (dataOffset + bytesToSkip dataOffset) % 2 ^ 64 / 4

def wholeWords (data : Data) (dataOffset i : Nat) : Word :=
  wordAt data (bytesToSkip dataOffset + 4 * i)

/-- `GetSeed` of data at an address: the bytes that can be reconstructed, and the seed as it is
    left. -/
def getSeed (address : Nat) (data : Data) (size dataOffset : Nat) (seedOut : Seed) : Nat × Seed :=
  if sub64 address dataOffset % 4 ≠ 0 then (0, seedOut)
  else
    match getSeedWords (wholeWords data dataOffset) (sub64 size (bytesToSkip dataOffset) / 4)
      (wordOffset dataOffset) seedOut with
    | (seedOut, none) => (0, seedOut)
    | (seedOut, some b) =>
      (reconstruct data size 0 ⟨b, dataOffset % lfgBytes, mod_lfgBytes_lt dataOffset⟩, seedOut)

/-! ### The bits of the words -/

/-- The bits that the shift by 18 does not lose, of the words after the first. -/
def keptBits : Word := 0xFFFCFFFF#32

theorem outer_bit : ∀ i, i < 32 → (0xFF00FFFF#32).getLsbD i = decide (i < 16 ∨ 24 ≤ i) := by
  decide

theorem middle_bit : ∀ i, i < 32 →
    (0x00FF0000#32).getLsbD i = !decide (i < 16 ∨ 24 ≤ i) := by decide

theorem upper_bit : ∀ i, i < 32 →
    (0x00FC0000#32).getLsbD i = decide (18 ≤ i ∧ i < 24) := by decide

theorem lost_bit : ∀ i, i < 32 →
    (0x00030000#32).getLsbD i = decide (16 ≤ i ∧ i < 18) := by decide

theorem twice_bit : ∀ i, i < 32 →
    (0x00C00000#32).getLsbD i = decide (22 ≤ i ∧ i < 24) := by decide

theorem kept_bit : ∀ i, i < 32 → keptBits.getLsbD i = !decide (16 ≤ i ∧ i < 18) := by decide

theorem getLsbD_shift (x : Word) {i : Nat} (h : i < 32) :
    (shift x).getLsbD i = if i < 16 ∨ 24 ≤ i then x.getLsbD i else x.getLsbD (i + 2) := by
  rw [shift, BitVec.getLsbD_or, BitVec.getLsbD_and, BitVec.getLsbD_and, BitVec.getLsbD_ushiftRight,
    outer_bit i h, middle_bit i h, Nat.add_comm 2 i]
  by_cases hi : i < 16 ∨ 24 ≤ i <;> simp [hi]

theorem getLsbD_unshift (x : Word) {i : Nat} (h : i < 32) : (unshift x).getLsbD i =
    if i < 16 ∨ 24 ≤ i then x.getLsbD i else decide (18 ≤ i) && x.getLsbD (i - 2) := by
  rw [unshift, BitVec.getLsbD_or, BitVec.getLsbD_and, BitVec.getLsbD_and, BitVec.getLsbD_shiftLeft,
    outer_bit i h, upper_bit i h]
  by_cases hi : i < 16 ∨ 24 ≤ i
  · have hout : ¬ (18 ≤ i ∧ i < 24) := by omega
    simp [hi, hout]
  · have hin : (18 ≤ i ∧ i < 24) ↔ 18 ≤ i := by omega
    have htwo : ¬ i < 2 := by omega
    simp [hi, hin, h, htwo, Bool.and_comm]

theorem getLsbD_keptBits (x : Word) {i : Nat} (h : i < 32) :
    (x &&& keptBits).getLsbD i = (!decide (16 ≤ i ∧ i < 18) && x.getLsbD i) := by
  rw [BitVec.getLsbD_and, kept_bit i h, Bool.and_comm]

theorem looksShifted_iff (x : Word) :
    LooksShifted x ↔ ∀ i, 22 ≤ i → i < 24 → x.getLsbD i = x.getLsbD (i + 2) := by
  have hbit : ∀ i, i < 32 →
      (x &&& 0x00C00000#32).getLsbD i = (x.getLsbD i && decide (22 ≤ i ∧ i < 24)) ∧
      ((x >>> 2) &&& 0x00C00000#32).getLsbD i =
        (x.getLsbD (i + 2) && decide (22 ≤ i ∧ i < 24)) := by
    intro i h
    rw [BitVec.getLsbD_and, BitVec.getLsbD_and, BitVec.getLsbD_ushiftRight, twice_bit i h,
      Nat.add_comm 2 i]
    exact ⟨rfl, rfl⟩
  constructor
  · intro h i hle hlt
    obtain ⟨h1, h2⟩ := hbit i (by omega)
    have hboth := h1.symm.trans ((congrArg (fun z => BitVec.getLsbD z i) h).trans h2)
    simpa [hle, hlt] using hboth
  · intro h
    apply BitVec.eq_of_getLsbD_eq
    intro i hi
    obtain ⟨h1, h2⟩ := hbit i hi
    rw [h1, h2]
    by_cases hin : 22 ≤ i ∧ i < 24
    · rw [h i hin.1 hin.2]
    · simp [hin]

theorem looksShifted_shift (x : Word) : LooksShifted (shift x) := by
  rw [looksShifted_iff]
  intro i hle hlt
  rw [getLsbD_shift x (by omega), getLsbD_shift x (by omega), if_neg (by omega),
    if_pos (by omega)]

theorem LooksShifted.xor {x y : Word} (hx : LooksShifted x) (hy : LooksShifted y) :
    LooksShifted (x ^^^ y) := by
  rw [looksShifted_iff] at hx hy ⊢
  intro i hle hlt
  rw [BitVec.getLsbD_xor, BitVec.getLsbD_xor, hx i hle hlt, hy i hle hlt]

theorem unshift_shift (x : Word) : unshift (shift x) = x &&& keptBits := by
  apply BitVec.eq_of_getLsbD_eq
  intro i hi
  rw [getLsbD_unshift _ hi, getLsbD_keptBits x hi]
  by_cases hout : i < 16 ∨ 24 ≤ i
  · have hkept : ¬ (16 ≤ i ∧ i < 18) := by omega
    rw [if_pos hout, getLsbD_shift x hi, if_pos hout]
    simp [hkept]
  · rw [if_neg hout]
    by_cases hkept : 18 ≤ i
    · rw [getLsbD_shift x (by omega), if_neg (by omega), Nat.sub_add_cancel (by omega)]
      simp [hkept]
    · have hlost : 16 ≤ i ∧ i < 18 := by omega
      simp [hkept, hlost]

theorem shift_of_kept {x v : Word} (hv : LooksShifted v) (h : x &&& keptBits = unshift v) :
    shift x = v := by
  have hbit : ∀ i, i < 32 → ¬ (16 ≤ i ∧ i < 18) → x.getLsbD i = (unshift v).getLsbD i := by
    intro i hi hkept
    rw [← h, getLsbD_keptBits x hi]
    simp [hkept]
  apply BitVec.eq_of_getLsbD_eq
  intro i hi
  rw [getLsbD_shift x hi]
  by_cases hout : i < 16 ∨ 24 ≤ i
  · rw [if_pos hout, hbit i hi (by omega), getLsbD_unshift v hi, if_pos hout]
  · rw [if_neg hout, hbit (i + 2) (by omega) (by omega), getLsbD_unshift v (by omega)]
    by_cases hhigh : 24 ≤ i + 2
    · rw [if_pos (.inr hhigh), (looksShifted_iff v).1 hv i (by omega) (by omega)]
    · have hle : 18 ≤ i + 2 := by omega
      rw [if_neg (by omega), Nat.add_sub_cancel]
      simp [hle]

theorem shift_congr {x y : Word} (h : x &&& keptBits = y &&& keptBits) : shift x = shift y :=
  shift_of_kept (looksShifted_shift y) (h.trans (unshift_shift y).symm)

theorem shiftLeft_congr {x y : Word} (h : x &&& keptBits = y &&& keptBits) :
    x <<< 23 = y <<< 23 := by
  apply BitVec.eq_of_getLsbD_eq
  intro i hi
  rw [BitVec.getLsbD_shiftLeft, BitVec.getLsbD_shiftLeft]
  by_cases hlow : i < 23
  · simp [hlow]
  · have hbit := congrArg (fun z => BitVec.getLsbD z (i - 23)) h
    simp only [getLsbD_keptBits x (show i - 23 < 32 by omega),
      getLsbD_keptBits y (show i - 23 < 32 by omega)] at hbit
    have hkept : ¬ (16 ≤ i - 23 ∧ i - 23 < 18) := by omega
    simp only [hkept, decide_false, Bool.not_false, Bool.true_and] at hbit
    rw [hbit]

theorem restored_kept (b : Buffer) (i : Nat) : restored b i &&& keptBits = unshift (b i) := by
  apply BitVec.eq_of_getLsbD_eq
  intro j hj
  rw [getLsbD_keptBits _ hj, restored, BitVec.getLsbD_or, BitVec.getLsbD_and, lost_bit j hj]
  by_cases hlost : 16 ≤ j ∧ j < 18
  · rw [getLsbD_unshift _ hj, if_neg (by omega)]
    have hle : ¬ 18 ≤ j := by omega
    simp [hlost, hle]
  · simp [hlost]

theorem restored_eq {b : Buffer} {i : Nat} {x y y' z : Word} (hb : b i = shift x)
    (hb' : b (i + 15) = shift y) (hb'' : b (i + 16) = shift y')
    (hnext : y' = (z <<< 23) ^^^ (x >>> 9) ^^^ y) : restored b i = x := by
  apply BitVec.eq_of_getLsbD_eq
  intro j hj
  rw [restored, BitVec.getLsbD_or, BitVec.getLsbD_and, lost_bit j hj, hb, unshift_shift,
    getLsbD_keptBits x hj]
  by_cases hlost : 16 ≤ j ∧ j < 18
  · have hlow : j - 9 < 16 ∨ 24 ≤ j - 9 := by omega
    have hnine : ¬ j < 9 := by omega
    have hsplit : 9 + (j - 9) = j := by omega
    have hz : j - 9 < 23 := by omega
    have hy : (b (i + 15)).getLsbD (j - 9) = y.getLsbD (j - 9) := by
      rw [hb', getLsbD_shift y (by omega), if_pos hlow]
    have hy' : (b (i + 16)).getLsbD (j - 9) = (x.getLsbD j ^^ y.getLsbD (j - 9)) := by
      rw [hb'', getLsbD_shift y' (by omega), if_pos hlow, hnext, BitVec.getLsbD_xor,
        BitVec.getLsbD_xor, BitVec.getLsbD_shiftLeft, BitVec.getLsbD_ushiftRight, hsplit]
      simp [hz]
    rw [BitVec.getLsbD_shiftLeft, BitVec.getLsbD_xor, hy, hy']
    simp [hlost, hj, hnine]
  · simp [hlost]

theorem swap32_bit : ∀ i, i < 32 → 8 * (3 - i / 8) + i % 8 < 32 := by omega

theorem getLsbD_swap32 (x : Word) {i : Nat} (h : i < 32) :
    (swap32 x).getLsbD i = x.getLsbD (8 * (3 - i / 8) + i % 8) := by
  unfold swap32
  simp only [BitVec.getLsbD_append, BitVec.getLsbD_extractLsb']
  interval_cases i <;> simp

theorem swap32_swap32 (x : Word) : swap32 (swap32 x) = x := by
  apply BitVec.eq_of_getLsbD_eq
  intro i hi
  rw [getLsbD_swap32 _ hi, getLsbD_swap32 x (swap32_bit i hi)]
  congr 1
  omega

theorem swap32_xor (x y : Word) : swap32 (x ^^^ y) = swap32 x ^^^ swap32 y := by
  apply BitVec.eq_of_getLsbD_eq
  intro i hi
  rw [BitVec.getLsbD_xor, getLsbD_swap32 _ hi, getLsbD_swap32 x hi, getLsbD_swap32 y hi,
    BitVec.getLsbD_xor]

end DolphinXR.DiscIO.Lfg
