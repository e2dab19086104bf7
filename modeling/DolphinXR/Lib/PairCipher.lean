import Mathlib.Data.BitVec

/- Steps of ciphers on a pair of words, none of which loses anything: words are rotated, the two
   exchange the bits of a mask, and what is made of one of them in any way is added to the other
   without carry. Also the parity of the ones in a word, which such a sum adds up. -/
namespace DolphinXR.Lib

variable {w : Nat}

theorem rotateLeft_injective (r : Nat) :
    Function.Injective fun x : BitVec w => x.rotateLeft r := by
  intro x y h
  apply BitVec.eq_of_getLsbD_eq
  intro i hi
  have hbit := congrArg (fun z : BitVec w => z.getLsbD ((i + r % w) % w)) h
  have hr : r % w < w := Nat.mod_lt _ (by omega)
  simp only [BitVec.getLsbD_rotateLeft] at hbit
  by_cases hwrap : i + r % w < w
  · rw [Nat.mod_eq_of_lt hwrap] at hbit
    have hhigh : ¬ i + r % w < r % w := by omega
    simpa [hwrap, hhigh] using hbit
  · have hmod : (i + r % w) % w = i + r % w - w := by
      rw [Nat.mod_eq_sub_mod (by omega), Nat.mod_eq_of_lt (by omega)]
    rw [hmod] at hbit
    have hlow : i + r % w - w < r % w := by omega
    have hback : w - r % w + (i + r % w - w) = i := by omega
    simpa [hlow, hback] using hbit

theorem rotateRight_injective (r : Nat) :
    Function.Injective fun x : BitVec w => x.rotateRight r := by
  intro x y h
  apply BitVec.eq_of_getLsbD_eq
  intro i hi
  have hbit := congrArg (fun z : BitVec w => z.getLsbD ((i + (w - r % w)) % w)) h
  have hr : r % w < w := Nat.mod_lt _ (by omega)
  simp only [BitVec.getLsbD_rotateRight] at hbit
  by_cases hlow : i < r % w
  · rw [Nat.mod_eq_of_lt (by omega)] at hbit
    have hinside : i + (w - r % w) < w := by omega
    have hhigh : ¬ i + (w - r % w) < w - r % w := by omega
    simpa [hinside, hhigh] using hbit
  · have hmod : (i + (w - r % w)) % w = i - r % w := by
      rw [Nat.mod_eq_sub_mod (by omega), Nat.mod_eq_of_lt (by omega)]
      omega
    rw [hmod] at hbit
    have hinside : i - r % w < w - r % w := by omega
    have hback : r % w + (i - r % w) = i := by omega
    simpa [hinside, hback] using hbit

theorem xor_right_injective (y : BitVec w) : Function.Injective fun x => x ^^^ y := by
  intro x x' h
  exact (BitVec.xor_left_inj y).1 h

def exchangeBits (mask : BitVec w) (x : BitVec w × BitVec w) : BitVec w × BitVec w :=
  (x.1 ^^^ ((x.1 ^^^ x.2) &&& mask), x.2 ^^^ ((x.1 ^^^ x.2) &&& mask))

theorem exchangeBits_exchangeBits (mask : BitVec w) (x : BitVec w × BitVec w) :
    exchangeBits mask (exchangeBits mask x) = x := by
  have hsum : (x.1 ^^^ ((x.1 ^^^ x.2) &&& mask)) ^^^ (x.2 ^^^ ((x.1 ^^^ x.2) &&& mask)) =
      x.1 ^^^ x.2 := by
    rw [BitVec.xor_assoc, ← BitVec.xor_assoc _ x.2, BitVec.xor_comm _ x.2, BitVec.xor_assoc x.2,
      BitVec.xor_self, BitVec.xor_zero]
  unfold exchangeBits
  dsimp only
  rw [hsum, BitVec.xor_assoc, BitVec.xor_assoc, BitVec.xor_self, BitVec.xor_zero, BitVec.xor_zero]

theorem exchangeBits_injective (mask : BitVec w) : Function.Injective (exchangeBits mask) :=
  Function.LeftInverse.injective (exchangeBits_exchangeBits mask)

def popcount (x : BitVec w) : Nat := (List.range w).countP x.getLsbD

theorem countP_xor {α : Type} (p q : α → Bool) (l : List α) :
    l.countP (fun a => p a ^^ q a) % 2 = (l.countP p + l.countP q) % 2 := by
  induction l with
  | nil => rfl
  | cons a l ih =>
    simp only [List.countP_cons]
    cases p a <;> cases q a <;> simp <;> omega

theorem popcount_xor (x y : BitVec w) :
    popcount (x ^^^ y) % 2 = (popcount x + popcount y) % 2 := by
  unfold popcount
  rw [← countP_xor]
  congr 2
  funext i
  exact BitVec.getLsbD_xor

end DolphinXR.Lib
