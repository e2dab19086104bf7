import Mathlib.Algebra.Group.Nat.Defs

/- Word arithmetic that is meant not to wrap: numbers stand for unsigned words of `w` bits, and an
   operation whose exact result is not one of them, or a division by zero, is a fault instead. -/
namespace DolphinXR.Lib.CheckedWord

inductive Fault where
  | overflow
  | divisionByZero
  deriving DecidableEq

def narrow (w n : Nat) : Except Fault Nat := if n < 2 ^ w then .ok n else .error .overflow

def add (w a b : Nat) : Except Fault Nat := narrow w (a + b)

def sub (a b : Nat) : Except Fault Nat := if b ≤ a then .ok (a - b) else .error .overflow

def mul (w a b : Nat) : Except Fault Nat := narrow w (a * b)

def div (a b : Nat) : Except Fault Nat := if b = 0 then .error .divisionByZero else .ok (a / b)

def mod (a b : Nat) : Except Fault Nat := if b = 0 then .error .divisionByZero else .ok (a % b)

def shiftLeft (w a n : Nat) : Except Fault Nat := narrow w (a * 2 ^ n)

def neg {w : Nat} (a : BitVec w) : Except Fault (BitVec w) :=
  if a = BitVec.intMin w then .error .overflow else .ok (-a)

def abs {w : Nat} (a : BitVec w) : Except Fault Nat :=
  if a = BitVec.intMin w then .error .overflow else .ok a.toInt.natAbs

section
variable {α β : Type} {w a b n : Nat}

@[simp] theorem ok_bind (x : α) (f : α → Except Fault β) :
    ((.ok x : Except Fault α) >>= f) = f x := rfl

theorem narrow_eq_ok (h : n < 2 ^ w) : narrow w n = .ok n := if_pos h

theorem add_eq_ok (h : a + b < 2 ^ w) : add w a b = .ok (a + b) := if_pos h

theorem sub_eq_ok (h : b ≤ a) : sub a b = .ok (a - b) := if_pos h

theorem mul_eq_ok (h : a * b < 2 ^ w) : mul w a b = .ok (a * b) := if_pos h

theorem div_eq_ok (h : 0 < b) : div a b = .ok (a / b) := if_neg (Nat.ne_of_gt h)

theorem mod_eq_ok (h : 0 < b) : mod a b = .ok (a % b) := if_neg (Nat.ne_of_gt h)

theorem shiftLeft_eq_ok (h : a * 2 ^ n < 2 ^ w) : shiftLeft w a n = .ok (a * 2 ^ n) := if_pos h

theorem neg_eq_ok {x : BitVec w} (h : x ≠ BitVec.intMin w) : neg x = .ok (-x) := if_neg h

theorem abs_eq_ok {x : BitVec w} (h : x ≠ BitVec.intMin w) : abs x = .ok x.toInt.natAbs := if_neg h

end
end DolphinXR.Lib.CheckedWord
