import Mathlib.Logic.Function.Basic
import DolphinXR.Lib.CheckedWord

/- The constants that stand for a division by a constant (Core/PowerPC/JitCommon/DivUtils.cpp), with
   every intermediate result checked against the width of its type. The search of
   `SignedDivisionConstants` is given a number of rounds and comes to nothing if these are used up. -/
namespace DolphinXR.JitCommon
open Lib

structure SignedMagic where
  /-- A signed word. -/
  multiplier : BitVec 32
  shift : Nat
  deriving DecidableEq

structure UnsignedMagic where
  multiplier : BitVec 32
  shift : Nat
  fast : Bool
  deriving DecidableEq

def two31 : Nat := 2147483648

/-- What the loop carries from round to round: the power and the quotients and remainders of its
    division by `anc` and by `ad`. -/
structure Search where
  p : Nat
  q1 : Nat
  r1 : Nat
  q2 : Nat
  r2 : Nat
  deriving DecidableEq

/-- Quotient and remainder of twice the number. -/
def double (q r divisor : Nat) : Except CheckedWord.Fault (Nat × Nat) := do
  let q ← CheckedWord.mul 32 q 2
  let r ← CheckedWord.mul 32 r 2
  if r ≥ divisor then
    let q ← CheckedWord.add 32 q 1
    let r ← CheckedWord.sub r divisor
    return (q, r)
  else
    return (q, r)

def Search.next (ad anc : Nat) (s : Search) : Except CheckedWord.Fault Search := do
  let p ← CheckedWord.add 31 s.p 1
  let (q1, r1) ← double s.q1 s.r1 anc
  let (q2, r2) ← double s.q2 s.r2 ad
  return { p := p, q1 := q1, r1 := r1, q2 := q2, r2 := r2 }

def search (ad anc : Nat) : Nat → Search → Except CheckedWord.Fault (Option Search)
  | 0, _ => .ok none
  | rounds + 1, s => do
    let s ← s.next ad anc
    let delta ← CheckedWord.sub ad s.r2
    if s.q1 < delta ∨ s.q1 = delta ∧ s.r1 = 0 then
      search ad anc rounds s
    else
      return some s

/-- The multiplier, which may turn negative where it becomes a signed word, and the shift. -/
def signedMagic (divisor : BitVec 32) (s : Search) : Except CheckedWord.Fault SignedMagic := do
  let q2 ← CheckedWord.add 32 s.q2 1
  let multiplier := BitVec.ofNat 32 q2
  let multiplier ← if divisor.toInt < 0 then CheckedWord.neg multiplier else pure multiplier
  let shift ← CheckedWord.sub s.p 32
  return { multiplier := multiplier, shift := shift % 2 ^ 8 }

def signedDivisionConstants (rounds : Nat) (divisor : BitVec 32) :
    Except CheckedWord.Fault (Option SignedMagic) := do
  let ad ← CheckedWord.abs divisor
  let t ← CheckedWord.sub two31 (if divisor.toInt < 0 then 1 else 0)
  let anc ← CheckedWord.sub (← CheckedWord.sub t 1) (← CheckedWord.mod t ad)
  let q1 ← CheckedWord.div two31 anc
  let r1 ← CheckedWord.sub two31 (← CheckedWord.mul 32 q1 anc)
  let q2 ← CheckedWord.div two31 ad
  let r2 ← CheckedWord.sub two31 (← CheckedWord.mul 32 q2 ad)
  match ← search ad anc rounds { p := 31, q1 := q1, r1 := r1, q2 := q2, r2 := r2 } with
  | none => return none
  | some s => return some (← signedMagic divisor s)

def unsignedDivisionConstants (divisor : BitVec 32) : Except CheckedWord.Fault UnsignedMagic := do
  let shift ← CheckedWord.sub 31 divisor.clz.toNat
  let magicDividend ← CheckedWord.shiftLeft 64 0x100000000 shift
  let multiplier ← CheckedWord.narrow 32 (← CheckedWord.div magicDividend divisor.toNat)
  let maxQuotient := multiplier >>> shift
  -- the largest dividend with the remainder that is hardest on the rounding
  let hardest ← CheckedWord.sub (← CheckedWord.mul 32 maxQuotient divisor.toNat) 1
  let product ← CheckedWord.mul 64 (← CheckedWord.add 32 multiplier 1) hardest
  let roundUp ← CheckedWord.narrow 32 (product >>> (shift + 32))
  let fast := roundUp = (← CheckedWord.sub maxQuotient 1)
  if fast then
    let multiplier ← CheckedWord.add 32 multiplier 1
    let trailingZeroes := min shift (BitVec.ofNat 32 multiplier).ctz.toNat
    let shift ← CheckedWord.sub shift trailingZeroes
    return {
      multiplier := BitVec.ofNat 32 (multiplier >>> trailingZeroes)
      shift := shift % 2 ^ 8
      fast := true
    }
  else
    return { multiplier := BitVec.ofNat 32 multiplier, shift := shift % 2 ^ 8, fast := false }

end DolphinXR.JitCommon
