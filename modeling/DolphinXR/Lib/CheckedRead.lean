import Mathlib.Data.List.Basic

/- Programs that read an array through an index: a read outside of it is an error that carries the
   index, so that "never reads outside" is "never ends in an error". `InBounds` of a sequence follows
   from `InBounds` of its parts. -/
namespace DolphinXR.Lib.CheckedRead
variable {α β : Type}

def read (l : List α) (i : Nat) : Except Nat α :=
  match l[i]? with
  | some a => .ok a
  | none => .error i

/-- The elements from `start` on. -/
def readRange (l : List α) : Nat → Nat → Except Nat (List α)
  | _, 0 => .ok []
  | start, n + 1 => do
    let a ← read l start
    let rest ← readRange l (start + 1) n
    return a :: rest

def InBounds (x : Except Nat α) : Prop := ∀ i, x ≠ .error i

theorem inBounds_ok (a : α) : InBounds (.ok a) := nofun

theorem inBounds_pure (a : α) : InBounds (pure a) := nofun

theorem not_inBounds_error (i : Nat) : ¬InBounds (.error i : Except Nat α) := fun h => h i rfl

theorem ok_bind (a : α) (f : α → Except Nat β) : ((.ok a : Except Nat α) >>= f) = f a := rfl

theorem inBounds_bind_iff {x : Except Nat α} {f : α → Except Nat β} :
    InBounds (x >>= f) ↔ InBounds x ∧ ∀ a, x = .ok a → InBounds (f a) := by
  cases x with
  | ok a =>
    constructor
    · intro h
      refine ⟨inBounds_ok a, fun b hb => ?_⟩
      cases hb
      exact h
    · intro h
      exact h.2 a rfl
  | error i => exact iff_of_false (not_inBounds_error i) fun h => not_inBounds_error i h.1

theorem InBounds.bind {x : Except Nat α} {f : α → Except Nat β} (hx : InBounds x)
    (hf : ∀ a, x = .ok a → InBounds (f a)) : InBounds (x >>= f) :=
  inBounds_bind_iff.2 ⟨hx, hf⟩

theorem read_eq_ok {l : List α} {i : Nat} (h : i < l.length) : read l i = .ok l[i] := by
  rw [read, List.getElem?_eq_getElem h]

theorem read_eq_error {l : List α} {i : Nat} (h : l.length ≤ i) : read l i = .error i := by
  rw [read, List.getElem?_eq_none h]

theorem inBounds_read {l : List α} {i : Nat} (h : i < l.length) : InBounds (read l i) := by
  rw [read_eq_ok h]
  exact inBounds_ok _

theorem inBounds_readRange {l : List α} {start n : Nat} (h : start + n ≤ l.length) :
    InBounds (readRange l start n) := by
  induction n generalizing start with
  | zero => exact inBounds_ok _
  | succ n ih =>
    refine (inBounds_read (by omega)).bind fun a _ => ?_
    exact (ih (by omega)).bind fun rest _ => inBounds_pure _

end DolphinXR.Lib.CheckedRead
