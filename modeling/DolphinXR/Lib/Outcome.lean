/- Calls on a state that return a value, fail, or come to something without a
   defined result. `andThen` goes on with the value; what holds of the outcome of a
   sequence follows from what holds of its parts. -/
namespace DolphinXR.Lib

inductive Outcome (α : Type) where
  | ok (a : α)
  | failed
  | undefined
  deriving DecidableEq

variable {α β σ : Type}

def andThen (x : Outcome α × σ) (f : α → σ → Outcome β × σ) : Outcome β × σ :=
  match x with
  | (.ok a, s) => f a s
  | (.failed, s) => (.failed, s)
  | (.undefined, s) => (.undefined, s)

@[simp] theorem andThen_ok (a : α) (s : σ) (f : α → σ → Outcome β × σ) :
    andThen (.ok a, s) f = f a s := rfl

@[simp] theorem andThen_failed (s : σ) (f : α → σ → Outcome β × σ) :
    andThen (.failed, s) f = (.failed, s) := rfl

@[simp] theorem andThen_undefined (s : σ) (f : α → σ → Outcome β × σ) :
    andThen (.undefined, s) f = (.undefined, s) := rfl

/-- What holds of a failure, and of what comes after every value of the first part, holds of
    the sequence, if the first part is defined. -/
theorem andThen_fst {Q : Outcome β → Prop} {x : Outcome α × σ} {f : α → σ → Outcome β × σ}
    (hfailed : Q .failed) (hdefined : x.1 ≠ .undefined)
    (hok : ∀ a, x.1 = .ok a → Q (f a x.2).1) : Q (andThen x f).1 := by
  obtain ⟨o, s⟩ := x
  cases o with
  | ok a => exact hok a rfl
  | failed => exact hfailed
  | undefined => exact absurd rfl hdefined

end DolphinXR.Lib
