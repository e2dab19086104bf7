import DolphinXR.Lib.CountMap
import DolphinXR.Lib.Transition

/- Hotkeys and the inputs they suppress (InputCommon/ControlReference/ExpressionParser.cpp). A hotkey
   whose modifiers are pressed adds a count for each pair of its final input and a modifier to a map
   that all hotkeys share, and keeps a suppressor; letting go of the suppressor takes the counts away
   again, for the inputs that the hotkey has then.

   An input is `none` where it was not found. The device environment is the function that resolves a
   qualifier, and a reading gives the states of the inputs, as rational numbers. `pressed` notes
   whether the modifiers were pressed when the hotkey was last read. -/
namespace DolphinXR.ExpressionParser
open Lib

def conditionThreshold : Rat := { num := 1, den := 2 }

structure Suppression (ι : Type) where
  finalInput : Option ι
  modifier : Option ι
  deriving DecidableEq

def Suppression.isComplete {ι : Type} (k : Suppression ι) : Bool :=
  k.finalInput.isSome && k.modifier.isSome

section
variable {ρ ι : Type} [DecidableEq ι]

abbrev Suppressions (ι : Type) := CountMap (Suppression ι) 16

/-- A control: what it is called, and the input that was found for it. -/
structure ControlExpression (ρ ι : Type) where
  qualifier : ρ
  input : Option ι := none

def isSuppressed (m : Suppressions ι) (input : Option ι) : Bool :=
  m.entries.any fun e => e.1.finalInput = input

def isSameModifier (isChild : ι → ι → Bool) : Option ι → Option ι → Bool
  | some i1, some i2 => i1 = i2 || isChild i1 i2 || isChild i2 i1
  | _, _ => false

def isSuppressedIgnoringModifiers (isChild : ι → ι → Bool) (m : Suppressions ι) (input : Option ι)
    (ignoreModifiers : List (ControlExpression ρ ι)) : Bool :=
  m.entries.any fun e =>
    e.1.finalInput = input &&
      !ignoreModifiers.any fun c => isSameModifier isChild c.input e.1.modifier

namespace ControlExpression

/-- Negative values are clamped off. -/
def getValueIgnoringSuppression (reading : ι → Rat) (c : ControlExpression ρ ι) : Rat :=
  match c.input with
  | none => 0
  | some i => if 0 < reading i then reading i else 0

def getValue (reading : ι → Rat) (m : Suppressions ι) (c : ControlExpression ρ ι) : Rat :=
  if isSuppressed m c.input then 0 else c.getValueIgnoringSuppression reading

def updateReferences (env : ρ → Option ι) (c : ControlExpression ρ ι) : ControlExpression ρ ι :=
  { c with input := env c.qualifier }

end ControlExpression

/-! ### HotkeyExpression -/

structure Hotkey (ρ ι : Type) where
  modifiers : List (ControlExpression ρ ι)
  finalInput : ControlExpression ρ ι
  suppressing : Bool := false
  isBlocked : Bool := false
  pressed : Bool := false

namespace Hotkey

def pairs (h : Hotkey ρ ι) : List (Suppression ι) :=
  h.modifiers.map fun c => ⟨h.finalInput.input, c.input⟩

/-- `MakeSuppressor`, but for the object that it returns. -/
def makeSuppressor (h : Hotkey ρ ι) (m : Suppressions ι) : Suppressions ι :=
  h.pairs.foldl (fun m k => if k.isComplete then m.add k else m) m

def dropSuppressor (h : Hotkey ρ ι) (m : Suppressions ι) : Suppressions ι :=
  h.pairs.foldl CountMap.remove m

/-- The old suppressor is destroyed once there is a new one. -/
def enableSuppression (force : Bool) (h : Hotkey ρ ι) (m : Suppressions ι) :
    Hotkey ρ ι × Suppressions ι :=
  if !h.suppressing || force then
    let m := h.makeSuppressor m
    ({ h with suppressing := true }, if h.suppressing then h.dropSuppressor m else m)
  else (h, m)

/-- `m_suppressor = {}`, and what the destructor does. -/
def disableSuppression (h : Hotkey ρ ι) (m : Suppressions ι) : Hotkey ρ ι × Suppressions ι :=
  ({ h with suppressing := false }, if h.suppressing then h.dropSuppressor m else m)

def modifiersPressed (reading : ι → Rat) (m : Suppressions ι) (h : Hotkey ρ ι) : Bool :=
  h.modifiers.all fun c => conditionThreshold < c.getValue reading m

variable (isChild : ι → ι → Bool)

/-- Where another hotkey suppressed this one, the final input has to be released first. -/
def blockedWhenPressed (reading : ι → Rat) (m : Suppressions ι) (h : Hotkey ρ ι) : Bool :=
  let isSuppressed := isSuppressedIgnoringModifiers isChild m h.finalInput.input h.modifiers
  let isBlocked :=
    if h.finalInput.getValueIgnoringSuppression reading ≤ conditionThreshold then false
    else h.isBlocked
  if isSuppressed then true else isBlocked

def getValue (reading : ι → Rat) (h : Hotkey ρ ι) (m : Suppressions ι) :
    Rat × Hotkey ρ ι × Suppressions ι :=
  let finalInputState := h.finalInput.getValueIgnoringSuppression reading
  if h.modifiersPressed reading m then
    let isBlocked := h.blockedWhenPressed isChild reading m
    let h := { h with isBlocked, pressed := true }
    if isBlocked then (0, h, m) else (finalInputState, h.enableSuppression false m)
  else
    let r := h.disableSuppression m
    (0, { r.1 with isBlocked := conditionThreshold < finalInputState, pressed := false }, r.2)

def updateReferences (env : ρ → Option ι) (h : Hotkey ρ ι) : Hotkey ρ ι :=
  { h with
    modifiers := h.modifiers.map (·.updateReferences env)
    finalInput := h.finalInput.updateReferences env }

end Hotkey

structure State (ρ ι : Type) where
  suppressions : Suppressions ι
  hotkeys : List (Hotkey ρ ι)

inductive Action (ρ ι : Type) where
  | create (modifiers : List (ControlExpression ρ ι)) (finalInput : ControlExpression ρ ι)
  | getValue (index : Nat) (reading : ι → Rat)
  | updateReferences (index : Nat) (env : ρ → Option ι)
  | destroy (index : Nat)

/-- The state after a function of one hotkey. -/
def State.onHotkey (s : State ρ ι) (index : Nat)
    (f : Hotkey ρ ι → Suppressions ι → Hotkey ρ ι × Suppressions ι) : Option (State ρ ι) :=
  s.hotkeys[index]?.map fun h =>
    let r := f h s.suppressions
    { suppressions := r.2, hotkeys := s.hotkeys.set index r.1 }

def step (isChild : ι → ι → Bool) (s : State ρ ι) : Action ρ ι → Option (State ρ ι)
  | .create modifiers finalInput =>
    some { s with hotkeys := s.hotkeys ++ [{ modifiers, finalInput }] }
  | .getValue index reading => s.onHotkey index fun h m => (h.getValue isChild reading m).2
  | .updateReferences index env => s.onHotkey index fun h m =>
      let h := h.updateReferences env
      if h.suppressing then h.enableSuppression true m else (h, m)
  | .destroy index => s.hotkeys[index]?.map fun h =>
      { suppressions := (h.disableSuppression s.suppressions).2
        hotkeys := s.hotkeys.eraseIdx index }

def system (isChild : ι → ι → Bool) : System (State ρ ι) (Action ρ ι) where
  init := fun s => s = { suppressions := CountMap.empty, hotkeys := [] }
  step := step isChild

end

end DolphinXR.ExpressionParser
