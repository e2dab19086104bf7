import Mathlib.Data.Finset.Basic
import Mathlib.Data.Prod.Lex
import DolphinXR.Lib.OrderedMap

/- The outputs of a VR patch script: the controls it holds and the flags it raises
   (`ScriptContext`, `SetHold`, `ClearHolds` and `SetFlag`, Core/VRPatch). Each has a
   generation, which is counted up when the output changes and begins at zero with each
   script object. Strings stand for themselves only by their order, and two values held
   are compared by `same`, as doubles are. Generations are counted without bound; the
   code's are these modulo 2^64.

   `Evolves` is what the generations promise: while an object lives, they do not go down,
   and as long as one stays what it is, so does its output. -/
namespace DolphinXR.VRPatch
open Lib

inductive PadDevice where
  | gcPad
  | wiimote
  | attachment
  deriving DecidableEq

namespace PadDevice

def index : PadDevice → Nat
  | gcPad => 0
  | wiimote => 1
  | attachment => 2

theorem index_injective : Function.Injective index := by
  intro a b h
  cases a <;> cases b <;> first | rfl | cases h

instance : LinearOrder PadDevice := LinearOrder.lift' index index_injective

end PadDevice

abbrev Target := PadDevice × Nat

/-- `PadHoldKey`: device, port, group and control, in the order of tuples. -/
abbrev PadHoldKey (Str : Type) := PadDevice ×ₗ Nat ×ₗ Str ×ₗ Str

section Script
variable {Str V : Type} [LinearOrder Str]

def PadHoldKey.make (target : Target) (control : Str × Str) : PadHoldKey Str :=
  toLex (target.1, toLex (target.2, toLex control))

def PadHoldKey.target (key : PadHoldKey Str) : Target := ((ofLex key).1, (ofLex (ofLex key).2).1)

def PadHoldKey.control (key : PadHoldKey Str) : Str × Str := ofLex (ofLex (ofLex key).2).2

inductive Hook where
  | onLoad
  | onStateLoaded
  | onFrame
  | onUnload
  deriving DecidableEq

structure Script (Str V : Type) [LinearOrder Str] where
  /-- Which script object it is. -/
  object : Nat
  hooks : Hook → Bool
  padHolds : OrderedMap (PadHoldKey Str) V
  padHoldsGeneration : Nat
  flags : Finset Str
  flagsGeneration : Nat
  cameraAnchor : Bool

/-- The calls of a script that change an output, after its names have been resolved. -/
inductive ScriptCall (Str V : Type) where
  /-- `SetHold` with the controls that the name stands for. -/
  | setHold (target : Target) (controls : List (Str × Str)) (twoAxes : Bool) (first second : V)
      (release : Bool)
  | clearHolds (target : Target)
  | setFlag (name : Str) (active : Bool)
  | clearFlags
  | setCameraAnchor

namespace Script
variable (same : V → V → Bool)

/-- The part of `SetHold` for one control: the holds, and whether they have changed. -/
def holdControl (target : Target) (twoAxes : Bool) (first second : V) (release : Bool)
    (x : OrderedMap (PadHoldKey Str) V × Bool) (control : (Str × Str) × Nat) :
    OrderedMap (PadHoldKey Str) V × Bool :=
  let key := PadHoldKey.make target control.1
  if release then
    if (x.1.get? key).isSome then (x.1.eraseIf fun k => decide (k = key), true) else x
  else
    let value := if twoAxes && control.2 == 1 then second else first
    match x.1.get? key with
    | none => (x.1.emplace key value, true)
    | some old => if same old value then x else (x.1.assign key value, true)

def setHold (s : Script Str V) (target : Target) (controls : List (Str × Str)) (twoAxes : Bool)
    (first second : V) (release : Bool) : Script Str V :=
  let held := controls.zipIdx.foldl (holdControl same target twoAxes first second release)
    (s.padHolds, false)
  { s with
    padHolds := held.1
    padHoldsGeneration := if held.2 then s.padHoldsGeneration + 1 else s.padHoldsGeneration }

def clearHolds (s : Script Str V) (target : Target) : Script Str V :=
  let erased := s.padHolds.entries.any fun x => decide (x.1.target = target)
  { s with
    padHolds := s.padHolds.eraseIf fun k => decide (k.target = target)
    padHoldsGeneration := if erased then s.padHoldsGeneration + 1 else s.padHoldsGeneration }

def setFlag (s : Script Str V) (name : Str) (active : Bool) : Script Str V :=
  if decide (name ∈ s.flags) = active then s
  else
    { s with
      flags := if active then insert name s.flags else s.flags.erase name
      flagsGeneration := s.flagsGeneration + 1 }

def clearFlags (s : Script Str V) : Script Str V :=
  if s.flags = ∅ then s else { s with flags := ∅, flagsGeneration := s.flagsGeneration + 1 }

def call (s : Script Str V) : ScriptCall Str V → Script Str V
  | .setHold target controls twoAxes first second release =>
    s.setHold same target controls twoAxes first second release
  | .clearHolds target => s.clearHolds target
  | .setFlag name active => s.setFlag name active
  | .clearFlags => s.clearFlags
  | .setCameraAnchor => { s with cameraAnchor := true }

/-- What a function of the script has done when it returns or stops with an error. -/
def calls (s : Script Str V) (l : List (ScriptCall Str V)) : Script Str V := l.foldl (call same) s

/-! ### What the generations promise -/

/-- `s'` is the same object at a later time. -/
structure Evolves (s s' : Script Str V) : Prop where
  object : s'.object = s.object
  padHolds_le : s.padHoldsGeneration ≤ s'.padHoldsGeneration
  padHolds_eq : s'.padHoldsGeneration = s.padHoldsGeneration → s'.padHolds = s.padHolds
  flags_le : s.flagsGeneration ≤ s'.flagsGeneration
  flags_eq : s'.flagsGeneration = s.flagsGeneration → s'.flags = s.flags

theorem Evolves.refl (s : Script Str V) : Evolves s s :=
  ⟨rfl, Nat.le_refl _, fun _ => rfl, Nat.le_refl _, fun _ => rfl⟩

theorem Evolves.trans {s s' s'' : Script Str V} (h : Evolves s s') (h' : Evolves s' s'') :
    Evolves s s'' where
  object := h'.object.trans h.object
  padHolds_le := Nat.le_trans h.padHolds_le h'.padHolds_le
  padHolds_eq heq := by
    have hle := h.padHolds_le
    have hle' := h'.padHolds_le
    rw [h'.padHolds_eq (by omega), h.padHolds_eq (by omega)]
  flags_le := Nat.le_trans h.flags_le h'.flags_le
  flags_eq heq := by
    have hle := h.flags_le
    have hle' := h'.flags_le
    rw [h'.flags_eq (by omega), h.flags_eq (by omega)]

structure Counted (s : Script Str V) : Prop where
  padHolds : s.padHoldsGeneration = 0 → s.padHolds = .empty
  flags : s.flagsGeneration = 0 → s.flags = ∅

theorem Counted.evolve {s s' : Script Str V} (h : Counted s) (hevolves : Evolves s s') :
    Counted s' where
  padHolds hzero := by
    have hle := hevolves.padHolds_le
    rw [hevolves.padHolds_eq (by omega), h.padHolds (by omega)]
  flags hzero := by
    have hle := hevolves.flags_le
    rw [hevolves.flags_eq (by omega), h.flags (by omega)]

variable {same : V → V → Bool}

theorem holdControl_foldl {target : Target} {twoAxes : Bool} {first second : V} {release : Bool} :
    ∀ (controls : List ((Str × Str) × Nat)) (x : OrderedMap (PadHoldKey Str) V × Bool),
    (controls.foldl (holdControl same target twoAxes first second release) x).2 = false →
    controls.foldl (holdControl same target twoAxes first second release) x = x
  | [], _, _ => rfl
  | control :: rest, x, h => by
    have hrest := holdControl_foldl rest _ h
    rw [List.foldl_cons, hrest] at h ⊢
    unfold holdControl at h ⊢
    dsimp only at h ⊢
    split at h
    case isTrue hrelease =>
      rw [if_pos hrelease]
      split at h
      · cases h
      case isFalse habsent => rw [if_neg habsent]
    case isFalse hhold =>
      rw [if_neg hhold]
      cases hold : x.1.get? (PadHoldKey.make target control.1) with
      | none =>
        simp only [hold] at h
        cases h
      | some old =>
        simp only [hold] at h ⊢
        by_cases hsame : same old (if twoAxes && control.2 == 1 then second else first) = true
        · rw [if_pos hsame]
        · rw [if_neg hsame] at h
          cases h

theorem setHold_evolves (s : Script Str V) (target : Target) (controls : List (Str × Str))
    (twoAxes : Bool) (first second : V) (release : Bool) :
    Evolves s (s.setHold same target controls twoAxes first second release) := by
  refine ⟨rfl, ?_, fun heq => ?_, Nat.le_refl _, fun _ => rfl⟩
  · simp only [setHold]
    split <;> omega
  · simp only [setHold] at heq ⊢
    split at heq
    · omega
    case isFalse hchanged => rw [holdControl_foldl _ _ (Bool.eq_false_iff.2 hchanged)]

theorem clearHolds_evolves (s : Script Str V) (target : Target) :
    Evolves s (s.clearHolds target) := by
  refine ⟨rfl, ?_, fun heq => ?_, Nat.le_refl _, fun _ => rfl⟩
  · simp only [clearHolds]
    split <;> omega
  · simp only [clearHolds] at heq ⊢
    split at heq
    · omega
    case isFalse herased =>
      apply OrderedMap.ext
      refine List.filter_eq_self.2 fun x hx => ?_
      by_contra htarget
      exact herased (List.any_eq_true.2 ⟨x, hx, by simpa using htarget⟩)

theorem setFlag_evolves (s : Script Str V) (name : Str) (active : Bool) :
    Evolves s (s.setFlag name active) := by
  unfold setFlag
  split
  · exact .refl s
  · exact ⟨rfl, Nat.le_refl _, fun _ => rfl, Nat.le_succ _, fun heq => absurd heq (by simp)⟩

theorem clearFlags_evolves (s : Script Str V) : Evolves s s.clearFlags := by
  unfold clearFlags
  split
  · exact .refl s
  · exact ⟨rfl, Nat.le_refl _, fun _ => rfl, Nat.le_succ _, fun heq => absurd heq (by simp)⟩

theorem call_evolves (s : Script Str V) (c : ScriptCall Str V) : Evolves s (s.call same c) := by
  cases c with
  | setHold => exact setHold_evolves ..
  | clearHolds => exact clearHolds_evolves ..
  | setFlag => exact setFlag_evolves ..
  | clearFlags => exact clearFlags_evolves s
  | setCameraAnchor => exact ⟨rfl, Nat.le_refl _, fun _ => rfl, Nat.le_refl _, fun _ => rfl⟩

theorem calls_evolves (s : Script Str V) (l : List (ScriptCall Str V)) :
    Evolves s (s.calls same l) := by
  induction l generalizing s with
  | nil => exact .refl s
  | cons c l ih => exact (call_evolves s c).trans (ih _)

end Script
end Script
end DolphinXR.VRPatch
