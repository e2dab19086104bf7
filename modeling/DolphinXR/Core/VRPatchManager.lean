import Mathlib.Algebra.Group.Nat.Defs
import DolphinXR.Core.VRPatchScript
import DolphinXR.Lib.Transition

/- The outputs of the running VR patches: the controls held in the Patch layer of
   `AgentInput` and the flags published to `VR::PatchFlags` (`UpdatePadHolds`,
   `UpdateCameraAnchorSource`, `UpdatePatchFlags` and `RunHooks`,
   Core/VRPatch/VRPatchManager.cpp).

   Both are refreshed only when a signature made of the generations of the scripts
   differs from the one of the last refresh. The model runs a session of one game:
   commands, the reason that blocks all patches, and the hooks of a frame, of which the
   surroundings decide what they call and whether they fail. What a command finds in the
   files, which controllers can be attached and whether the camera is engaged come with
   the action. `padSeen`, `padAttached` and `flagsSeen` are not in the code: they keep
   what the last refresh has seen. -/
namespace DolphinXR.VRPatch
open Lib

inductive PatchState where
  | off
  | waiting
  | running
  | error
  | blocked
  deriving DecidableEq

section Manager
variable {Str V : Type} [LinearOrder Str]

structure RunningPatch (Str V : Type) [LinearOrder Str] where
  id : Str
  source : Str
  script : Option (Script Str V)
  state : PatchState
  consecutiveErrors : Nat
  needsOnLoad : Bool
  anchorFields : Nat
  /-- Whether the manifest has textures to hide. -/
  hidesTextures : Bool

structure Manager (Str V : Type) [LinearOrder Str] where
  patches : List (RunningPatch Str V)
  /-- `block_reason`, or nothing. -/
  blockReason : Option Str
  /-- The next script object. -/
  nextObject : Nat
  /-- The Patch layer of `AgentInput`. -/
  held : Target → List ((Str × Str) × V)
  padHolds : Target → List ((Str × Str) × V)
  padSignature : Nat
  /-- `VR::PatchFlags`, which is sorted and without duplicates. -/
  published : Finset Str
  flagsSignature : Nat
  anchorFlags : List Str
  padSeen : List (RunningPatch Str V)
  padAttached : Target → Bool
  flagsSeen : List (RunningPatch Str V) × List Str

def RunningPatch.active (p : RunningPatch Str V) : Option (Script Str V) :=
  if p.state = .running then p.script else none

/-! ### The refresh of the outputs -/

def combine (l : List Nat) : Nat := l.foldl (fun signature x => (signature * 31 + x) % 2 ^ 64) 0

def padSignature (patches : List (RunningPatch Str V)) : Nat :=
  combine ((patches.filterMap (·.script)).map (·.padHoldsGeneration + 1) ++ [patches.length])

/-- What a patch holds on a controller. -/
def RunningPatch.holdsOn (target : Target) (p : RunningPatch Str V) : List ((Str × Str) × V) :=
  match p.active with
  | none => []
  | some s => s.padHolds.entries.filterMap fun x =>
      if x.1.target = target then some (x.1.control, x.2) else none

def holdsOn (patches : List (RunningPatch Str V)) (target : Target) : List ((Str × Str) × V) :=
  patches.flatMap (·.holdsOn target)

/-- What `AgentInput::Hold` leaves on a controller: nothing where the holds have gone, and where
    there are holds, these, if it can be attached. -/
def holdOn (attachable : Bool) (before holds held : List ((Str × Str) × V)) :
    List ((Str × Str) × V) :=
  if holds.isEmpty then (if before.isEmpty then held else [])
  else if attachable then holds else held

def updatePadHolds (attachable : Target → Bool) (m : Manager Str V) : Manager Str V :=
  if padSignature m.patches = m.padSignature then m
  else
    { m with
      padSignature := padSignature m.patches
      held := fun t => holdOn (attachable t) (m.padHolds t) (holdsOn m.patches t) (m.held t)
      padHolds := holdsOn m.patches
      padSeen := m.patches
      padAttached := attachable }

def anchorRecentFields : Nat := 300

/-- `TakeCameraAnchor` of the patches in order; the first anchor is published. -/
def takeCameraAnchors : Bool → List (RunningPatch Str V) → List (RunningPatch Str V)
  | _, [] => []
  | published, p :: rest =>
    match p.active with
    | none => p :: takeCameraAnchors published rest
    | some s =>
      let p := { p with script := some { s with cameraAnchor := false } }
      if s.cameraAnchor && !published then
        { p with anchorFields := anchorRecentFields } :: takeCameraAnchors true rest
      else { p with anchorFields := p.anchorFields - 1 } :: takeCameraAnchors published rest

variable (same : V → V → Bool) (hash : Str → Nat) (flagFor : Str → Str)

def updateCameraAnchorSource (engaged : Bool) (m : Manager Str V) : Manager Str V :=
  let patches := takeCameraAnchors false m.patches
  { m with
    patches := patches
    anchorFlags :=
      if engaged then
        (patches.filter fun p =>
          decide (p.state = .running) && decide (0 < p.anchorFields) && p.hidesTextures).map
          (flagFor ·.id)
      else [] }

def flagsSignature (patches : List (RunningPatch Str V)) (anchorFlags : List Str) : Nat :=
  combine ((patches.filterMap RunningPatch.active).map (·.flagsGeneration + 1) ++
    [patches.length] ++ anchorFlags.map hash ++ [anchorFlags.length])

def RunningPatch.flags (p : RunningPatch Str V) : Finset Str :=
  match p.active with
  | none => ∅
  | some s => s.flags

def allFlags (patches : List (RunningPatch Str V)) (anchorFlags : List Str) : Finset Str :=
  (patches.map RunningPatch.flags).foldr (· ∪ ·) anchorFlags.toFinset

def updatePatchFlags (m : Manager Str V) : Manager Str V :=
  if flagsSignature hash m.patches m.anchorFlags = m.flagsSignature then m
  else
    { m with
      flagsSignature := flagsSignature hash m.patches m.anchorFlags
      published := allFlags m.patches m.anchorFlags
      flagsSeen := (m.patches, m.anchorFlags) }

structure RefreshInput where
  frameHooks : Bool
  attachable : Target → Bool
  engaged : Bool

/-- The state that `UpdatePatchFlags` finds. -/
def refreshHolds (r : RefreshInput) (m : Manager Str V) : Manager Str V :=
  let m := updatePadHolds r.attachable m
  if r.frameHooks then updateCameraAnchorSource flagFor r.engaged m else m

def refresh (r : RefreshInput) (m : Manager Str V) : Manager Str V :=
  updatePatchFlags hash (refreshHolds flagFor r m)

/-! ### Starting and stopping -/

/-- The script object goes, with its outputs; what `on_unload` does to these is lost. -/
def stopPatch (p : RunningPatch Str V) (state : PatchState) : RunningPatch Str V :=
  { p with script := none, state := state }

def removePatch (m : Manager Str V) (id : Str) : Manager Str V :=
  { m with patches := m.patches.eraseP fun p => decide (p.id = id) }

structure SourceChoice (Str : Type) where
  enabled : Bool
  source : Str

/-- A script that has been loaded: its hooks, whether its manifest hides textures, and what its
    top level has called. -/
structure LoadedScript (Str V : Type) where
  hooks : Hook → Bool
  hidesTextures : Bool
  calls : List (ScriptCall Str V)

/-- `StartPatch`, which fails where there is no loaded script. -/
def startPatch (m : Manager Str V) (id source : Str) (loaded : Option (LoadedScript Str V)) :
    Manager Str V :=
  match m.blockReason, loaded with
  | none, some l =>
    let script : Script Str V := ⟨m.nextObject, l.hooks, .empty, 0, ∅, 0, false⟩
    { m with
      patches := m.patches ++ [⟨id, source, some (script.calls same l.calls), .running, 0, true, 0,
        l.hidesTextures⟩]
      nextObject := m.nextObject + 1 }
  | _, _ => m

def syncPatch (m : Manager Str V) (id : Str) (reload : Bool) (choice : SourceChoice Str)
    (loaded : Option (LoadedScript Str V)) : Manager Str V :=
  if !choice.enabled then removePatch m id
  else
    match m.patches.find? fun p => decide (p.id = id) with
    | none => startPatch same m id choice.source loaded
    | some running =>
      if decide (running.state = .running) && !reload && decide (running.source = choice.source) then m
      else startPatch same (removePatch m id) id choice.source loaded

/-- What `on_setting_changed` calls, in a patch that has been loaded. -/
def applySetting (id : Str) (calls : List (ScriptCall Str V)) (p : RunningPatch Str V) :
    RunningPatch Str V :=
  if decide (p.id = id) && decide (p.state = .running) && !p.needsOnLoad then
    { p with script := p.script.map (·.calls same calls) }
  else p

def maxConsecutiveErrors : Nat := 3

/-- `RunHook`, with what the hook calls and whether it returns without an error. -/
def runHook (p : RunningPatch Str V) (hook : Hook) (outcome : List (ScriptCall Str V) × Bool) :
    Bool × RunningPatch Str V :=
  match p.script with
  | none => (true, p)
  | some s =>
    if s.hooks hook then
      let p := { p with script := some (s.calls same outcome.1) }
      if outcome.2 then (true, { p with consecutiveErrors := 0 })
      else if maxConsecutiveErrors ≤ p.consecutiveErrors + 1 then (false, stopPatch p .error)
      else (false, { p with consecutiveErrors := p.consecutiveErrors + 1 })
    else (true, { p with consecutiveErrors := 0 })

def hasHook (p : RunningPatch Str V) (hook : Hook) : Bool := p.script.any (·.hooks hook)

/-- What the surroundings say at `RunHooks`. -/
structure HooksInput (Str V : Type) extends RefreshInput where
  stateLoaded : Bool
  outcome : Str → Hook → List (ScriptCall Str V) × Bool

/-- The hook that comes before `on_frame`: `on_load` once, else `on_state_loaded`. -/
def runLoadHook (f : HooksInput Str V) (p : RunningPatch Str V) : Bool × RunningPatch Str V :=
  if p.needsOnLoad then
    let loaded := runHook same p .onLoad (f.outcome p.id .onLoad)
    (loaded.1, if loaded.1 then { loaded.2 with needsOnLoad := false } else loaded.2)
  else if f.frameHooks && f.stateLoaded && hasHook p .onStateLoaded then
    runHook same p .onStateLoaded (f.outcome p.id .onStateLoaded)
  else (true, p)

/-- The turn of the loop of `RunHooks` for one patch. -/
def runPatch (f : HooksInput Str V) (p : RunningPatch Str V) : RunningPatch Str V :=
  if p.active.isNone then p
  else
    let loaded := runLoadHook same f p
    if loaded.1 && f.frameHooks && hasHook loaded.2 .onFrame then
      (runHook same loaded.2 .onFrame (f.outcome p.id .onFrame)).2
    else loaded.2

/-- `RunHooks` up to the refresh: the hooks, and the patches that have stopped are dropped. -/
def runHooks (f : HooksInput Str V) (m : Manager Str V) : Manager Str V :=
  { m with patches := (m.patches.map (runPatch same f)).filter fun p => decide (p.state = .running) }

inductive Action (Str V : Type) where
  /-- A queued command: a start, a stop, a reload or a new source. -/
  | sync (id : Str) (reload : Bool) (choice : SourceChoice Str)
      (loaded : Option (LoadedScript Str V))
  | setting (id : Str) (calls : List (ScriptCall Str V))
  | handleBlockReason (reason : Option Str) (r : RefreshInput)
  | runHooks (f : HooksInput Str V)
  /-- A frame without patches. -/
  | idle (r : RefreshInput)

/-- An action up to its refresh. -/
def prepare (m : Manager Str V) : Action Str V → Manager Str V
  | .sync id reload choice loaded => syncPatch same m id reload choice loaded
  | .setting id calls => { m with patches := m.patches.map (applySetting same id calls) }
  | .handleBlockReason reason _ =>
    if reason = m.blockReason then m
    else
      { m with
        blockReason := reason
        patches := if reason.isSome then [] else m.patches }
  | .runHooks f => runHooks same f m
  | .idle _ => m

/-- The refresh at the end of an action, if it has one. -/
def refreshInput (m : Manager Str V) : Action Str V → Option RefreshInput
  | .handleBlockReason reason r =>
    if reason ≠ m.blockReason ∧ reason.isSome then some { r with frameHooks := true } else none
  | .runHooks f => some f.toRefreshInput
  | .idle r => if m.patches.isEmpty then some { r with frameHooks := true } else none
  | _ => none

def step (m : Manager Str V) (a : Action Str V) : Manager Str V :=
  match refreshInput m a with
  | none => prepare same m a
  | some r => refresh hash flagFor r (prepare same m a)

def initialManager : Manager Str V :=
  ⟨[], none, 0, fun _ => [], fun _ => [], 0, ∅, 0, [], [], fun _ => false, ([], [])⟩

def patchSystem : System (Manager Str V) (Action Str V) where
  init m := m = initialManager
  step m a := some (step same hash flagFor m a)

end Manager
end DolphinXR.VRPatch
