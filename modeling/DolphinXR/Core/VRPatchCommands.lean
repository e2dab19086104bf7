import DolphinXR.Core.VRPatchManager

/- The commands of the VR patches (Core/VRPatch/VRPatchManager.cpp). Any thread queues them under
   the mutex of the manager; the CPU thread takes them in `RunFrame` and `ApplyPendingNow`, and a
   game change drops them. That there is work is told by a flag that `RunFrame` reads without the
   mutex, and what is pending by two counters.

   The CPU thread stands at one of the places between its sections under the mutex, where commands
   may be queued. What the patches do is that of the manager; what is found in files, and what the
   hooks do, comes with the step. A command has its place in the order of queueing. `queued`,
   `applied` and `dropped` are not in the code: they keep all commands, and what has become of
   them. Counters are counted without bound; the code's are these modulo 2^64. -/
namespace DolphinXR.VRPatch.Commands
open Lib

inductive Command (Str V : Type) where
  | sync (id : Str) (reload : Bool)
  | syncAll (reload : Bool)
  | setting (id name : Str) (value : V)
  deriving DecidableEq

section
variable {Str V : Type} [LinearOrder Str]

/-- Where the CPU thread stands; `frame` is whether it runs a frame. -/
inductive Cpu (Str V : Type) where
  | idle
  | blockReason
  /-- No reason blocks the patches any more: they are to start again. -/
  | unblocked
  | take (frame : Bool)
  /-- Taken are the commands that come before a place in the order. -/
  | apply (frame : Bool) (commands : List (Nat × Command Str V)) (taken : Nat)
  | applied (frame : Bool) (taken : Nat)
  | hooks (frame : Bool)
  | finish
  /-- The game goes, and the next one comes if there is one. -/
  | unload (next : Option (Option Str))
  | load (game : Option Str)
  | loaded

structure State (Str V : Type) [LinearOrder Str] where
  manager : Manager Str V
  /-- `game_id`, or none. -/
  gameId : Option Str
  gameRunning : Bool
  commands : List (Nat × Command Str V)
  queuedCommands : Nat
  appliedCommands : Nat
  hasWork : Bool
  cpu : Cpu Str V
  queued : List (Command Str V)
  applied : List (Nat × Command Str V)
  dropped : List Nat

/-- What the CPU thread finds at a step: why patches are blocked, the ids of all patches and their
    files, and what hooks do. -/
structure Found (Str V : Type) where
  reason : Option Str
  refresh : RefreshInput
  ids : List Str
  choice : Str → SourceChoice Str
  loaded : Str → Option (LoadedScript Str V)
  /-- What `on_setting_changed` of a patch calls for a setting's new value. -/
  calls : Str → Str → V → List (ScriptCall Str V)
  stateLoaded : Bool
  outcome : Str → Hook → List (ScriptCall Str V) × Bool

def queue (command : Command Str V) (s : State Str V) : State Str V :=
  if s.gameRunning then
    { s with
      commands := s.commands ++ [(s.queuedCommands, command)]
      queuedCommands := s.queuedCommands + 1
      hasWork := true
      queued := s.queued ++ [command] }
  else s

def hasPendingChanges (s : State Str V) : Bool := decide (s.appliedCommands < s.queuedCommands)

/-- The commands are dropped by a game change. -/
def drop (s : State Str V) : State Str V :=
  { s with
    commands := []
    appliedCommands := s.queuedCommands
    dropped := s.dropped ++ s.commands.map Prod.fst }

variable (same : V → V → Bool) (hash : Str → Nat) (flagFor : Str → Str)

def syncFound (f : Found Str V) (reload : Bool) (m : Manager Str V) (id : Str) : Manager Str V :=
  syncPatch same m id reload (f.choice id) (f.loaded id)

/-- The turn of the loop of `ApplyCommands`. -/
def applyCommand (f : Found Str V) (m : Manager Str V) : Command Str V → Manager Str V
  | .sync id reload => syncFound same f reload m id
  | .syncAll reload => f.ids.foldl (syncFound same f reload) m
  | .setting id name value =>
    { m with patches := m.patches.map (applySetting same id (f.calls id name value)) }

def runHooksFound (f : Found Str V) (frame : Bool) (m : Manager Str V) : Manager Str V :=
  if frame && m.patches.isEmpty then VRPatch.step same hash flagFor m (.idle f.refresh)
  else
    VRPatch.step same hash flagFor m
      (.runHooks { f.refresh with
        frameHooks := frame
        stateLoaded := f.stateLoaded
        outcome := f.outcome })

def unloadPatches (m : Manager Str V) : Manager Str V :=
  { initialManager with nextObject := m.nextObject, blockReason := m.blockReason }

/-- The CPU thread's next step. -/
def advance (f : Found Str V) (s : State Str V) : State Str V :=
  match s.cpu with
  | .idle => s
  | .blockReason =>
    { s with
      manager := VRPatch.step same hash flagFor s.manager (.handleBlockReason f.reason f.refresh)
      cpu := if f.reason ≠ s.manager.blockReason ∧ f.reason = none then .unblocked else .take true }
  | .unblocked => { queue (.syncAll true) s with cpu := .take true }
  | .take frame =>
    { s with
      commands := []
      cpu :=
        if s.commands.isEmpty then .hooks frame else .apply frame s.commands s.queuedCommands }
  | .apply frame [] taken => { s with cpu := .applied frame taken }
  | .apply frame (command :: rest) taken =>
    { s with
      manager := applyCommand same f s.manager command.2
      cpu := .apply frame rest taken
      applied := s.applied ++ [command] }
  | .applied frame taken =>
    { s with appliedCommands := max s.appliedCommands taken, cpu := .hooks frame }
  | .hooks frame =>
    { s with manager := runHooksFound same hash flagFor f frame s.manager, cpu := .finish }
  | .finish =>
    { s with
      hasWork := !s.manager.patches.isEmpty || !s.commands.isEmpty
      cpu := .idle }
  | .unload next =>
    { drop s with
      manager := unloadPatches s.manager
      gameRunning := false
      hasWork := false
      cpu := match next with
        | none => .idle
        | some game => .load game }
  | .load game =>
    { drop s with
      manager := { s.manager with blockReason := none, padSignature := 0 }
      gameId := game
      gameRunning := game.isSome
      cpu := if game.isSome then .loaded else .idle }
  | .loaded => { queue (.syncAll true) s with cpu := .idle }

inductive Action (Str V : Type) where
  /-- Any thread. -/
  | queue (command : Command Str V)
  | runFrame
  /-- Whether emulation is paused, with address translation on. -/
  | applyPendingNow (paused : Bool)
  | onGameLoaded (game : Option Str)
  | onGameUnloaded
  | advance (f : Found Str V)

def step (s : State Str V) : Action Str V → Option (State Str V)
  | .queue command => some (queue command s)
  | .advance f => some (advance same hash flagFor f s)
  | action =>
    match s.cpu with
    | .idle =>
      match action with
      | .runFrame => some (if s.hasWork then { s with cpu := .blockReason } else s)
      | .applyPendingNow paused =>
        some (if hasPendingChanges s && paused then { s with cpu := .take false } else s)
      | .onGameLoaded game =>
        some { s with
          cpu := if s.manager.patches.isEmpty then .load game else .unload (some game) }
      | _ => some { s with cpu := .unload none }
    | _ => none

def commandSystem : System (State Str V) (Action Str V) where
  init s := s = ⟨initialManager, none, false, [], 0, 0, false, .idle, [], [], []⟩
  step := step same hash flagFor

end

end DolphinXR.VRPatch.Commands
