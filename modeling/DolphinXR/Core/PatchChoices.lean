import DolphinXR.Core.PatchIniRoundTrip
import DolphinXR.Lib.Transition

/- Saving the choices of a game's VR patches (`SetPatchEnabled`, `SetPatchSetting` and
   `SaveSessionSource`, VRPatch/VRPatchManager.cpp). Any number of threads call them for one game:
   each loads the section of the ini file, changes one choice and writes the section back, where
   the lock of the file covers the writing only.

   Reading and writing a file is one step and succeeds. What a patch's manifest says comes with
   the call. The files of the patches themselves are left out, and so is what a call returns. -/
namespace DolphinXR.PatchChoices
open Lib Common PatchIni

def isAlnum (c : Char) : Bool :=
  decide (48 ≤ c.toNat ∧ c.toNat ≤ 57) || decide (65 ≤ c.toNat ∧ c.toNat ≤ 90) ||
    decide (97 ≤ c.toNat ∧ c.toNat ≤ 122)

def isValidPatchId (id : Text) : Bool :=
  !(id.isEmpty || decide (64 < id.length) || id.head? == some '.') &&
    id.all fun c => isAlnum c || c == '-' || c == '_' || c == '.'

/-- What is chosen: whether a patch is enabled, or one of its settings. -/
inductive Key where
  | enabled (id : Text)
  | setting (id name : Text)
  deriving DecidableEq

inductive Choice (V : Type) where
  | enabled (id : Text) (enabled : Bool)
  | setting (id name : Text) (value : V)
  deriving DecidableEq

/-- `FindPatch` and `FindSetting`: what is listed for a setting. -/
inductive Listed (V : Type) where
  /-- No patch, or none with a manifest. -/
  | unlisted
  | unnamed
  | named (normalize : V → V)

inductive Call (V : Type) where
  | setPatchEnabled (id : Text) (enabled : Bool)
  | setPatchSetting (id name : Text) (value : V) (save : Bool) (listed : Listed V)
  | saveSessionSource (id : Text) (enable : Bool)

inductive Command (V : Type) where
  | sync (id : Text)
  | setting (id name : Text) (value : V)
  deriving DecidableEq

section
variable {V : Type}

namespace Choice

def key : Choice V → Key
  | enabled id _ => .enabled id
  | setting id name _ => .setting id name

def value : Choice V → Bool ⊕ V
  | enabled _ b => .inl b
  | setting _ _ v => .inr v

def command : Choice V → Command V
  | enabled id _ => .sync id
  | setting id name v => .setting id name v

end Choice

def lookup (values : PatchValues V) : Key → Option (Bool ⊕ V)
  | .enabled id => (values.enabled.get? id).map .inl
  | .setting id name => (values.settings.get? (toLex (id, name))).map .inr

def put (values : PatchValues V) : Choice V → PatchValues V
  | .enabled id b => values.setEnabled id b
  | .setting id name v => values.setSetting id name v

/-- The value of the session for what is chosen now is dropped. -/
def forgetKey (values : PatchValues V) : Key → PatchValues V
  | .enabled id => { values with enabled := values.enabled.eraseIf fun k => decide (k = id) }
  | .setting id name =>
    { values with settings := values.settings.eraseIf fun k => decide (k = toLex (id, name)) }

/-- A call that has been made: which of the calls that save it is, if it is one, what it chooses,
    and whether its command is queued also when another game runs. -/
structure Job (V : Type) where
  call : Option Nat
  choice : Choice V
  always : Bool

/-- Where a thread stands. The lock of the file is held at those marked so. -/
inductive Pc (V : Type) where
  | outside
  | load (job : Job V)
  | lock (job : Job V) (values : PatchValues V)
  /-- Locked. -/
  | read (job : Job V) (values : PatchValues V)
  /-- Locked. -/
  | write (job : Job V) (values : PatchValues V) (text : Text)
  /-- Locked. -/
  | unlock (job : Job V)
  | forget (job : Job V)
  | queue (call : Option Nat) (command : Command V) (always : Bool)

/-- A call that saves: what it chooses, and which had returned when it was made. -/
structure Record (V : Type) where
  choice : Choice V
  after : List Nat

structure State (V : Type) where
  /-- The user's ini file of the game. -/
  text : Text
  /-- `s_write_mutex`. -/
  writeMutex : Option Nat
  threads : Nat → Pc V
  /-- The values of the session for the game, if it has some. -/
  session : Option (PatchValues V)
  /-- The patches that have a live source. -/
  sources : List { id : Text // isValidPatchId id = true }
  gameRunning : Bool
  queued : List (Command V)
  /-- The calls that save, in the order they were made, and those that have written or returned. -/
  calls : List (Record V)
  written : List Nat
  returned : List Nat

namespace State

def goto (s : State V) (t : Nat) (pc : Pc V) : State V :=
  { s with threads := Function.update s.threads t pc }

def save (s : State V) (t : Nat) (choice : Choice V) (always : Bool) : State V :=
  { s.goto t (.load ⟨some s.calls.length, choice, always⟩) with
    calls := s.calls ++ [⟨choice, s.returned⟩] }

end State

def begin (s : State V) (t : Nat) : Call V → State V
  | .setPatchEnabled id enabled =>
    if isValidPatchId id then s.save t (.enabled id enabled) false else s
  | .setPatchSetting id name value save listed =>
    if !isValidPatchId id || name.isEmpty then s
    else if save then
      match listed with
      | .unlisted => s.save t (.setting id name value) false
      | .unnamed => s
      | .named normalize => s.save t (.setting id name (normalize value)) false
    else s.goto t (.forget ⟨none, .setting id name value, false⟩)
  | .saveSessionSource id enable =>
    if s.sources.any fun x => decide (x.1 = id) then
      let s := { s with sources := s.sources.filter fun x => decide (x.1 ≠ id) }
      if enable then s.save t (.enabled id true) true
      else s.goto t (.queue none (.sync id) true)
    else s

variable (n : Numbers V)

def advance (s : State V) (t : Nat) : Pc V → Option (State V)
  | .outside => none
  | .load job => some (s.goto t (.lock job (put (loadUserPatchValues n s.text) job.choice)))
  | .lock job values =>
    if s.writeMutex = none then some { s.goto t (.read job values) with writeMutex := some t }
    else none
  | .read job values => some (s.goto t (.write job values s.text))
  | .write job values text =>
    some { s.goto t (.unlock job) with
      text := replacePatchSection n text values
      written := job.call.toList ++ s.written }
  | .unlock job => some { s.goto t (.forget job) with writeMutex := none }
  | .forget job =>
    some { s.goto t (.queue job.call job.choice.command job.always) with
      session := s.session.map (forgetKey · job.choice.key) }
  | .queue call command always =>
    some { s.goto t .outside with
      queued := if s.gameRunning || always then s.queued ++ [command] else s.queued
      returned := call.toList ++ s.returned }

inductive Action (V : Type) where
  | begin (t : Nat) (call : Call V)
  | advance (t : Nat)
  | gameChanged (running : Bool)

def step (s : State V) : Action V → Option (State V)
  | .begin t call =>
    match s.threads t with
    | .outside => some (begin s t call)
    | _ => none
  | .advance t => advance n s t (s.threads t)
  | .gameChanged running => some { s with gameRunning := running }

/-- Any number of threads, before the first call. -/
def choices (initial : Text) : System (State V) (Action V) where
  init s := s.text = initial ∧ s.writeMutex = none ∧ (∀ t, s.threads t = .outside) ∧
    s.calls = [] ∧ s.written = [] ∧ s.returned = []
  step := step n

end

end DolphinXR.PatchChoices
