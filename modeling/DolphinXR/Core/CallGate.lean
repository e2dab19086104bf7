import DolphinXR.Lib.Transition
import Mathlib.Logic.Function.Basic

/- The call gate of the agent server (AgentServer/CallGate.cpp): one tool call runs at a time.
   A call that finds another one running waits on a condition variable; once the running call
   lets emulation run, the calls that wait for it and later ones are refused.

   Threads interleave between any two of their steps: taking the lock, what is read or written
   under it, giving it back, and notifying. Waiting gives the lock back and takes it again
   after waking up, for which there is no need of a notification. Tickets stay on the thread
   that entered. -/
namespace DolphinXR.CallGate
open Lib

/-- What `Enter` is called with. -/
structure Request where
  tool : String
  requestId : String
  maxWait : Int
  deriving DecidableEq

/-- `CallGate::Call`, and the calls during which it has entered a wait. -/
structure Call where
  tool : String
  requestId : String
  start : Int
  runsEmulation : Bool
  cancelled : Bool
  waitedFor : List Nat
  deriving DecidableEq

structure RunningCall where
  tool : String
  seconds : Int
  runsEmulation : Bool
  cancelRequested : Bool
  deriving DecidableEq

/-- Where a thread stands. The lock is held at those marked so. -/
inductive Pc where
  | outside
  | enterLock (request : Request)
  /-- Locked: the clock is read for the deadline. -/
  | enterClock (request : Request)
  /-- Locked: is a call running, and does it run emulation? -/
  | enterCheck (request : Request) (deadline : Int)
  /-- Locked: it did not; is the deadline over? -/
  | enterTime (request : Request) (deadline : Int)
  | waiting (request : Request) (deadline : Int)
  | woken (request : Request) (deadline : Int)
  | releaseLock (call : Nat)
  /-- Locked: the call ends. -/
  | releaseReset (call : Nat)
  | markLock
  | cancelLock (requestId : Option String)
  /-- Locked: the call that was running when the lock was taken. -/
  | cancelStore (requestId : Option String) (found : Option Nat)
  | describeLock
  /-- Locked. -/
  | describe
  /-- Locked: the lock is given back, after which the waiting threads may be notified. -/
  | unlock (notify : Bool)
  | notify
  deriving DecidableEq

namespace Pc

def locked : Pc → Bool
  | enterClock _ => true
  | enterCheck _ _ => true
  | enterTime _ _ => true
  | releaseReset _ => true
  | cancelStore _ _ => true
  | describe => true
  | unlock _ => true
  | _ => false

/-- `notify_all` wakes what waits. -/
def wake : Pc → Pc
  | waiting request deadline => woken request deadline
  | pc => pc

end Pc

/-- A thread: the gated call that runs on it (`t_call`), its ticket, what `Enter` or `GetRunning`
    last described, and the calls during which the call it is entering has entered a wait. -/
structure Thread where
  pc : Pc
  tCall : Option Nat
  ticket : Option Nat
  described : Option RunningCall
  waitedFor : List Nat

structure State where
  mutex : Option Nat
  running : Option Nat
  calls : List Call
  clock : Int
  threads : Nat → Thread

namespace State

def setThread (s : State) (t : Nat) (thread : Thread) : State :=
  { s with threads := Function.update s.threads t thread }

def goto (s : State) (t : Nat) (pc : Pc) : State := s.setThread t { s.threads t with pc }

def setCall (s : State) (c : Nat) (f : Call → Call) : State :=
  { s with calls := s.calls.modify c f }

def runsEmulation (s : State) (c : Nat) : Bool := s.calls[c]?.any (·.runsEmulation)

/-- `NotifyWaiters` and the end of `Release`. -/
def notifyAll (s : State) : State :=
  { s with threads := fun t => { s.threads t with pc := (s.threads t).pc.wake } }

/-- `Describe` of the running call. -/
def describe (s : State) : Option RunningCall :=
  (s.running.bind (s.calls[·]?)).map fun call =>
    ⟨call.tool, s.clock - call.start, call.runsEmulation, call.cancelled⟩

/-- The gate is free: the call is made, and runs. -/
def letIn (s : State) (t : Nat) (request : Request) : State :=
  let c := s.calls.length
  let thread := s.threads t
  { s with
    calls := s.calls ++
      [⟨request.tool, request.requestId, s.clock, false, false, thread.waitedFor⟩]
    running := some c
    threads := Function.update s.threads t
      { thread with pc := .unlock false, tCall := some c, ticket := some c, waitedFor := [] } }

def refuse (s : State) (t : Nat) : State :=
  s.setThread t { s.threads t with pc := .unlock false, described := s.describe, waitedFor := [] }

def cancels (s : State) (requestId : Option String) (c : Nat) : Bool :=
  requestId.all fun id => s.calls[c]?.any (·.requestId == id)

end State

inductive Operation where
  | enter (request : Request)
  | release
  | markCallRunsEmulation
  | cancel (requestId : Option String)
  | getRunning
  deriving DecidableEq

/-- The begin of an operation, up to where it takes the lock. -/
def begin (s : State) (t : Nat) : Operation → State
  | .enter request => s.goto t (.enterLock request)
  | .release =>
    match (s.threads t).ticket with
    | none => s
    | some c =>
      let thread := s.threads t
      s.setThread t
        { thread with
          pc := .releaseLock c
          tCall := if thread.tCall = some c then none else thread.tCall }
  | .markCallRunsEmulation =>
    match (s.threads t).tCall with
    | none => s
    | some c =>
      if s.runsEmulation c then s
      else (s.setCall c fun call => { call with runsEmulation := true }).goto t .markLock
  | .cancel requestId => s.goto t (.cancelLock requestId)
  | .getRunning => s.goto t .describeLock

/-- Where a thread goes on that gets the lock. -/
def withLock (s : State) : Pc → Option Pc
  | .enterLock request => some (.enterClock request)
  | .woken request deadline => some (.enterCheck request deadline)
  | .releaseLock c => some (.releaseReset c)
  | .markLock => some (.unlock true)
  | .cancelLock requestId => some (.cancelStore requestId s.running)
  | .describeLock => some .describe
  | _ => none

/-- The next step of a thread, other than taking the lock. -/
def advance (s : State) (t : Nat) : Pc → Option State
  | .enterClock request => some (s.goto t (.enterCheck request (s.clock + request.maxWait)))
  | .enterCheck request deadline =>
    match s.running with
    | none => some (s.letIn t request)
    | some c =>
      if s.runsEmulation c then some (s.refuse t)
      else some (s.goto t (.enterTime request deadline))
  | .enterTime request deadline =>
    if deadline ≤ s.clock then some (s.refuse t)
    else
      let thread := s.threads t
      some { s.setThread t
        { thread with
          pc := .waiting request deadline
          waitedFor := s.running.toList ++ thread.waitedFor } with mutex := none }
  | .releaseReset c =>
    some { s.setThread t { s.threads t with pc := .unlock true, ticket := none } with
      running := if s.running = some c then none else s.running }
  | .cancelStore requestId _ =>
    match s.running with
    | none => some (s.goto t (.unlock false))
    | some c =>
      if s.cancels requestId c then
        some ((s.setCall c fun call => { call with cancelled := true }).goto t (.unlock false))
      else some (s.goto t (.unlock false))
  | .describe =>
    some (s.setThread t { s.threads t with pc := .unlock false, described := s.describe })
  | .unlock notify =>
    some { s.goto t (if notify then .notify else .outside) with mutex := none }
  | .notify => some (s.goto t .outside).notifyAll
  | _ => none

inductive Action where
  | tick (d : Nat)
  | begin (t : Nat) (operation : Operation)
  | lock (t : Nat)
  | advance (t : Nat)
  /-- A waiting thread wakes up: the time is over, or for no reason. -/
  | wake (t : Nat)
  deriving DecidableEq

def step (s : State) : Action → Option State
  | .tick d => some { s with clock := s.clock + d }
  | .begin t operation =>
    if (s.threads t).pc = .outside then some (begin s t operation) else none
  | .lock t =>
    if s.mutex = none then
      (withLock s (s.threads t).pc).map fun pc => { s.goto t pc with mutex := some t }
    else none
  | .advance t => advance s t (s.threads t).pc
  | .wake t =>
    match (s.threads t).pc with
    | .waiting request deadline => some (s.goto t (.woken request deadline))
    | _ => none

/-- Any number of threads at a gate where no call has entered. -/
def gate : System State Action where
  init s := s.mutex = none ∧ s.running = none ∧ s.calls = [] ∧
    ∀ t, s.threads t = ⟨.outside, none, none, none, []⟩
  step := step

end DolphinXR.CallGate
