import DolphinXR.Lib.Heap
import DolphinXR.Lib.Transition
import Mathlib.Algebra.Group.Int.Defs
import Mathlib.Algebra.Group.Nat.Defs

/- The event queue of the emulated machine (Core/CoreTiming.cpp) at a constant CPU clock
   and the overclock factor 1, where `DowncountToCycles` and `CyclesToDowncount` change no
   integer that a float holds. Times do not overflow and are integers.

   A callback of `Advance` may schedule and remove what it likes, so it is not modelled:
   while one runs, the CPU thread may take any action of those below but `Advance`. Other
   threads schedule at any moment, and what they schedule has no time until it is moved to
   the queue. `serial`, `fromCpu` and `scheduledAt` of an event and `phase`, `advances`,
   `serials`, `ran` and `removed` of the state are not in the code: they keep what has
   been scheduled and what has become of it. -/
namespace DolphinXR.CoreTiming
open Lib

section CoreTiming
variable {T : Type} [DecidableEq T]

def maxSliceLength : Int := 20000

def maxExact : Int := 2 ^ 24

structure Event (T : Type) where
  time : Int
  fifoOrder : Nat
  userdata : Nat
  type : T
  serial : Nat
  /-- Whether the CPU thread has scheduled it, and `GetTicks` at that point. -/
  fromCpu : Bool
  scheduledAt : Int
  deriving DecidableEq

def Event.le (a b : Event T) : Bool :=
  decide (a.time < b.time) || (decide (a.time = b.time) && decide (a.fifoOrder ≤ b.fifoOrder))

inductive Phase where
  | outside
  /-- In the loop of `Advance`. -/
  | draining
  /-- In a callback. -/
  | callback
  deriving DecidableEq

structure Manager (T : Type) where
  globalTimer : Int
  sliceLength : Int
  /-- The downcount of the CPU. -/
  downcount : Int
  isGlobalTimerSane : Bool
  eventQueue : List (Event T)
  eventFifoId : Nat
  /-- Events from other threads; their times are from when they are moved. -/
  tsQueue : List (Event T)
  phase : Phase
  /-- How many times `Advance` has returned. -/
  advances : Nat
  serials : Nat
  ran : List (Event T)
  removed : List (Event T)
  deriving DecidableEq

variable (H : HeapAlgorithms (fun a b : Event T => Event.le a b = true))

def getTicks (m : Manager T) : Int :=
  if m.isGlobalTimerSane then m.globalTimer else m.globalTimer + (m.sliceLength - m.downcount)

def forceExceptionCheck (m : Manager T) (cycles : Int) : Manager T :=
  if max 0 cycles < m.downcount then
    { m with
      sliceLength := m.sliceLength - (m.downcount - max 0 cycles)
      downcount := max 0 cycles }
  else m

/-- `m_event_fifo_id++` on a `u64`. -/
def nextFifoId (fifoId : Nat) : Nat := (fifoId + 1) % 2 ^ 64

/-- `ScheduleEvent` on the CPU thread. -/
def scheduleEvent (m : Manager T) (cyclesIntoFuture : Int) (type : T) (userdata : Nat) :
    Manager T :=
  let event : Event T := ⟨getTicks m + cyclesIntoFuture, m.eventFifoId, userdata, type, m.serials,
    true, getTicks m⟩
  let m := if m.isGlobalTimerSane then m else forceExceptionCheck m cyclesIntoFuture
  { m with
    eventQueue := H.pushHeap (m.eventQueue ++ [event])
    eventFifoId := nextFifoId m.eventFifoId
    serials := m.serials + 1 }

/-- `ScheduleEvent` on another thread. -/
def scheduleEventOffThread (m : Manager T) (cyclesIntoFuture : Int) (type : T) (userdata : Nat) :
    Manager T :=
  { m with
    tsQueue := m.tsQueue ++ [⟨cyclesIntoFuture, 0, userdata, type, m.serials, false, getTicks m⟩]
    serials := m.serials + 1 }

def removeEvent (m : Manager T) (type : T) : Manager T :=
  let kept := m.eventQueue.filter fun e => decide (e.type ≠ type)
  if kept.length = m.eventQueue.length then m
  else
    { m with
      eventQueue := H.makeHeap kept
      removed := m.removed ++ m.eventQueue.filter fun e => decide (e.type = type) }

/-- One turn of the loop of `MoveEvents`. -/
def moveEvent (m : Manager T) (event : Event T) : Manager T :=
  { m with
    eventQueue := H.pushHeap (m.eventQueue ++
      [{ event with time := event.time + m.globalTimer, fifoOrder := m.eventFifoId }])
    eventFifoId := nextFifoId m.eventFifoId }

/-- What comes to the queue of the other threads meanwhile could as well have come before or
    after, so that the loop is one step. -/
def moveEvents (m : Manager T) : Manager T :=
  { m.tsQueue.foldl (moveEvent H) m with tsQueue := [] }

def removeAllEvents (m : Manager T) (type : T) : Manager T := removeEvent H (moveEvents H m) type

/-- `Advance` up to its loop. -/
def startAdvance (m : Manager T) : Manager T :=
  let m := moveEvents H m
  { m with
    globalTimer := m.globalTimer + (m.sliceLength - m.downcount)
    sliceLength := maxSliceLength
    isGlobalTimerSane := true
    phase := .draining }

/-- `Advance` after its loop. -/
def finishAdvance (m : Manager T) : Manager T :=
  let slice :=
    match m.eventQueue with
    | [] => m.sliceLength
    | front :: _ => min (front.time - m.globalTimer) maxSliceLength
  { m with
    isGlobalTimerSane := false
    sliceLength := slice
    downcount := slice
    phase := .outside
    advances := m.advances + 1 }

/-- The condition of the loop of `Advance`, and the call of a callback if it holds. -/
def nextEvent (m : Manager T) : Manager T :=
  match m.eventQueue with
  | [] => finishAdvance m
  | front :: _ =>
    if front.time ≤ m.globalTimer then
      { m with
        eventQueue := (H.popHeap m.eventQueue).dropLast
        ran := m.ran ++ [front]
        phase := .callback }
    else finishAdvance m

inductive Action (T : Type) where
  /-- The CPU executes instructions. -/
  | execute (cycles : Nat)
  | scheduleEvent (cyclesIntoFuture : Int) (type : T) (userdata : Nat)
  | scheduleEventOffThread (cyclesIntoFuture : Int) (type : T) (userdata : Nat)
  | removeEvent (type : T)
  | removeAllEvents (type : T)
  | forceExceptionCheck (cycles : Int)
  | advance
  | nextEvent
  /-- The callback returns. -/
  | returnToLoop

/-- The CPU thread is not between two callbacks, and executes instructions only outside
    `Advance` and after the first one. -/
def step (m : Manager T) : Action T → Option (Manager T)
  | .execute cycles =>
    if m.phase = .outside ∧ 0 < m.advances ∧ -maxExact ≤ m.downcount - cycles then
      some { m with downcount := m.downcount - cycles }
    else none
  | .scheduleEvent cycles type userdata =>
    if m.phase ≠ .draining then some (scheduleEvent H m cycles type userdata) else none
  | .scheduleEventOffThread cycles type userdata =>
    some (scheduleEventOffThread m cycles type userdata)
  | .removeEvent type => if m.phase ≠ .draining then some (removeEvent H m type) else none
  | .removeAllEvents type => if m.phase ≠ .draining then some (removeAllEvents H m type) else none
  | .forceExceptionCheck cycles =>
    if m.phase ≠ .draining then some (forceExceptionCheck m cycles) else none
  | .advance => if m.phase = .outside then some (startAdvance H m) else none
  | .nextEvent => if m.phase = .draining then some (nextEvent H m) else none
  | .returnToLoop =>
    if m.phase = .callback then some { m with phase := .draining } else none

/-- After `Init`, which computes the downcount by the overclock factor of before: that of the last
    session, or zero. -/
def initial (lastOCFactor : Nat) : Manager T :=
  ⟨0, maxSliceLength, lastOCFactor * maxSliceLength, true, [], 0, [], .outside, 0, 0, [], []⟩

def timingSystem : System (Manager T) (Action T) where
  init m := m = initial 0 ∨ m = initial 1
  step := step H

end CoreTiming
end DolphinXR.CoreTiming
