import DolphinXR.Lib.Transition
import DolphinXR.Lib.RoundRobin

/- `MultithreadedCompressor` (DiscIO/MultithreadedCompressor.h) as a step relation:
   the caller, `threads` compression threads and the output thread take turns in
   any order, one access to shared state at a time. A `Common::Event` is a flag
   that `Set` raises, `Reset` lowers and `Wait` takes down again, and where it is
   not raised the waiting thread has no step.

   Every thread is a program counter whose points are the statements of its
   function in order. Jobs are what `CompressAndWrite` is called with, their
   results and those of the output and set-up functions are given by the
   parameters of `Compressor`, so every pattern of failures is covered. Four
   histories are kept beside the state: the calls made, the jobs put into a
   mailbox, the results the output thread has fetched and what it has passed on. -/
namespace DolphinXR.DiscIO
open Lib

/-- The functions a compressor is made with, and its number of threads. `setUpOk`
    and `outputOk` say which set-up calls (by thread) and which output calls (by
    number) return Success. -/
structure Compressor (P R : Type) where
  threads : Nat
  threads_pos : 0 < threads
  setUpOk : Nat → Bool
  compress : P → Option R
  outputOk : Nat → Bool

/-- The points of `CompressThreadFunction`. -/
inductive CompressPoint (P R : Type) where
  | setUp
  | setReady
  | setDone
  | waiting
  | checking
  | resetting (parameters : P)
  | readying (parameters : P)
  | compressing (parameters : P)
  | waitOutput (result : R)
  | storing (result : R)
  | signalling
  | failing
  | finishing
  | returned
  deriving DecidableEq

/-- `CompressThread`: its events and mailboxes, and where its thread is. -/
structure CompressThread (P R : Type) where
  compressReadyEvent : Bool
  compressEvent : Bool
  compressDoneEvent : Bool
  outputReadyEvent : Bool
  outputEvent : Bool
  compressParameters : Option P
  outputParameters : Option R
  point : CompressPoint P R
  /-- The jobs whose `compress` call has returned, and the results stored. -/
  processed : List P
  stored : List R

/-- The points of `OutputThreadFunction`. -/
inductive OutputPoint (R : Type) where
  | starting (i : Nat)
  | waiting
  | checking
  | readying (parameters : R)
  | outputting (parameters : R)
  | failing
  | advancing
  | returned
  deriving DecidableEq

/-- The loops of `Shutdown`. -/
inductive ShutdownLoop where
  | waitReady | waitDone | waitOutputReady | setCompress | setOutput | joinCompress
  deriving DecidableEq

inductive CallerPoint (P : Type) where
  | idle
  | submitting (parameters : P)
  | storing (parameters : P)
  | signalling
  | shutdown (loop : ShutdownLoop) (i : Nat)
  | storeFlag
  | joinOutput
  | returned
  deriving DecidableEq

structure CompressorState (P R : Type) where
  threads : Nat → CompressThread P R
  caller : CallerPoint P
  currentIndex : Nat
  output : OutputPoint R
  outputIndex : Nat
  shuttingDown : Bool
  /-- `m_result` is not Success. -/
  error : Bool
  called : List P
  accepted : List P
  fetched : List R
  outputs : List R

namespace CompressorState
variable {P R : Type}

/-- The state with another record for thread `k`. -/
def setThread (s : CompressorState P R) (k : Nat) (t : CompressThread P R) :
    CompressorState P R :=
  { s with threads := Function.update s.threads k t }

end CompressorState

/-- `++index`, back to 0 after the last one. -/
def nextIndex (n i : Nat) : Nat := if i + 1 ≥ n then i + 1 - n else i + 1

/-- What a step of `CompressThreadFunction` does to the thread's record. -/
def compressTurn {P R : Type} (compress : P → Option R) (shuttingDown : Bool)
    (t : CompressThread P R) : Option (CompressThread P R) :=
  match t.point with
  | .setUp => some { t with point := .setReady }
  | .setReady => some { t with compressReadyEvent := true, point := .setDone }
  | .setDone => some { t with compressDoneEvent := true, point := .waiting }
  | .waiting =>
    if t.compressEvent then some { t with compressEvent := false, point := .checking } else none
  | .checking =>
    if shuttingDown then some { t with point := .returned }
    else
      match t.compressParameters with
      | some p => some { t with compressParameters := none, point := .resetting p }
      | none => none
  | .resetting p => some { t with compressDoneEvent := false, point := .readying p }
  | .readying p => some { t with compressReadyEvent := true, point := .compressing p }
  | .compressing p =>
    match compress p with
    | some r => some { t with processed := t.processed ++ [p], point := .waitOutput r }
    | none => some { t with processed := t.processed ++ [p], point := .failing }
  | .waitOutput r =>
    if t.outputReadyEvent then some { t with outputReadyEvent := false, point := .storing r }
    else none
  | .storing r =>
    some { t with outputParameters := some r, stored := t.stored ++ [r], point := .signalling }
  | .signalling => some { t with outputEvent := true, point := .finishing }
  | .failing => some { t with point := .finishing }
  | .finishing => some { t with compressDoneEvent := true, point := .waiting }
  | .returned => none

/-- The step of thread `k` at this point calls `SetError`. -/
def setsError {P R : Type} (c : Compressor P R) (k : Nat) : CompressPoint P R → Bool
  | .setUp => !c.setUpOk k
  | .failing => true
  | _ => false

section Steps
variable {P R : Type} (c : Compressor P R) (s : CompressorState P R)

/-- One step of compression thread `k`, which makes the turn of its own record and calls
    `SetError` after a failed set-up or `compress` call. -/
def compressStep (k : Nat) : Option (CompressorState P R) :=
  (compressTurn c.compress s.shuttingDown (s.threads k)).map fun t =>
    { s.setThread k t with error := s.error || setsError c k (s.threads k).point }

/-- One step of the output thread. -/
def outputStep : Option (CompressorState P R) :=
  let t := s.threads s.outputIndex
  match s.output with
  | .starting i =>
    if i < c.threads then
      some
        { s.setThread i { s.threads i with outputReadyEvent := true } with
          output := .starting (i + 1) }
    else some { s with output := .waiting }
  | .waiting =>
    if t.outputEvent then
      some
        { s.setThread s.outputIndex { t with outputEvent := false } with output := .checking }
    else none
  | .checking =>
    if s.shuttingDown then some { s with output := .returned }
    else
      t.outputParameters.map fun r =>
        { s.setThread s.outputIndex { t with outputParameters := none } with
          output := .readying r
          fetched := s.fetched ++ [r] }
  | .readying r =>
    some
      { s.setThread s.outputIndex { t with outputReadyEvent := true } with
        output := .outputting r }
  | .outputting r =>
    some
      { s with
        outputs := s.outputs ++ [r]
        output := if c.outputOk s.outputs.length then .advancing else .failing }
  | .failing => some { s with error := true, output := .advancing }
  | .advancing =>
    some { s with outputIndex := nextIndex c.threads s.outputIndex, output := .waiting }
  | .returned => none

/-- One turn of a loop of `Shutdown`, on thread `i`: waiting for an event, setting one
    or joining. -/
def shutdownTurn (loop : ShutdownLoop) (t : CompressThread P R) : Option (CompressThread P R) :=
  match loop with
  | .waitReady =>
    if t.compressReadyEvent then some { t with compressReadyEvent := false } else none
  | .waitDone =>
    if t.compressDoneEvent then some { t with compressDoneEvent := false } else none
  | .waitOutputReady =>
    if t.outputReadyEvent then some { t with outputReadyEvent := false } else none
  | .setCompress => some { t with compressEvent := true }
  | .setOutput => some { t with outputEvent := true }
  | .joinCompress => match t.point with
    | .returned => some t
    | _ => none

/-- What `Shutdown` does after a loop. -/
def afterLoop : ShutdownLoop → CallerPoint P
  | .waitReady => .shutdown .waitDone 0
  | .waitDone => .shutdown .waitOutputReady 0
  | .waitOutputReady => .storeFlag
  | .setCompress => .shutdown .setOutput 0
  | .setOutput => .shutdown .joinCompress 0
  | .joinCompress => .joinOutput

/-- One step of the caller inside `CompressAndWrite` or `Shutdown`. -/
def callerStep : Option (CompressorState P R) :=
  let t := s.threads s.currentIndex
  match s.caller with
  | .idle => none
  | .submitting p =>
    if t.compressReadyEvent then
      some
        { s.setThread s.currentIndex { t with compressReadyEvent := false } with
          caller := .storing p }
    else none
  | .storing p =>
    some
      { s.setThread s.currentIndex { t with compressParameters := some p } with
        caller := .signalling
        accepted := s.accepted ++ [p] }
  | .signalling =>
    some
      { s.setThread s.currentIndex { t with compressEvent := true } with
        caller := .idle
        currentIndex := nextIndex c.threads s.currentIndex }
  | .shutdown loop i =>
    if i < c.threads then
      (shutdownTurn loop (s.threads i)).map fun t =>
        { s.setThread i t with caller := .shutdown loop (i + 1) }
    else some { s with caller := afterLoop loop }
  | .storeFlag => some { s with shuttingDown := true, caller := .shutdown .setCompress 0 }
  | .joinOutput => match s.output with
    | .returned => some { s with caller := .returned }
    | _ => none
  | .returned => none

end Steps

/-- Calls of `CompressAndWrite`, `SetError` and `Shutdown`, and steps of the threads. -/
inductive CompressorAction (P : Type) where
  | call (parameters : P)
  | setError
  | shutdown
  | caller
  | compress (k : Nat)
  | output

variable {P R : Type}

def compressorStep (c : Compressor P R) (s : CompressorState P R) :
    CompressorAction P → Option (CompressorState P R)
  | .call p =>
    match s.caller with
    | .idle =>
      -- A call that finds an error returns at once.
      if s.error then some { s with called := s.called ++ [p] }
      else some { s with called := s.called ++ [p], caller := .submitting p }
    | _ => none
  | .setError =>
    match s.caller with
    | .idle => some { s with error := true }
    | _ => none
  | .shutdown =>
    match s.caller with
    | .idle => some { s with caller := .shutdown .waitReady 0 }
    | _ => none
  | .caller => callerStep c s
  | .compress k => if k < c.threads then compressStep c s k else none
  | .output => outputStep c s

def startThread : CompressThread P R :=
  { compressReadyEvent := false, compressEvent := false, compressDoneEvent := false
    outputReadyEvent := false, outputEvent := false, compressParameters := none
    outputParameters := none, point := .setUp, processed := [], stored := [] }

def startState : CompressorState P R :=
  { threads := fun _ => startThread, caller := .idle, currentIndex := 0, output := .starting 0
    outputIndex := 0, shuttingDown := false, error := false, called := [], accepted := []
    fetched := [], outputs := [] }

def compressorSystem (c : Compressor P R) : System (CompressorState P R) (CompressorAction P) where
  init s := s = startState
  step := compressorStep c

/-- `Shutdown` has been called and has not returned. -/
def InShutdown (s : CompressorState P R) : Prop :=
  (∃ loop i, s.caller = .shutdown loop i) ∨ s.caller = .storeFlag ∨ s.caller = .joinOutput

end DolphinXR.DiscIO
