import DolphinXR.DiscIO.MultithreadedCompressor

/- What holds of a compressor in every reachable state, slot by slot. A slot's five
   events and two mailboxes are handed between its thread, the caller and the
   output thread, and the facts that carry the rest are two conservation laws: of
   `compressReadyEvent`, `compressEvent` and the parties that have taken one and
   owe the other exactly one has the slot's input token, and likewise for
   `outputReadyEvent`, `outputEvent` and the output token. With them go the
   contents of the mailboxes. A slot is looked at through its view, which holds all
   that its invariant speaks of. -/
namespace DolphinXR.DiscIO
open Lib
variable {P R : Type}

namespace CompressPoint

/-- The thread has taken `compressEvent`, or not yet set `compressReadyEvent`. -/
@[grind] def holdsInput : CompressPoint P R → Nat
  | setUp | setReady | checking | resetting _ | readying _ | returned => 1
  | _ => 0

/-- The thread has taken `outputReadyEvent` and not yet set `outputEvent`. -/
@[grind] def holdsOutput : CompressPoint P R → Nat
  | storing _ | signalling => 1
  | _ => 0

/-- `compressDoneEvent` is up, or has been taken by `Shutdown`. -/
@[grind] def isIdle : CompressPoint P R → Bool
  | waiting | checking | resetting _ | returned => true
  | _ => false

/-- Where a thread can be once `Shutdown` has taken its `compressDoneEvent`. -/
@[grind] def isAtRest : CompressPoint P R → Bool
  | waiting | checking | returned => true
  | _ => false

theorem isAtRest_of_isIdle {point : CompressPoint P R} (hidle : point.isIdle = true)
    (hinput : point.holdsInput = 0) : point.isAtRest = true := by
  cases point <;> simp_all [isIdle, holdsInput, isAtRest]

@[grind] def current : CompressPoint P R → List P
  | resetting p | readying p | compressing p => [p]
  | _ => []

@[grind] def inflight : CompressPoint P R → List R
  | waitOutput r | storing r => [r]
  | _ => []

end CompressPoint

/-- What the caller is doing with a slot inside `CompressAndWrite`. -/
inductive CallerSlot where
  | away | storing | signalling
  deriving DecidableEq

inductive OutputSlot where
  | away | starting | checking | readying | returned
  deriving DecidableEq

/-- All that matters for one slot. `stage` counts the loops of `Shutdown` that are
    through with it: it has waited for the ready event, for the done event, for the
    output ready event, and set the compress event and the output event. -/
structure SlotView (P R : Type) where
  thread : CompressThread P R
  caller : CallerSlot
  stage : Nat
  output : OutputSlot
  flag : Bool
  jobs : List P
  fetched : List R

def callerSlot (caller : CallerPoint P) (index k : Nat) : CallerSlot :=
  match caller with
  | .storing _ => if index = k then .storing else .away
  | .signalling => if index = k then .signalling else .away
  | _ => .away

def stage (caller : CallerPoint P) (k : Nat) : Nat :=
  match caller with
  | .shutdown .waitReady i => if k < i then 1 else 0
  | .shutdown .waitDone i => if k < i then 2 else 1
  | .shutdown .waitOutputReady i => if k < i then 3 else 2
  | .storeFlag => 3
  | .shutdown .setCompress i => if k < i then 4 else 3
  | .shutdown .setOutput i => if k < i then 5 else 4
  | .shutdown .joinCompress _ => 5
  | .joinOutput => 5
  | .returned => 5
  | _ => 0

def outputSlot (output : OutputPoint R) (index k : Nat) : OutputSlot :=
  match output with
  | .starting i => if i ≤ k then .starting else .away
  | .checking => if index = k then .checking else .away
  | .readying _ => if index = k then .readying else .away
  | .returned => if index = k then .returned else .away
  | _ => .away

/-- The view of slot `k`. -/
def view (c : Compressor P R) (s : CompressorState P R) (k : Nat) : SlotView P R where
  thread := s.threads k
  caller := callerSlot s.caller s.currentIndex k
  stage := stage s.caller k
  output := outputSlot s.output s.outputIndex k
  flag := s.shuttingDown
  jobs := hand c.threads k s.accepted
  fetched := hand c.threads k s.fetched

namespace SlotView
variable (v : SlotView P R)

/-- The caller has taken `compressReadyEvent` and not yet set `compressEvent`. -/
@[grind] def callerInput : Nat :=
  (if v.caller = .away then 0 else 1) + if 1 ≤ v.stage ∧ v.stage ≤ 3 then 1 else 0

/-- `Shutdown` has taken `outputReadyEvent` and not yet set `outputEvent`. -/
@[grind] def callerOutput : Nat := if 3 ≤ v.stage ∧ v.stage ≤ 4 then 1 else 0

@[grind] def inputPending : Prop :=
  v.caller = .signalling ∨
    v.flag = false ∧ (v.thread.compressEvent = true ∨ v.thread.point = .checking)

@[grind] def outputPending : Prop :=
  v.thread.point = .signalling ∨
    v.flag = false ∧ (v.thread.outputEvent = true ∨ v.output = .checking)

end SlotView

/-- The input token and the output token are in one place each. -/
structure TokensOk (v : SlotView P R) : Prop where
  input : v.thread.compressReadyEvent.toNat + v.thread.compressEvent.toNat + v.callerInput +
    v.thread.point.holdsInput = 1
  output : v.thread.outputReadyEvent.toNat + v.thread.outputEvent.toNat + v.callerOutput +
    v.thread.point.holdsOutput + (if v.output = .away then 0 else 1) = 1

structure PhaseOk (v : SlotView P R) : Prop where
  done_of_idle : v.stage < 2 → v.thread.point.isIdle = true → v.thread.compressDoneEvent = true
  idle_of_done : v.thread.compressDoneEvent = true → v.thread.point.isIdle = true
  atRest : 2 ≤ v.stage → v.thread.point.isAtRest = true
  ready_taken : 1 ≤ v.stage → v.thread.compressReadyEvent = false
  outputReady_taken : 3 ≤ v.stage → v.thread.outputReadyEvent = false
  stage_of_flag : v.flag = true → 3 ≤ v.stage
  flag_of_stage : 4 ≤ v.stage → v.flag = true
  flag_of_returned : v.thread.point = .returned → v.flag = true
  flag_of_outputReturned : v.output = .returned → v.flag = true
  output_of_flag : v.flag = true → v.output ≠ .starting ∧ v.output ≠ .readying

/-- The jobs dealt to the slot and their results are in the mailboxes or at work. -/
structure ContentsOk (compress : P → Option R) (v : SlotView P R) : Prop where
  jobs_full : v.inputPending → ∃ p, v.thread.compressParameters = some p ∧
    v.jobs = v.thread.processed ++ v.thread.point.current ++ [p]
  jobs_empty : ¬v.inputPending → v.jobs = v.thread.processed ++ v.thread.point.current
  results : v.thread.processed.filterMap compress = v.thread.stored ++ v.thread.point.inflight
  stored_full : v.outputPending → ∃ r, v.thread.outputParameters = some r ∧
    v.thread.stored = v.fetched ++ [r]
  stored_empty : ¬v.outputPending → v.thread.stored = v.fetched

structure SlotOk (compress : P → Option R) (v : SlotView P R) : Prop
    extends TokensOk v, PhaseOk v, ContentsOk compress v

@[grind =] theorem toNat_event (event : Bool) : event.toNat = if event = true then 1 else 0 := by
  cases event <;> rfl

/-! ### Turns of the slot's own thread -/

/-- What a turn can do (`compressTurn_eq_some`). -/
inductive Turn (compress : P → Option R) (flag : Bool) (t : CompressThread P R) :
    CompressThread P R → Prop where
  | setUp (hp : t.point = .setUp) : Turn compress flag t { t with point := .setReady }
  | setReady (hp : t.point = .setReady) :
    Turn compress flag t { t with compressReadyEvent := true, point := .setDone }
  | setDone (hp : t.point = .setDone ∨ t.point = .finishing) :
    Turn compress flag t { t with compressDoneEvent := true, point := .waiting }
  | take (hp : t.point = .waiting) (hevent : t.compressEvent = true) :
    Turn compress flag t { t with compressEvent := false, point := .checking }
  | return (hp : t.point = .checking) (hflag : flag = true) :
    Turn compress flag t { t with point := .returned }
  | fetch (p : P) (hp : t.point = .checking) (hflag : flag = false)
      (hparameters : t.compressParameters = some p) :
    Turn compress flag t { t with compressParameters := none, point := .resetting p }
  | reset (p : P) (hp : t.point = .resetting p) :
    Turn compress flag t { t with compressDoneEvent := false, point := .readying p }
  | ready (p : P) (hp : t.point = .readying p) :
    Turn compress flag t { t with compressReadyEvent := true, point := .compressing p }
  | compressed (p : P) (r : R) (hp : t.point = .compressing p) (hr : compress p = some r) :
    Turn compress flag t { t with processed := t.processed ++ [p], point := .waitOutput r }
  | failed (p : P) (hp : t.point = .compressing p) (hr : compress p = none) :
    Turn compress flag t { t with processed := t.processed ++ [p], point := .failing }
  | takeOutput (r : R) (hp : t.point = .waitOutput r) (hevent : t.outputReadyEvent = true) :
    Turn compress flag t { t with outputReadyEvent := false, point := .storing r }
  | store (r : R) (hp : t.point = .storing r) :
    Turn compress flag t
      { t with outputParameters := some r, stored := t.stored ++ [r], point := .signalling }
  | signal (hp : t.point = .signalling) :
    Turn compress flag t { t with outputEvent := true, point := .finishing }
  | setError (hp : t.point = .failing) : Turn compress flag t { t with point := .finishing }

theorem compressTurn_eq_some {compress : P → Option R} {flag : Bool} {t t' : CompressThread P R}
    (ht : compressTurn compress flag t = some t') : Turn compress flag t t' := by
  cases hp : t.point <;> simp only [compressTurn, hp] at ht
  case setUp => cases ht; exact .setUp hp
  case setReady => cases ht; exact .setReady hp
  case setDone => cases ht; exact .setDone (.inl hp)
  case waiting => split at ht <;> cases ht; exact .take hp (by assumption)
  case checking =>
    split at ht
    · cases ht; exact .return hp (by assumption)
    case isFalse hflag =>
      split at ht <;> cases ht
      exact .fetch _ hp (Bool.eq_false_of_not_eq_true hflag) (by assumption)
  case resetting p => cases ht; exact .reset p hp
  case readying p => cases ht; exact .ready p hp
  case compressing p =>
    split at ht <;> cases ht
    · exact .compressed p _ hp (by assumption)
    · exact .failed p hp (by assumption)
  case waitOutput r => split at ht <;> cases ht; exact .takeOutput r hp (by assumption)
  case storing r => cases ht; exact .store r hp
  case signalling => cases ht; exact .signal hp
  case failing => cases ht; exact .setError hp
  case finishing => cases ht; exact .setDone (.inr hp)
  case returned => cases ht

section Turn
variable {compress : P → Option R} {v : SlotView P R} {t : CompressThread P R}

theorem TokensOk.turn (h : TokensOk v) (ht : Turn compress v.flag v.thread t) :
    TokensOk { v with thread := t } := by
  obtain ⟨hinput, houtput⟩ := h
  constructor
  · clear houtput
    cases ht <;> grind
  · clear hinput
    cases ht <;> grind

theorem done_iff_turn (ht : Turn compress v.flag v.thread t)
    (hdone : v.stage < 2 → v.thread.point.isIdle = true → v.thread.compressDoneEvent = true)
    (hidle : v.thread.compressDoneEvent = true → v.thread.point.isIdle = true) :
    (v.stage < 2 → t.point.isIdle = true → t.compressDoneEvent = true) ∧
      (t.compressDoneEvent = true → t.point.isIdle = true) := by
  cases ht <;> simp_all [CompressPoint.isIdle]

/-- A thread whose done event `Shutdown` has taken gets no other job: the caller has the
    input token, or has set the flag. -/
theorem atRest_turn (htokens : TokensOk v) (h : PhaseOk v)
    (ht : Turn compress v.flag v.thread t) (hstage : 2 ≤ v.stage) : t.point.isAtRest = true := by
  have hrest := h.atRest hstage
  have hflag := h.flag_of_stage
  have hinput := htokens.input
  clear htokens h
  cases ht <;> grind

theorem ready_taken_turn (htokens : TokensOk v) (h : PhaseOk v)
    (ht : Turn compress v.flag v.thread t) (hstage : 1 ≤ v.stage) :
    t.compressReadyEvent = false := by
  have hready := h.ready_taken hstage
  have hrest := h.atRest
  have hinput := htokens.input
  clear htokens h
  cases ht <;> grind

theorem PhaseOk.turn (htokens : TokensOk v) (h : PhaseOk v)
    (ht : Turn compress v.flag v.thread t) : PhaseOk { v with thread := t } :=
  { h with
    done_of_idle := (done_iff_turn ht h.done_of_idle h.idle_of_done).1
    idle_of_done := (done_iff_turn ht h.done_of_idle h.idle_of_done).2
    atRest := atRest_turn (v := v) htokens h ht
    ready_taken := ready_taken_turn (v := v) htokens h ht
    outputReady_taken := by
      have houtputReady := h.outputReady_taken
      intro hstage
      cases ht <;> first
        | exact houtputReady hstage
        | rfl
    flag_of_returned := by
      have hreturned := h.flag_of_returned
      intro hpoint
      cases ht <;> first
        | assumption
        | cases hpoint }

theorem jobs_turn (htokens : TokensOk v) (h : ContentsOk compress v)
    (ht : Turn compress v.flag v.thread t) :
    (({ v with thread := t } : SlotView P R).inputPending → ∃ p, t.compressParameters = some p ∧
      v.jobs = t.processed ++ t.point.current ++ [p]) ∧
    (¬({ v with thread := t } : SlotView P R).inputPending →
      v.jobs = t.processed ++ t.point.current) := by
  have hinput := htokens.input
  have hfull := h.jobs_full
  have hempty := h.jobs_empty
  clear htokens h
  cases ht <;> grind

theorem results_turn (h : v.thread.processed.filterMap compress =
      v.thread.stored ++ v.thread.point.inflight) (ht : Turn compress v.flag v.thread t) :
    t.processed.filterMap compress = t.stored ++ t.point.inflight := by
  cases ht <;> grind

theorem stored_turn (htokens : TokensOk v) (hphase : PhaseOk v) (h : ContentsOk compress v)
    (ht : Turn compress v.flag v.thread t) :
    (({ v with thread := t } : SlotView P R).outputPending → ∃ r, t.outputParameters = some r ∧
      t.stored = v.fetched ++ [r]) ∧
    (¬({ v with thread := t } : SlotView P R).outputPending → t.stored = v.fetched) := by
  have houtput := htokens.output
  have hrest := hphase.atRest
  have hstage := hphase.stage_of_flag
  have hfull := h.stored_full
  have hempty := h.stored_empty
  clear htokens hphase h
  cases ht with
  | setDone hp => rcases hp with hp | hp <;> simp_all [SlotView.outputPending]
  | store r hp => grind
  | signal hp => grind
  | _ => simp_all [SlotView.outputPending]

theorem SlotOk.turn (h : SlotOk compress v) (ht : compressTurn compress v.flag v.thread = some t) :
    SlotOk compress { v with thread := t } :=
  have hturn := compressTurn_eq_some ht
  have hjobs := jobs_turn h.toTokensOk h.toContentsOk hturn
  have hstored := stored_turn h.toTokensOk h.toPhaseOk h.toContentsOk hturn
  { h.toTokensOk.turn hturn, PhaseOk.turn h.toTokensOk h.toPhaseOk hturn with
    jobs_full := hjobs.1, jobs_empty := hjobs.2, results := results_turn h.results hturn
    stored_full := hstored.1, stored_empty := hstored.2 }

end Turn

/-! ### Moves of the caller on its slot -/

section Moves
variable {compress : P → Option R} {v : SlotView P R} (h : SlotOk compress v)
include h

theorem SlotOk.takeReady (hcaller : v.caller = .away) (hstage : v.stage = 0)
    (hready : v.thread.compressReadyEvent = true) :
    SlotOk compress
      { v with thread := { v.thread with compressReadyEvent := false }, caller := .storing } := by
  have hinput := h.input
  have hfull := h.jobs_full
  have hempty := h.jobs_empty
  refine { h with input := ?_, ready_taken := fun _ => rfl, jobs_full := ?_, jobs_empty := ?_ } <;>
    grind

theorem SlotOk.storeJob (hcaller : v.caller = .storing) (p : P) :
    SlotOk compress
      { v with
        thread := { v.thread with compressParameters := some p }
        caller := .signalling
        jobs := v.jobs ++ [p] } := by
  have hinput := h.input
  have hempty := h.jobs_empty
  refine { h with input := ?_, jobs_full := ?_, jobs_empty := ?_ } <;> grind

theorem SlotOk.signalJob (hcaller : v.caller = .signalling) (hflag : v.flag = false) :
    SlotOk compress
      { v with thread := { v.thread with compressEvent := true }, caller := .away } := by
  have hinput := h.input
  have hfull := h.jobs_full
  refine { h with input := ?_, jobs_full := ?_, jobs_empty := ?_ } <;> grind

theorem SlotOk.storeFlag (hcaller : v.caller = .away) (hstage : v.stage = 3) :
    SlotOk compress { v with flag := true } := by
  have hinput := h.input
  have houtput := h.output
  have hjobs := h.jobs_empty
  have hstored := h.stored_empty
  have hrest := h.atRest
  refine
    { h with
      stage_of_flag := fun _ => hstage.ge, flag_of_stage := fun _ => rfl
      flag_of_returned := fun _ => rfl, flag_of_outputReturned := fun _ => rfl
      output_of_flag := ?_, jobs_full := ?_, jobs_empty := ?_, stored_full := ?_
      stored_empty := ?_ } <;>
    grind

end Moves

/-! ### Turns of the loops of `Shutdown` -/

/-- How many loops are through with a slot before and after its turn in a loop. -/
def stageBefore : ShutdownLoop → Nat
  | .waitReady => 0
  | .waitDone => 1
  | .waitOutputReady => 2
  | .setCompress => 3
  | .setOutput => 4
  | .joinCompress => 5

def stageAfter : ShutdownLoop → Nat
  | .joinCompress => 5
  | loop => stageBefore loop + 1

section Shutdown
variable {compress : P → Option R} {v : SlotView P R} {loop : ShutdownLoop}
  {t : CompressThread P R}

theorem TokensOk.shutdownMove (h : TokensOk v) (hstage : v.stage = stageBefore loop)
    (ht : shutdownTurn loop v.thread = some t) :
    TokensOk { v with thread := t, stage := stageAfter loop } := by
  obtain ⟨hinput, houtput⟩ := h
  cases loop <;> simp only [shutdownTurn, stageBefore, stageAfter] at ht hstage ⊢ <;>
    constructor <;> grind

theorem PhaseOk.shutdownMove (htokens : TokensOk v) (h : PhaseOk v)
    (hstage : v.stage = stageBefore loop) (hflag : v.flag = decide (3 ≤ stageBefore loop))
    (ht : shutdownTurn loop v.thread = some t) :
    PhaseOk { v with thread := t, stage := stageAfter loop } := by
  cases loop with
  | waitReady =>
    simp only [shutdownTurn] at ht
    split at ht <;> cases ht
    exact { h with
      done_of_idle := fun _ => h.done_of_idle (by rw [hstage]; decide)
      atRest := fun hs => absurd hs (by simp [stageAfter, stageBefore]), ready_taken := fun _ => rfl
      outputReady_taken := fun hs => absurd hs (by simp [stageAfter, stageBefore])
      stage_of_flag := fun hf => absurd (hflag.symm.trans hf) (by decide)
      flag_of_stage := fun hs => absurd hs (by simp [stageAfter, stageBefore]) }
  | waitDone =>
    simp only [shutdownTurn] at ht
    split at ht
    case isFalse => cases ht
    case isTrue hdone =>
    cases ht
    -- The caller holds the input token, so the thread does not.
    have hinput : v.thread.point.holdsInput = 0 := by
      have hsum := htokens.input
      simp only [SlotView.callerInput, hstage, stageBefore] at hsum
      simp only [Nat.le_refl, Nat.reduceLeDiff, and_self, if_true] at hsum
      omega
    exact { h with
      done_of_idle := fun hs => absurd hs (by simp [stageAfter, stageBefore])
      idle_of_done := fun hd => by cases hd
      atRest := fun _ => CompressPoint.isAtRest_of_isIdle (h.idle_of_done hdone) hinput
      ready_taken := fun _ => h.ready_taken (by rw [hstage]; decide)
      outputReady_taken := fun hs => absurd hs (by simp [stageAfter, stageBefore])
      stage_of_flag := fun hf => absurd (hflag.symm.trans hf) (by decide)
      flag_of_stage := fun hs => absurd hs (by simp [stageAfter, stageBefore]) }
  | waitOutputReady =>
    simp only [shutdownTurn] at ht
    split at ht <;> cases ht
    exact { h with
      done_of_idle := fun hs => absurd hs (by simp [stageAfter, stageBefore])
      atRest := fun _ => h.atRest (by rw [hstage]; decide)
      ready_taken := fun _ => h.ready_taken (by rw [hstage]; decide)
      outputReady_taken := fun _ => rfl
      stage_of_flag := fun hf => absurd (hflag.symm.trans hf) (by decide)
      flag_of_stage := fun hs => absurd hs (by simp [stageAfter, stageBefore]) }
  | setCompress | setOutput =>
    cases ht
    exact { h with
      done_of_idle := fun hs => absurd hs (by simp [stageAfter, stageBefore])
      atRest := fun _ => h.atRest (by rw [hstage]; decide)
      ready_taken := fun _ => h.ready_taken (by rw [hstage]; decide)
      outputReady_taken := fun _ => h.outputReady_taken (by rw [hstage]; decide)
      stage_of_flag := fun _ => by simp [stageAfter, stageBefore]
      flag_of_stage := fun _ => hflag }
  | joinCompress =>
    simp only [shutdownTurn] at ht
    split at ht <;> cases ht
    exact { h with
      done_of_idle := fun hs => absurd hs (by simp [stageAfter])
      atRest := fun _ => h.atRest (by rw [hstage]; decide)
      ready_taken := fun _ => h.ready_taken (by rw [hstage]; decide)
      outputReady_taken := fun _ => h.outputReady_taken (by rw [hstage]; decide)
      stage_of_flag := fun _ => by simp [stageAfter]
      flag_of_stage := fun _ => hflag }

theorem ContentsOk.shutdownMove (h : ContentsOk compress v)
    (hflag : v.flag = decide (3 ≤ stageBefore loop))
    (ht : shutdownTurn loop v.thread = some t) :
    ContentsOk compress { v with thread := t, stage := stageAfter loop } := by
  cases loop with
  | waitReady | waitDone | waitOutputReady | joinCompress =>
    simp only [shutdownTurn] at ht
    split at ht <;> cases ht
    exact { h with }
  | setCompress | setOutput =>
    have hset : v.flag = true := hflag
    obtain ⟨h13, h14, h15, h16, h17⟩ := h
    cases ht
    constructor <;> grind

theorem SlotOk.shutdownMove (h : SlotOk compress v)
    (hstage : v.stage = stageBefore loop) (hflag : v.flag = decide (3 ≤ stageBefore loop))
    (ht : shutdownTurn loop v.thread = some t) :
    SlotOk compress { v with thread := t, stage := stageAfter loop } :=
  ⟨h.toTokensOk.shutdownMove hstage ht, .shutdownMove h.toTokensOk h.toPhaseOk hstage hflag ht,
    h.toContentsOk.shutdownMove hflag ht⟩

end Shutdown

/-! ### Moves of the output thread on its slot -/

section OutputMoves
variable {compress : P → Option R} {v : SlotView P R} (h : SlotOk compress v)
include h

theorem SlotOk.setOutputReady (houtput : v.output = .starting ∨ v.output = .readying) :
    SlotOk compress
      { v with thread := { v.thread with outputReadyEvent := true }, output := .away } := by
  have htoken := h.output
  have hrest := h.atRest
  have hstage := h.flag_of_stage
  have hoff := h.output_of_flag
  have hfull := h.stored_full
  have hempty := h.stored_empty
  refine
    { h with
      output := ?_, outputReady_taken := ?_, flag_of_outputReturned := fun hr => by cases hr
      output_of_flag := fun _ => ⟨by simp, by simp⟩, stored_full := ?_, stored_empty := ?_ } <;>
    grind

theorem SlotOk.takeOutput (houtput : v.output = .away) (hevent : v.thread.outputEvent = true) :
    SlotOk compress
      { v with thread := { v.thread with outputEvent := false }, output := .checking } := by
  have htoken := h.output
  have hfull := h.stored_full
  have hempty := h.stored_empty
  refine
    { h with
      output := ?_, flag_of_outputReturned := fun hr => by cases hr
      output_of_flag := fun _ => ⟨by simp, by simp⟩, stored_full := ?_, stored_empty := ?_ } <;>
    grind

theorem SlotOk.returnOutput (houtput : v.output = .checking) (hflag : v.flag = true) :
    SlotOk compress { v with output := .returned } := by
  have htoken := h.output
  have hfull := h.stored_full
  have hempty := h.stored_empty
  refine
    { h with
      output := ?_, flag_of_outputReturned := fun _ => hflag
      output_of_flag := fun _ => ⟨by simp, by simp⟩, stored_full := ?_, stored_empty := ?_ } <;>
    grind

theorem SlotOk.fetch (houtput : v.output = .checking) (hflag : v.flag = false) {r : R}
    (hr : v.thread.outputParameters = some r) :
    SlotOk compress
      { v with
        thread := { v.thread with outputParameters := none }
        output := .readying
        fetched := v.fetched ++ [r] } := by
  have htoken := h.output
  have hfull := h.stored_full
  refine
    { h with
      output := ?_, flag_of_outputReturned := fun hr => by cases hr
      output_of_flag := fun hf => absurd (hflag.symm.trans hf) (by decide)
      stored_full := ?_, stored_empty := ?_ } <;>
    grind

end OutputMoves

end DolphinXR.DiscIO
