import DolphinXR.DiscIO.CompressorRun

/- When `Shutdown` gets stuck. The output thread visits the slots strictly in turn
   and waits for a result at each, and a job that fails has none, so that the
   results of the other slots can be left behind: their `outputReadyEvent` stays
   down, and `Shutdown` waits for it. It does not happen where the results are
   dealt to the slots in turn as the jobs are: `shutdown_not_stuck`. And where they
   are not, `Shutdown` never gets past its waits.

   In a state with no step every compression thread waits for a job or for its
   slot's output event, the output thread waits at some slot `x`, and the slot that
   `Shutdown` is waiting for has a result that has not been fetched. Slot `x` has
   none and no job left, so it has had fewer results than its turn. -/
namespace DolphinXR.DiscIO
open Lib
variable {P R : Type} {c : Compressor P R} {s : CompressorState P R}

/-- How many of the jobs dealt to slot `k` have a result. -/
def resultCount (c : Compressor P R) (jobs : List P) (k : Nat) : Nat :=
  ((hand c.threads k jobs).filterMap c.compress).length

/-- The results are dealt to the slots in turn: an earlier slot has as many as a later
    one, or one more. -/
def Balanced (c : Compressor P R) (jobs : List P) : Prop :=
  ∀ i j, i < j → j < c.threads →
    resultCount c jobs j ≤ resultCount c jobs i ∧ resultCount c jobs i ≤ resultCount c jobs j + 1

/-! ### Threads without a step -/

theorem compressStep_eq_none {k : Nat} (h : CompressorOk c s) (hk : k < c.threads)
    (hstep : compressStep c s k = none) :
    (s.threads k).point = .waiting ∧ (s.threads k).compressEvent = false ∨
      (∃ r, (s.threads k).point = .waitOutput r) ∧ (s.threads k).outputReadyEvent = false ∨
      (s.threads k).point = .returned := by
  have hturn := Option.map_eq_none_iff.1 hstep
  cases hp : (s.threads k).point with
  | waiting =>
    simp only [compressTurn, hp] at hturn
    split at hturn
    · cases hturn
    · exact .inl ⟨rfl, Bool.eq_false_of_not_eq_true (by assumption)⟩
  | checking =>
    simp only [compressTurn, hp] at hturn
    split at hturn
    · cases hturn
    case isFalse hflag =>
      -- The mailbox holds a job.
      have hpending : (view c s k).inputPending := .inr ⟨Bool.eq_false_of_not_eq_true hflag, .inr hp⟩
      obtain ⟨p, hparameters, -⟩ := (h.slots k hk).jobs_full hpending
      rw [show (s.threads k).compressParameters = some p from hparameters] at hturn
      cases hturn
  | waitOutput r =>
    simp only [compressTurn, hp] at hturn
    split at hturn
    · cases hturn
    · exact .inr (.inl ⟨⟨r, rfl⟩, Bool.eq_false_of_not_eq_true (by assumption)⟩)
  | returned => exact .inr (.inr rfl)
  | compressing p =>
    simp only [compressTurn, hp] at hturn
    split at hturn <;> cases hturn
  | _ =>
    simp only [compressTurn, hp] at hturn
    cases hturn

theorem outputStep_eq_none (h : CompressorOk c s) (hstep : outputStep c s = none) :
    s.output = .waiting ∧ (s.threads s.outputIndex).outputEvent = false ∨ s.output = .returned := by
  cases houtput : s.output with
  | waiting =>
    simp only [outputStep, houtput] at hstep
    split at hstep
    · cases hstep
    · exact .inl ⟨rfl, Bool.eq_false_of_not_eq_true (by assumption)⟩
  | checking =>
    simp only [outputStep, houtput] at hstep
    split at hstep
    · cases hstep
    case isFalse hflag =>
      have hpending : (view c s s.outputIndex).outputPending :=
        .inr ⟨Bool.eq_false_of_not_eq_true hflag, .inr (by simp [view, outputSlot, houtput])⟩
      obtain ⟨r, hparameters, -⟩ := (h.slots _ (outputIndex_lt h)).stored_full hpending
      rw [Option.map_eq_none_iff] at hstep
      exact absurd (hstep.symm.trans hparameters) (by simp)
  | returned => exact .inr rfl
  | starting i =>
    simp only [outputStep, houtput] at hstep
    split at hstep <;> cases hstep
  | _ =>
    simp only [outputStep, houtput] at hstep
    cases hstep

theorem resultCount_ge_stored {k : Nat} (h : CompressorOk c s) (hk : k < c.threads) :
    (s.threads k).stored.length ≤ resultCount c s.accepted k := by
  have hslot := h.slots k hk
  have hjobs : ∃ rest, hand c.threads k s.accepted = (s.threads k).processed ++ rest := by
    by_cases hpending : (view c s k).inputPending
    · obtain ⟨p, -, hjobs⟩ := hslot.jobs_full hpending
      exact ⟨_, hjobs.trans (List.append_assoc ..)⟩
    · exact ⟨_, hslot.jobs_empty hpending⟩
  obtain ⟨rest, hrest⟩ := hjobs
  have hresults : (s.threads k).processed.filterMap c.compress =
      (s.threads k).stored ++ (s.threads k).point.inflight := hslot.results
  rw [resultCount, hrest, List.filterMap_append, hresults, List.length_append, List.length_append]
  omega

theorem resultCount_of_done {k : Nat} (h : CompressorOk c s) (hk : k < c.threads)
    (hinput : ¬(view c s k).inputPending) (houtput : ¬(view c s k).outputPending)
    (hcurrent : (s.threads k).point.current = []) (hinflight : (s.threads k).point.inflight = []) :
    resultCount c s.accepted k = handSize c.threads k s.fetched.length := by
  have hslot := h.slots k hk
  have hjobs : hand c.threads k s.accepted =
      (s.threads k).processed ++ (s.threads k).point.current := hslot.jobs_empty hinput
  have hresults : (s.threads k).processed.filterMap c.compress =
      (s.threads k).stored ++ (s.threads k).point.inflight := hslot.results
  have hstored : (s.threads k).stored = hand c.threads k s.fetched := hslot.stored_empty houtput
  rw [resultCount, hjobs, hcurrent, List.append_nil, hresults, hinflight, List.append_nil, hstored,
    length_hand hk]

/-! ### A slot that `Shutdown` waits for -/

/-- Before the flag, a slot without a step whose event `Shutdown` finds down has a result
    that has not been fetched, or the output thread is at it. -/
theorem awaited_hasResult {loop : ShutdownLoop} {i : Nat} (h : CompressorOk c s)
    (hcaller : s.caller = .shutdown loop i) (hi : i < c.threads) (hflag : s.shuttingDown = false)
    (hcompress : compressStep c s i = none) (hturn : shutdownTurn loop (s.threads i) = none) :
    (s.threads i).outputEvent = true ∨ (view c s i).output ≠ .away := by
  have hslot := h.slots i hi
  have hstage : (view c s i).stage = stageBefore loop := by
    rw [view, hcaller, stage_shutdown_self]
  have haway : (view c s i).caller = .away := by simp [view, callerSlot, hcaller]
  have hnotReturned : (s.threads i).point ≠ .returned := fun hpoint =>
    Bool.eq_false_iff.1 hflag (hslot.flag_of_returned hpoint)
  have hinput : (s.threads i).compressReadyEvent.toNat + (s.threads i).compressEvent.toNat +
      (view c s i).callerInput + (s.threads i).point.holdsInput = 1 := hslot.input
  have houtput : (s.threads i).outputReadyEvent.toNat + (s.threads i).outputEvent.toNat +
      (view c s i).callerOutput + (s.threads i).point.holdsOutput +
      (if (view c s i).output = .away then 0 else 1) = 1 := hslot.output
  have hbefore : stageBefore loop < 3 := by
    by_contra hge
    cases loop with
    | joinCompress => exact Bool.eq_false_iff.1 hflag (hslot.flag_of_stage (by rw [hstage]; decide))
    | setCompress | setOutput => cases hturn
    | _ => exact hge (by decide)
  have hoff : (s.threads i).outputReadyEvent = false ∧ (s.threads i).point.holdsOutput = 0 := by
    rcases compressStep_eq_none h hi hcompress with ⟨hpoint, hevent⟩ | ⟨⟨r, hpoint⟩, hready⟩ | hpoint
    · rw [hpoint] at hinput
      refine ⟨?_, by rw [hpoint]; rfl⟩
      cases loop with
      | waitReady =>
        -- Nobody would have the input token.
        have hready : (s.threads i).compressReadyEvent = false := by
          simpa [shutdownTurn] using hturn
        simp [hready, hevent, SlotView.callerInput, haway, hstage, stageBefore,
          CompressPoint.holdsInput] at hinput
      | waitDone =>
        have hdone := hslot.done_of_idle (by rw [hstage]; decide)
          (show (s.threads i).point.isIdle = true by rw [hpoint]; rfl)
        simp only [shutdownTurn] at hturn
        split at hturn
        · cases hturn
        · exact absurd hdone (by assumption)
      | waitOutputReady => simpa [shutdownTurn] using hturn
      | _ => exact absurd hbefore (by decide)
    · exact ⟨hready, by rw [hpoint]; rfl⟩
    · exact absurd hpoint hnotReturned
  rw [hoff.1, hoff.2, SlotView.callerOutput, hstage, if_neg (by omega)] at houtput
  by_cases hevent : (s.threads i).outputEvent = true
  · exact .inl hevent
  · refine .inr fun hout => ?_
    simp [Bool.eq_false_of_not_eq_true hevent, hout] at houtput

theorem awaiting_done (h : CompressorOk c s) (houtput : s.output = .waiting)
    (hflag : s.shuttingDown = false) (hcaller : callerSlot s.caller s.currentIndex s.outputIndex = .away)
    (hcompress : compressStep c s s.outputIndex = none)
    (hevent : (s.threads s.outputIndex).outputEvent = false) :
    resultCount c s.accepted s.outputIndex = handSize c.threads s.outputIndex s.fetched.length := by
  have hx := outputIndex_lt h
  have hslot := h.slots _ hx
  have haway : (view c s s.outputIndex).output = .away := by simp [view, outputSlot, houtput]
  have htoken : (s.threads s.outputIndex).outputReadyEvent.toNat +
      (s.threads s.outputIndex).outputEvent.toNat + (view c s s.outputIndex).callerOutput +
      (s.threads s.outputIndex).point.holdsOutput +
      (if (view c s s.outputIndex).output = .away then 0 else 1) = 1 := hslot.output
  rcases compressStep_eq_none h hx hcompress with ⟨hpoint, hjob⟩ | ⟨⟨r, hpoint⟩, hready⟩ | hpoint
  · refine resultCount_of_done h hx ?_ ?_ (by rw [hpoint]; rfl) (by rw [hpoint]; rfl)
    · simp [SlotView.inputPending, view, hcaller, hjob, hpoint]
    · simp [SlotView.outputPending, view, outputSlot, houtput, hevent, hpoint]
  · -- The output token would be with `Shutdown`, which waits for this thread first.
    have hrest : ¬2 ≤ (view c s s.outputIndex).stage := by
      intro hstage
      have hat : (s.threads s.outputIndex).point.isAtRest = true := hslot.atRest hstage
      rw [hpoint] at hat
      cases hat
    rw [hready, hevent, haway, hpoint, SlotView.callerOutput, if_neg (by omega)] at htoken
    cases htoken
  · exact absurd (hslot.flag_of_returned hpoint) (Bool.eq_false_iff.1 hflag)

/-! ### No step is left -/

theorem not_balanced {i : Nat} (h : CompressorOk c s) (hi : i < c.threads)
    (houtput : s.output = .waiting) (hflag : s.shuttingDown = false)
    (hevent : (s.threads s.outputIndex).outputEvent = false)
    (hresult : (s.threads i).outputEvent = true)
    (hdone : resultCount c s.accepted s.outputIndex =
      handSize c.threads s.outputIndex s.fetched.length) : ¬Balanced c s.accepted := by
  have hx := outputIndex_lt h
  obtain ⟨d, hlen, hd⟩ := h.outputIndex
  rw [houtput] at hlen
  have hindex : s.outputIndex = s.fetched.length % c.threads := by rw [hd, hlen]; rfl
  obtain ⟨r, -, hstored⟩ := (h.slots i hi).stored_full (.inr ⟨hflag, .inl hresult⟩)
  have hmore : handSize c.threads i s.fetched.length + 1 ≤ resultCount c s.accepted i := by
    have hcount : (s.threads i).stored.length = handSize c.threads i s.fetched.length + 1 := by
      rw [show (s.threads i).stored = hand c.threads i s.fetched ++ [r] from hstored,
        List.length_append, length_hand hi, List.length_singleton]
    rw [← hcount]
    exact resultCount_ge_stored h hi
  have hfew : resultCount c s.accepted s.outputIndex = s.fetched.length / c.threads := by
    rw [hdone, handSize_of_ge hx (by omega)]
  intro hbalanced
  rcases Nat.lt_trichotomy i s.outputIndex with hlt | rfl | hgt
  · have hle := (hbalanced i _ hlt hx).2
    rw [handSize_of_lt c.threads_pos (by omega)] at hmore
    omega
  · rw [hevent] at hresult
    cases hresult
  · have hle := (hbalanced _ i hgt hi).1
    rw [handSize_of_ge hi (by omega)] at hmore
    omega

theorem returned_of_flag {k : Nat} (h : CompressorOk c s) (hk : k < c.threads)
    (hstage : stage s.caller k = 5) (hcaller : callerSlot s.caller s.currentIndex k = .away)
    (hcompress : compressStep c s k = none) : (s.threads k).point = .returned := by
  have hslot := h.slots k hk
  have hinput : (s.threads k).compressReadyEvent.toNat + (s.threads k).compressEvent.toNat +
      (view c s k).callerInput + (s.threads k).point.holdsInput = 1 := hslot.input
  have hready : (s.threads k).compressReadyEvent = false :=
    hslot.ready_taken (show 1 ≤ stage s.caller k by omega)
  have hrest : (s.threads k).point.isAtRest = true :=
    hslot.atRest (show 2 ≤ stage s.caller k by omega)
  rcases compressStep_eq_none h hk hcompress with ⟨hpoint, hevent⟩ | ⟨⟨r, hpoint⟩, -⟩ | hpoint
  · simp [hready, hevent, hpoint, SlotView.callerInput, view, hcaller, hstage,
      CompressPoint.holdsInput] at hinput
  · rw [hpoint] at hrest
    cases hrest
  · exact hpoint

theorem outputReturned_of_flag (h : CompressorOk c s)
    (hstage : stage s.caller s.outputIndex = 5) (houtput : outputStep c s = none) :
    s.output = .returned := by
  rcases outputStep_eq_none h houtput with ⟨hwaiting, hevent⟩ | hreturned
  · have hslot := h.slots _ (outputIndex_lt h)
    have htoken : (s.threads s.outputIndex).outputReadyEvent.toNat +
        (s.threads s.outputIndex).outputEvent.toNat + (view c s s.outputIndex).callerOutput +
        (s.threads s.outputIndex).point.holdsOutput +
        (if (view c s s.outputIndex).output = .away then 0 else 1) = 1 := hslot.output
    have hready : (s.threads s.outputIndex).outputReadyEvent = false :=
      hslot.outputReady_taken (show 3 ≤ stage s.caller s.outputIndex by omega)
    have hrest : (s.threads s.outputIndex).point.isAtRest = true :=
      hslot.atRest (show 2 ≤ stage s.caller s.outputIndex by omega)
    have hholds : (s.threads s.outputIndex).point.holdsOutput = 0 := by
      cases hpoint : (s.threads s.outputIndex).point <;> rw [hpoint] at hrest <;> first
        | rfl
        | cases hrest
    simp [hready, hevent, hholds, SlotView.callerOutput, view, hstage, outputSlot, hwaiting] at htoken
  · exact hreturned

theorem waits_not_stuck {loop : ShutdownLoop} {i : Nat} (h : CompressorOk c s)
    (hcaller : s.caller = .shutdown loop i) (hi : i < c.threads) (hflag : s.shuttingDown = false)
    (hturn : shutdownTurn loop (s.threads i) = none)
    (hcompress : ∀ k < c.threads, compressStep c s k = none) (houtput : outputStep c s = none) :
    ¬Balanced c s.accepted := by
  rcases outputStep_eq_none h houtput with ⟨hwaiting, hevent⟩ | hreturned
  · have haway : (view c s i).output = .away := by simp [view, outputSlot, hwaiting]
    have hresult := (awaited_hasResult h hcaller hi hflag (hcompress i hi) hturn).resolve_right
      (fun hne => hne haway)
    refine not_balanced h hi hwaiting hflag hevent hresult ?_
    exact awaiting_done h hwaiting hflag (by rw [hcaller]; rfl)
      (hcompress _ (outputIndex_lt h)) hevent
  · have hslot := (h.slots _ (outputIndex_lt h)).flag_of_outputReturned
      (by simp [view, outputSlot, hreturned])
    exact absurd hslot (Bool.eq_false_iff.1 hflag)

/-- `Shutdown` does not get stuck where the results are dealt in turn. -/
theorem shutdown_not_stuck (hreach : (compressorSystem c).Reachable s) (hin : InShutdown s)
    (hbalanced : Balanced c s.accepted) : ¬(compressorSystem c).Stuck s := by
  intro hstuck
  have h := compressorOk_of_reachable hreach
  have hcompress : ∀ k < c.threads, compressStep c s k = none := by
    intro k hk
    simpa [compressorSystem, compressorStep, hk] using hstuck (.compress k)
  have houtput : outputStep c s = none := hstuck .output
  have hcaller : callerStep c s = none := hstuck .caller
  rcases hin with ⟨loop, i, hloop⟩ | hstore | hjoin
  · simp only [callerStep, hloop] at hcaller
    split at hcaller
    case isFalse => cases hcaller
    case isTrue hi =>
      have hturn := Option.map_eq_none_iff.1 hcaller
      by_cases hflag : s.shuttingDown = true
      · have hloopFlag := h.flag
        rw [hflag, hloop] at hloopFlag
        cases loop with
        | joinCompress =>
          have hreturned := returned_of_flag h hi (by rw [hloop]; rfl) (by rw [hloop]; rfl)
            (hcompress i hi)
          simp [shutdownTurn, hreturned] at hturn
        | setCompress | setOutput => cases hturn
        | _ => cases hloopFlag
      · exact waits_not_stuck h hloop hi (Bool.eq_false_of_not_eq_true hflag) hturn hcompress
          houtput hbalanced
  · simp [callerStep, hstore] at hcaller
  · have hreturned := outputReturned_of_flag h (by rw [hjoin]; rfl) houtput
    simp [callerStep, hjoin, hreturned] at hcaller

/-- Two threads, and jobs that are their own results, with 0 for one that fails. -/
def twoThreads : Compressor Nat Nat :=
  { threads := 2, threads_pos := by decide, setUpOk := fun _ => true
    compress := fun p => if p = 0 then none else some p, outputOk := fun _ => true }

def startUp : List (CompressorAction Nat) :=
  [.compress 0, .compress 0, .compress 0, .compress 1, .compress 1, .compress 1,
    .output, .output, .output]

/-- `CompressAndWrite` on a slot that is ready. -/
def submit (p : Nat) : List (CompressorAction Nat) := [.call p, .caller, .caller, .caller]

/-- One job that succeeds, and `Shutdown` called. -/
def shutdownAfterSuccess : List (CompressorAction Nat) := startUp ++ submit 1 ++ [.shutdown]

theorem shutdownAfterSuccess_not_stuck : ∃ s,
    (compressorSystem twoThreads).run startState shutdownAfterSuccess = some s ∧
      ¬(compressorSystem twoThreads).Stuck s := by
  obtain ⟨s, hs⟩ := Option.isSome_iff_exists.1 (show ((compressorSystem twoThreads).run startState
    shutdownAfterSuccess).isSome = true by decide +kernel)
  have hcaller : s.caller = .shutdown .waitReady 0 :=
    System.run_eval hs CompressorState.caller (by decide +kernel)
  have haccepted : s.accepted = [1] :=
    System.run_eval hs CompressorState.accepted (by decide +kernel)
  refine ⟨s, hs, shutdown_not_stuck (System.Reachable.run (.init rfl) hs) (.inl ⟨_, _, hcaller⟩) ?_⟩
  rw [haccepted]
  intro i j hij hj
  obtain ⟨rfl, rfl⟩ : i = 0 ∧ j = 1 := by
    have hj' : j < 2 := hj
    omega
  exact ⟨by decide, by decide⟩

/-- A job that fails in slot 0 and one that succeeds in slot 1, both processed, and
    `Shutdown` up to its third wait on slot 1: the result lies there, and the output
    thread waits at slot 0. -/
def shutdownAfterFailure : List (CompressorAction Nat) :=
  startUp ++ submit 0 ++ submit 1 ++ List.replicate 7 (.compress 0) ++
    List.replicate 9 (.compress 1) ++ [.shutdown] ++ List.replicate 7 .caller

theorem shutdown_stuck_after_failure : ∃ s,
    (compressorSystem twoThreads).Reachable s ∧ InShutdown s ∧
      (compressorSystem twoThreads).Stuck s := by
  obtain ⟨s, hs⟩ := Option.isSome_iff_exists.1 (show ((compressorSystem twoThreads).run startState
    shutdownAfterFailure).isSome = true by decide +kernel)
  have hcaller : s.caller = .shutdown .waitOutputReady 1 :=
    System.run_eval hs CompressorState.caller (by decide +kernel)
  have hnone : ∀ a : CompressorAction Nat,
      ((compressorSystem twoThreads).run startState shutdownAfterFailure).map
        (fun s => (compressorStep twoThreads s a).isNone) = some true →
      compressorStep twoThreads s a = none :=
    fun _ h => Option.isNone_iff_eq_none.1 (System.run_eval hs _ h)
  refine ⟨s, System.Reachable.run (.init rfl) hs, .inl ⟨_, _, hcaller⟩, fun a => ?_⟩
  cases a with
  | call p => simp only [compressorSystem, compressorStep, hcaller]
  | setError => simp only [compressorSystem, compressorStep, hcaller]
  | shutdown => simp only [compressorSystem, compressorStep, hcaller]
  | caller => exact hnone .caller (by decide +kernel)
  | compress k =>
    rcases k with _ | _ | k
    · exact hnone (.compress 0) (by decide +kernel)
    · exact hnone (.compress 1) (by decide +kernel)
    · have hout : ¬k + 1 + 1 < twoThreads.threads := by simp [twoThreads]
      simp only [compressorSystem, compressorStep, if_neg hout]
  | output => exact hnone .output (by decide +kernel)

theorem balanced_of_shuttingDown (hreach : (compressorSystem c).Reachable s)
    (hflag : s.shuttingDown = true) : Balanced c s.accepted := by
  have h := compressorOk_of_reachable hreach
  have hcount : ∀ k < c.threads, resultCount c s.accepted k =
      handSize c.threads k s.fetched.length := by
    intro k hk
    have hslot := h.slots k hk
    have hstage : 3 ≤ (view c s k).stage := hslot.stage_of_flag hflag
    have hcaller : (view c s k).caller = .away := by
      have hcallerFlag := h.flag
      rw [hflag] at hcallerFlag
      cases hc : s.caller <;> simp [hc, CallerPoint.flag, view, callerSlot] at hcallerFlag ⊢
    have hrest : (s.threads k).point.isAtRest = true := hslot.atRest (by omega)
    have hview : (view c s k).flag = true := hflag
    have hpoint : (view c s k).thread.point = (s.threads k).point := rfl
    refine resultCount_of_done h hk ?_ ?_ ?_ ?_
    · simp [SlotView.inputPending, hcaller, hview]
    · rw [SlotView.outputPending, hpoint, hview]
      cases hp : (s.threads k).point <;> simp [hp, CompressPoint.isAtRest] at hrest ⊢
    all_goals
      cases hp : (s.threads k).point <;> simp [hp, CompressPoint.isAtRest] at hrest ⊢ <;> rfl
  intro i j hij hj
  rw [hcount i (by omega), hcount j hj]
  exact handSize_balanced _ hij hj

end DolphinXR.DiscIO
