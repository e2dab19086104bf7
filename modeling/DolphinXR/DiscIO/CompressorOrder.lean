import DolphinXR.DiscIO.CompressorShutdown

/- The order of the results. The output thread takes results from the slots in turn,
   and what it takes from a slot are the results of the slot's jobs in order. A
   failed job leaves no gap in its slot: where its slot has a later result, and the
   output thread gets that far, that one comes in its place. It cannot get that far
   exactly where a slot runs out of results at or before the failed job's place.
   Where no error is reported and `Shutdown` has returned, nothing is left in any
   slot, and the results are those of all jobs. -/
namespace DolphinXR.DiscIO
open Lib
variable {P R : Type} {c : Compressor P R} {s : CompressorState P R}

/-- At the place of a failed job, or before it, the output thread finds a slot with too few
    results. -/
def StopsAtFailures (c : Compressor P R) (jobs : List P) : Prop :=
  ∀ i p, jobs[i]? = some p → c.compress p = none →
    ∃ j ≤ i, resultCount c jobs (j % c.threads) ≤ j / c.threads

theorem stopsAtFailures_of_slots {jobs : List P}
    (h : ∀ k < c.threads, ∀ done rest p, hand c.threads k jobs = done ++ p :: rest →
      c.compress p = none → ∀ q ∈ rest, c.compress q = none) : StopsAtFailures c jobs := by
  intro i p hp hfailed
  refine ⟨i, Nat.le_refl i, ?_⟩
  have hk := Nat.mod_lt i c.threads_pos
  rw [getElem?_eq_hand c.threads_pos] at hp
  obtain ⟨hlt, rfl⟩ := List.getElem?_eq_some_iff.1 hp
  have hsplit : hand c.threads (i % c.threads) jobs =
      (hand c.threads (i % c.threads) jobs).take (i / c.threads) ++
        (hand c.threads (i % c.threads) jobs)[i / c.threads] ::
          (hand c.threads (i % c.threads) jobs).drop (i / c.threads + 1) := by
    rw [List.getElem_cons_drop, List.take_append_drop]
  have hrest := h _ hk _ _ _ hsplit hfailed
  rw [resultCount, hsplit, List.filterMap_append, List.filterMap_cons_none hfailed,
    List.filterMap_eq_nil_iff.2 hrest, List.append_nil]
  refine (List.length_filterMap_le ..).trans ?_
  rw [List.length_take]
  omega

/-! ### What has been fetched -/

theorem fetched_hand {k : Nat} (h : CompressorOk c s) (hk : k < c.threads) :
    hand c.threads k s.fetched <+: (hand c.threads k s.accepted).filterMap c.compress := by
  have hslot := h.slots k hk
  obtain ⟨rest, hrest⟩ : (s.threads k).processed <+: hand c.threads k s.accepted := by
    by_cases hpending : (view c s k).inputPending
    · obtain ⟨p, -, hjobs⟩ := hslot.jobs_full hpending
      exact ⟨_, (hjobs.trans (List.append_assoc ..)).symm⟩
    · exact ⟨_, (hslot.jobs_empty hpending).symm⟩
  have hstored : hand c.threads k s.fetched <+: (s.threads k).stored := by
    by_cases hpending : (view c s k).outputPending
    · obtain ⟨r, -, hresults⟩ := hslot.stored_full hpending
      exact ⟨_, hresults.symm⟩
    · exact ⟨[], (List.append_nil _).trans (hslot.stored_empty hpending).symm⟩
  have hresults : (s.threads k).processed.filterMap c.compress =
      (s.threads k).stored ++ (s.threads k).point.inflight := hslot.results
  rw [← hrest, List.filterMap_append, hresults]
  exact hstored.trans ((List.prefix_append ..).trans (List.prefix_append ..))

theorem fetched_eq (h : CompressorOk c s) {i : Nat} (hi : i < s.fetched.length) :
    s.fetched[i]? =
      ((hand c.threads (i % c.threads) s.accepted).filterMap c.compress)[i / c.threads]? := by
  obtain ⟨rest, hrest⟩ := fetched_hand h (Nat.mod_lt i c.threads_pos)
  have hget := getElem?_eq_hand c.threads_pos s.fetched i
  have hlt : i / c.threads < (hand c.threads (i % c.threads) s.fetched).length := by
    by_contra hge
    have hnone := hget.trans (List.getElem?_eq_none (Nat.le_of_not_lt hge))
    rw [List.getElem?_eq_none_iff] at hnone
    omega
  rw [hget, ← hrest, List.getElem?_append_left hlt]

theorem fetched_getElem? (h : CompressorOk c s) {i : Nat} (hi : i < s.fetched.length)
    (hjobs : ∀ j ≤ i, ∀ p, s.accepted[j]? = some p → (c.compress p).isSome) :
    s.fetched[i]? = s.accepted[i]?.bind c.compress := by
  have hk := Nat.mod_lt i c.threads_pos
  have hdiv := Nat.mod_add_div i c.threads
  rw [fetched_eq h hi, filterMap_getElem?, ← getElem?_eq_hand c.threads_pos]
  intro m hm p hp
  rw [getElem?_hand hk] at hp
  have hle : c.threads * m ≤ c.threads * (i / c.threads) := Nat.mul_le_mul_left _ hm
  rw [Nat.mul_comm] at hle
  exact hjobs (i % c.threads + m * c.threads) (by omega) p hp

theorem fetched_before_failure (h : CompressorOk c s) (hstops : StopsAtFailures c s.accepted)
    {i : Nat} (hi : i < s.fetched.length) {p : P} (hp : s.accepted[i]? = some p) :
    (c.compress p).isSome := by
  rw [Option.isSome_iff_ne_none]
  intro hfailed
  obtain ⟨j, hj, hcount⟩ := hstops i p hp hfailed
  have hget := fetched_eq h (show j < s.fetched.length by omega)
  have hnone := hget.trans (List.getElem?_eq_none hcount)
  rw [List.getElem?_eq_none_iff] at hnone
  omega

theorem fetched_map_some (h : CompressorOk c s) (hstops : StopsAtFailures c s.accepted) :
    s.fetched.map some = (s.accepted.take s.fetched.length).map c.compress := by
  refine List.ext_getElem? fun i => ?_
  rw [List.getElem?_map, List.getElem?_map, List.getElem?_take]
  by_cases hi : i < s.fetched.length
  · have hget := fetched_getElem? h hi fun j hj p hp =>
      fetched_before_failure h hstops (Nat.lt_of_le_of_lt hj hi) hp
    rw [if_pos hi, List.getElem?_eq_getElem hi] at *
    cases hjob : s.accepted[i]? with
    | none => simp [hjob] at hget
    | some p => simpa [hjob, eq_comm] using hget
  · rw [if_neg hi, List.getElem?_eq_none (by omega)]
    rfl

/-! ### What has been passed on -/

theorem accepted_prefix_called (h : CompressorOk c s) : s.accepted <+: s.called := by
  obtain ⟨refused, hcalled, -⟩ := h.calls
  exact ⟨s.caller.call ++ refused, by rw [hcalled, List.append_assoc]⟩

theorem outputs_prefix_called (h : CompressorOk c s) (hstops : StopsAtFailures c s.accepted) :
    s.outputs.map some <+: s.called.map c.compress := by
  have houtputs : s.outputs <+: s.fetched := ⟨_, h.outputs.symm⟩
  have hfetched : s.fetched.map some <+: s.accepted.map c.compress := by
    rw [fetched_map_some h hstops]
    exact (List.take_prefix ..).map _
  exact (houtputs.map _).trans (hfetched.trans ((accepted_prefix_called h).map _))

theorem returned_hand {k : Nat} (h : CompressorOk c s) (hcaller : s.caller = .returned)
    (hk : k < c.threads) : (s.threads k).processed = hand c.threads k s.accepted ∧
      (s.threads k).processed.filterMap c.compress = hand c.threads k s.fetched := by
  have hslot := h.slots k hk
  have hpoint : (s.threads k).point = .returned :=
    h.joined k hk (by rw [hcaller]; exact hk)
  have hflag : s.shuttingDown = true := by rw [h.flag, hcaller]; rfl
  have hinput : ¬(view c s k).inputPending := by
    simp [SlotView.inputPending, view, callerSlot, hcaller, hflag]
  have houtput : ¬(view c s k).outputPending := by
    simp [SlotView.outputPending, view, hpoint, hflag]
  have hjobs : hand c.threads k s.accepted =
      (s.threads k).processed ++ (s.threads k).point.current := hslot.jobs_empty hinput
  have hresults : (s.threads k).processed.filterMap c.compress =
      (s.threads k).stored ++ (s.threads k).point.inflight := hslot.results
  have hstored : (s.threads k).stored = hand c.threads k s.fetched := hslot.stored_empty houtput
  rw [hpoint] at hjobs hresults
  refine ⟨(hjobs.trans (List.append_nil _)).symm, ?_⟩
  rw [hresults, hstored]
  exact List.append_nil _

theorem outputs_complete (h : CompressorOk c s) (hcaller : s.caller = .returned)
    (herror : s.error = false) : s.outputs.map some = s.called.map c.compress := by
  have hcalled : s.called = s.accepted := by
    obtain ⟨refused, hcalled, hrefused⟩ := h.calls
    have hnone : refused = [] := by
      by_contra hne
      exact Bool.eq_false_iff.1 herror (hrefused hne).1
    rw [hcalled, hcaller, hnone, List.append_nil]
    exact List.append_nil _
  have hfetched : s.fetched = s.outputs := by
    rw [h.outputs, h.outputReturned hcaller]
    exact List.append_nil _
  have hsome : ∀ k < c.threads, ∀ p ∈ hand c.threads k s.accepted, (c.compress p).isSome := by
    intro k hk p hp
    have hpoint : (s.threads k).point = .returned :=
      h.joined k hk (by rw [hcaller]; exact hk)
    rw [← (returned_hand h hcaller hk).1] at hp
    exact h.succeeded herror k hk (by rw [hpoint]; simp) p hp
  rw [hcalled, ← hfetched]
  refine List.ext_getElem? fun i => ?_
  have hk := Nat.mod_lt i c.threads_pos
  obtain ⟨hprocessed, hresults⟩ := returned_hand h hcaller hk
  have hall : ((hand c.threads (i % c.threads) s.accepted).filterMap c.compress)[i / c.threads]? =
      (hand c.threads (i % c.threads) s.accepted)[i / c.threads]?.bind c.compress :=
    filterMap_getElem? fun m _ p hp => hsome _ hk p (List.mem_of_getElem? hp)
  rw [List.getElem?_map, List.getElem?_map, getElem?_eq_hand c.threads_pos s.fetched, ← hresults,
    hprocessed, hall, ← getElem?_eq_hand c.threads_pos]
  cases hjob : s.accepted[i]? with
  | none => rfl
  | some p =>
    have hmem : p ∈ hand c.threads (i % c.threads) s.accepted := by
      rw [getElem?_eq_hand c.threads_pos] at hjob
      exact List.mem_of_getElem? hjob
    obtain ⟨r, hr⟩ := Option.isSome_iff_exists.1 (hsome _ hk p hmem)
    simp [hr]

/-- What the output function has been called with, in every reachable state: where the
    output thread cannot get to a failed job, the results of the first calls in their
    order, and after `Shutdown` without an error those of all calls. -/
theorem outputs_inOrder (hreach : (compressorSystem c).Reachable s) :
    (StopsAtFailures c s.accepted → s.outputs.map some <+: s.called.map c.compress) ∧
      (s.caller = .returned → s.error = false →
        s.outputs.map some = s.called.map c.compress) :=
  have h := compressorOk_of_reachable hreach
  ⟨outputs_prefix_called h, outputs_complete h⟩

/-- Jobs 1 and 2, of which job 2 is done first, and two more put into the mailboxes. -/
def twoRounds (last : Nat) : List (CompressorAction Nat) :=
  List.flatten [startUp, submit 1, submit 2, List.replicate 9 (.compress 1),
    List.replicate 9 (.compress 0), List.replicate 5 .output, submit 3,
    List.replicate 5 .output, submit last]

/-- Four jobs that succeed, each second one before the first, up to the end of `Shutdown`. -/
def finishedRun : List (CompressorAction Nat) :=
  List.flatten [twoRounds 4, List.replicate 9 (.compress 1), List.replicate 9 (.compress 0),
    List.replicate 10 .output, [.shutdown], List.replicate 16 .caller,
    List.replicate 2 (.compress 0), List.replicate 2 (.compress 1),
    List.replicate 2 .output, List.replicate 4 .caller]

def lastFails : List (CompressorAction Nat) :=
  List.flatten [twoRounds 0, List.replicate 7 (.compress 1), List.replicate 9 (.compress 0),
    List.replicate 5 .output]

theorem lastFails_stops : StopsAtFailures twoThreads [1, 2, 3, 0] := by
  intro i p hp hfailed
  obtain ⟨hi, hget⟩ := List.getElem?_eq_some_iff.1 hp
  have hfails : ∀ i, (h : i < 4) → twoThreads.compress ([1, 2, 3, 0][i]) = none → i = 3 := by decide
  obtain rfl := hfails i hi (hget ▸ hfailed)
  exact ⟨3, Nat.le_refl 3, by decide⟩

theorem finishedRun_inOrder :
    (∃ s, (compressorSystem twoThreads).run startState finishedRun = some s ∧
      s.called = [1, 2, 3, 4] ∧ s.outputs = [1, 2, 3, 4] ∧
      s.outputs.map some = s.called.map twoThreads.compress) ∧
    ∃ s, (compressorSystem twoThreads).run startState lastFails = some s ∧
      s.called = [1, 2, 3, 0] ∧ s.error = true ∧ s.outputs = [1, 2, 3] ∧
      s.outputs.map some <+: s.called.map twoThreads.compress := by
  constructor
  · obtain ⟨s, hs⟩ := Option.isSome_iff_exists.1 (show ((compressorSystem twoThreads).run startState
      finishedRun).isSome = true by decide +kernel)
    have hcalled : s.called = [1, 2, 3, 4] :=
      System.run_eval hs CompressorState.called (by decide +kernel)
    have houtputs : s.outputs = [1, 2, 3, 4] :=
      System.run_eval hs CompressorState.outputs (by decide +kernel)
    have hcaller : s.caller = .returned :=
      System.run_eval hs CompressorState.caller (by decide +kernel)
    have herror : s.error = false := System.run_eval hs CompressorState.error (by decide +kernel)
    exact ⟨s, hs, hcalled, houtputs,
      (outputs_inOrder (System.Reachable.run (.init rfl) hs)).2 hcaller herror⟩
  · obtain ⟨s, hs⟩ := Option.isSome_iff_exists.1 (show ((compressorSystem twoThreads).run startState
      lastFails).isSome = true by decide +kernel)
    have hcalled : s.called = [1, 2, 3, 0] :=
      System.run_eval hs CompressorState.called (by decide +kernel)
    have haccepted : s.accepted = [1, 2, 3, 0] :=
      System.run_eval hs CompressorState.accepted (by decide +kernel)
    have herror : s.error = true := System.run_eval hs CompressorState.error (by decide +kernel)
    have houtputs : s.outputs = [1, 2, 3] :=
      System.run_eval hs CompressorState.outputs (by decide +kernel)
    exact ⟨s, hs, hcalled, herror, houtputs,
      (outputs_inOrder (System.Reachable.run (.init rfl) hs)).1 (haccepted ▸ lastFails_stops)⟩

/-- Jobs 0, 1 and 2, of which job 0 fails in slot 0 while job 2 lies in its mailbox. -/
def failureOvertaken : List (CompressorAction Nat) :=
  startUp ++ submit 0 ++ List.replicate 4 (.compress 0) ++ submit 1 ++ submit 2 ++
    List.replicate 12 (.compress 0) ++ List.replicate 4 .output

/-- The result of job 2 is passed on first. -/
theorem failureOvertaken_outputs : ∃ s, (compressorSystem twoThreads).Reachable s ∧
    s.called = [0, 1, 2] ∧ s.outputs = [2] ∧
      ¬s.outputs.map some <+: s.called.map twoThreads.compress := by
  obtain ⟨s, hs⟩ := Option.isSome_iff_exists.1 (show ((compressorSystem twoThreads).run startState
    failureOvertaken).isSome = true by decide +kernel)
  have hcalled : s.called = [0, 1, 2] :=
    System.run_eval hs CompressorState.called (by decide +kernel)
  have houtputs : s.outputs = [2] := System.run_eval hs CompressorState.outputs (by decide +kernel)
  refine ⟨s, System.Reachable.run (.init rfl) hs, hcalled, houtputs, ?_⟩
  rw [hcalled, houtputs]
  decide

end DolphinXR.DiscIO
