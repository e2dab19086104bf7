import DolphinXR.DiscIO.CompressorInvariant

/- The invariant of a whole compressor and that every step keeps it. Beside the
   slots' own invariants it says where in the round of the slots the caller and
   the output thread are, that what has been fetched is what has been passed on
   and the result at hand, and that a call is refused only after an error. A step
   moves the view of one slot; the other slots' views stay. -/
namespace DolphinXR.DiscIO
open Lib
variable {P R : Type}

def CallerPoint.ahead : CallerPoint P → Nat
  | .signalling => 1
  | _ => 0

def CallerPoint.call : CallerPoint P → List P
  | .submitting p | .storing p => [p]
  | _ => []

/-- `Shutdown` has set the flag. -/
def CallerPoint.flag : CallerPoint P → Bool
  | .shutdown .setCompress _ | .shutdown .setOutput _ | .shutdown .joinCompress _ => true
  | .joinOutput | .returned => true
  | _ => false

/-- How many of `n` compression threads `Shutdown` has joined. -/
def CallerPoint.joined (n : Nat) : CallerPoint P → Nat
  | .shutdown .joinCompress i => i
  | .joinOutput | .returned => n
  | _ => 0

def OutputPoint.ahead : OutputPoint R → Nat
  | .readying _ | .outputting _ | .failing | .advancing => 1
  | _ => 0

def OutputPoint.atHand : OutputPoint R → List R
  | .readying r | .outputting r => [r]
  | _ => []

structure CompressorOk (c : Compressor P R) (s : CompressorState P R) : Prop where
  slots : ∀ k < c.threads, SlotOk c.compress (view c s k)
  current : ∃ d, s.accepted.length = d + s.caller.ahead ∧ s.currentIndex = d % c.threads
  outputIndex : ∃ d, s.fetched.length = d + s.output.ahead ∧ s.outputIndex = d % c.threads
  outputs : s.fetched = s.outputs ++ s.output.atHand
  flag : s.shuttingDown = s.caller.flag
  calls : ∃ refused, s.called = s.accepted ++ s.caller.call ++ refused ∧
    (refused ≠ [] → s.error = true ∧ s.caller.call = [])
  succeeded : s.error = false → ∀ k < c.threads, (s.threads k).point ≠ .failing →
    ∀ p ∈ (s.threads k).processed, (c.compress p).isSome
  joined : ∀ k < c.threads, k < s.caller.joined c.threads → (s.threads k).point = .returned
  outputReturned : s.caller = .returned → s.output = .returned

theorem startState_ok (c : Compressor P R) : CompressorOk c (startState : CompressorState P R) where
  slots k _ := by
    refine ⟨?_, ?_, ?_⟩ <;> constructor <;> simp [view, startState, startThread, callerSlot, stage, outputSlot,
      SlotView.callerInput, SlotView.callerOutput, SlotView.inputPending, SlotView.outputPending,
      CompressPoint.holdsInput, CompressPoint.holdsOutput, CompressPoint.isIdle,
      CompressPoint.current, CompressPoint.inflight]
  current := ⟨0, rfl, (Nat.zero_mod _).symm⟩
  outputIndex := ⟨0, rfl, (Nat.zero_mod _).symm⟩
  outputs := rfl
  flag := rfl
  calls := ⟨[], rfl, fun h => absurd rfl h⟩
  succeeded _ _ _ _ _ hp := by cases hp
  joined k _ hk := by cases hk
  outputReturned h := by cases h

section Slots
variable {c : Compressor P R} {s s' : CompressorState P R}

theorem slots_of_moved {i : Nat} (h : ∀ k < c.threads, SlotOk c.compress (view c s k))
    (hmoved : SlotOk c.compress (view c s' i)) (hother : ∀ k, k ≠ i → view c s' k = view c s k) :
    ∀ k < c.threads, SlotOk c.compress (view c s' k) := by
  intro k hk
  by_cases hki : k = i
  · rw [hki]
    exact hmoved
  · rw [hother k hki]
    exact h k hk

theorem slots_of_unmoved (h : ∀ k < c.threads, SlotOk c.compress (view c s k))
    (hview : ∀ k < c.threads, view c s' k = view c s k) :
    ∀ k < c.threads, SlotOk c.compress (view c s' k) := by
  intro k hk
  rw [hview k hk]
  exact h k hk

end Slots

theorem nextIndex_mod {n : Nat} (hn : 0 < n) (d : Nat) : nextIndex n (d % n) = (d + 1) % n := by
  have hlt := Nat.mod_lt d hn
  have hmod : (d + 1) % n = (d % n + 1) % n := (Nat.mod_add_mod d n 1).symm
  rw [hmod, nextIndex]
  split
  · rw [show d % n + 1 = n by omega, Nat.mod_self, Nat.sub_self]
  · exact (Nat.mod_eq_of_lt (by omega)).symm

/-! ### Steps of a compression thread -/

section Compress
variable {c : Compressor P R} {s : CompressorState P R}

theorem compressTurn_succeeded {compress : P → Option R} {flag : Bool}
    {t t' : CompressThread P R} (ht : compressTurn compress flag t = some t')
    (h : t.point ≠ .failing → ∀ p ∈ t.processed, (compress p).isSome)
    (hpoint : t.point ≠ .failing) (hpoint' : t'.point ≠ .failing) :
    ∀ p ∈ t'.processed, (compress p).isSome := by
  have hall := h hpoint
  cases compressTurn_eq_some ht with
  | compressed p r hp hr =>
    intro q hq
    rcases List.mem_append.1 hq with hq | hq
    · exact hall q hq
    · rw [List.mem_singleton.1 hq, hr]
      rfl
  | failed p hp hr => exact absurd rfl hpoint'
  | _ => exact hall

theorem compressTurn_returned {compress : P → Option R} {flag : Bool}
    {t t' : CompressThread P R} (ht : compressTurn compress flag t = some t') :
    t.point ≠ .returned := by
  intro hp
  simp [compressTurn, hp] at ht

theorem compressStep_ok {k : Nat} {s' : CompressorState P R} (h : CompressorOk c s)
    (hk : k < c.threads) (hstep : compressStep c s k = some s') : CompressorOk c s' := by
  obtain ⟨t, ht, rfl⟩ := Option.map_eq_some_iff.1 hstep
  have hself : (Function.update s.threads k t) k = t := Function.update_self ..
  have hother : ∀ j, j ≠ k → (Function.update s.threads k t) j = s.threads j :=
    fun j hj => Function.update_of_ne hj ..
  refine { h with slots := ?slots, calls := ?calls, succeeded := ?succeeded, joined := ?joined }
  case slots =>
    refine slots_of_moved h.slots (i := k) ?_ ?_
    · have hturn := (h.slots k hk).turn ht
      simpa only [view, CompressorState.setThread, hself] using hturn
    · intro j hj
      simp only [view, CompressorState.setThread, hother j hj]
  case calls =>
    obtain ⟨refused, hcalled, herror⟩ := h.calls
    refine ⟨refused, hcalled, fun hne => ⟨?_, (herror hne).2⟩⟩
    rw [(herror hne).1, Bool.true_or]
  case succeeded =>
    intro herror j hj hpoint
    obtain ⟨hbefore, hsets⟩ := Bool.or_eq_false_iff.1 herror
    by_cases hjk : j = k
    · subst hjk
      simp only [CompressorState.setThread, hself] at hpoint ⊢
      refine compressTurn_succeeded ht (h.succeeded hbefore j hj) ?_ hpoint
      intro hfailing
      simp [setsError, hfailing] at hsets
    · simp only [CompressorState.setThread, hother j hjk] at hpoint ⊢
      exact h.succeeded hbefore j hj hpoint
  case joined =>
    intro j hj hjoined
    have hreturned := h.joined j hj hjoined
    by_cases hjk : j = k
    · subst hjk
      exact absurd hreturned (compressTurn_returned ht)
    · simp only [CompressorState.setThread, hother j hjk]
      exact hreturned

end Compress

/-! ### Steps of the caller -/

section Caller
variable {c : Compressor P R} {s : CompressorState P R}

theorem currentIndex_lt (h : CompressorOk c s) : s.currentIndex < c.threads := by
  obtain ⟨d, -, hd⟩ := h.current
  rw [hd]
  exact Nat.mod_lt d c.threads_pos

theorem outputIndex_lt (h : CompressorOk c s) : s.outputIndex < c.threads := by
  obtain ⟨d, -, hd⟩ := h.outputIndex
  rw [hd]
  exact Nat.mod_lt d c.threads_pos

/-- A change of a thread's record that leaves its point and its history alone. -/
def SamePoint (t t' : CompressThread P R) : Prop :=
  t'.point = t.point ∧ t'.processed = t.processed

theorem succeeded_setThread (h : CompressorOk c s) {i : Nat} {t : CompressThread P R}
    (ht : SamePoint (s.threads i) t) (herror : s.error = false) :
    ∀ k < c.threads, ((s.setThread i t).threads k).point ≠ .failing →
      ∀ p ∈ ((s.setThread i t).threads k).processed, (c.compress p).isSome := by
  intro k hk
  by_cases hki : k = i
  · subst hki
    simp only [CompressorState.setThread, Function.update_self, ht.1, ht.2]
    exact h.succeeded herror k hk
  · simp only [CompressorState.setThread, Function.update_of_ne hki]
    exact h.succeeded herror k hk

theorem point_setThread {i : Nat} {t : CompressThread P R}
    (ht : SamePoint (s.threads i) t) (k : Nat) :
    ((s.setThread i t).threads k).point = (s.threads k).point := by
  by_cases hki : k = i
  · subst hki
    simp only [CompressorState.setThread, Function.update_self, ht.1]
  · simp only [CompressorState.setThread, Function.update_of_ne hki]

theorem shutdownTurn_samePoint {loop : ShutdownLoop} {t t' : CompressThread P R}
    (ht : shutdownTurn loop t = some t') : SamePoint t t' := by
  cases loop <;> simp only [shutdownTurn] at ht <;> unfold SamePoint <;> grind

theorem submitting_ok {p : P} (h : CompressorOk c s) (hcaller : s.caller = .submitting p)
    (hready : (s.threads s.currentIndex).compressReadyEvent = true) :
    CompressorOk c
      { s.setThread s.currentIndex
          { s.threads s.currentIndex with compressReadyEvent := false } with
        caller := .storing p } := by
  have hslot := h.slots _ (currentIndex_lt h)
  obtain ⟨hslots, hcurrent, houtputIndex, houtputs, hflag, hcalls, -, -, -⟩ := id h
  rw [hcaller] at hcurrent hflag hcalls
  refine
    { slots := slots_of_moved hslots (i := s.currentIndex) ?_ ?_, current := hcurrent
      outputIndex := houtputIndex, outputs := houtputs, flag := hflag, calls := hcalls
      succeeded := succeeded_setThread h ⟨rfl, rfl⟩
      joined := fun _ _ hk => absurd hk (Nat.not_lt_zero _), outputReturned := fun hk => by cases hk }
  · have hmove := hslot.takeReady (by simp [view, callerSlot, hcaller])
      (by simp [view, stage, hcaller]) hready
    simpa [view, CompressorState.setThread, callerSlot, stage, hcaller] using hmove
  · intro k hk
    simp [view, CompressorState.setThread, callerSlot, stage, hcaller, Function.update_of_ne hk,
      Ne.symm hk]

theorem storing_ok {p : P} (h : CompressorOk c s) (hcaller : s.caller = .storing p) :
    CompressorOk c
      { s.setThread s.currentIndex
          { s.threads s.currentIndex with compressParameters := some p } with
        caller := .signalling
        accepted := s.accepted ++ [p] } := by
  have hslot := h.slots _ (currentIndex_lt h)
  obtain ⟨hslots, hcurrent, houtputIndex, houtputs, hflag, hcalls, -, -, -⟩ := id h
  rw [hcaller] at hcurrent hflag hcalls
  obtain ⟨d, hlen, hd⟩ := hcurrent
  have hturn : s.accepted.length % c.threads = s.currentIndex := by
    rw [hlen, hd]
    rfl
  refine
    { slots := slots_of_moved hslots (i := s.currentIndex) ?_ ?_
      current := ⟨d, by simp [hlen, CallerPoint.ahead], hd⟩
      outputIndex := houtputIndex, outputs := houtputs, flag := hflag, calls := ?_
      succeeded := succeeded_setThread h ⟨rfl, rfl⟩
      joined := fun _ _ hk => absurd hk (Nat.not_lt_zero _), outputReturned := fun hk => by cases hk }
  · have hmove := hslot.storeJob (by simp [view, callerSlot, hcaller]) p
    simpa [view, CompressorState.setThread, callerSlot, stage, hcaller,
      hand_append_self hturn] using hmove
  · intro k hk
    have hother : s.accepted.length % c.threads ≠ k := fun heq => hk (heq.symm.trans hturn)
    simp [view, CompressorState.setThread, callerSlot, stage, hcaller, Function.update_of_ne hk,
      Ne.symm hk, hand_append_other hother]
  · obtain ⟨refused, hcalled, herror⟩ := hcalls
    exact ⟨refused, hcalled.trans (by simp [CallerPoint.call]), fun hne => ⟨(herror hne).1, rfl⟩⟩

theorem signalling_ok (h : CompressorOk c s) (hcaller : s.caller = .signalling) :
    CompressorOk c
      { s.setThread s.currentIndex { s.threads s.currentIndex with compressEvent := true } with
        caller := .idle
        currentIndex := nextIndex c.threads s.currentIndex } := by
  have hslot := h.slots _ (currentIndex_lt h)
  obtain ⟨hslots, hcurrent, houtputIndex, houtputs, hflag, hcalls, -, -, -⟩ := id h
  rw [hcaller] at hcurrent hflag hcalls
  obtain ⟨d, hlen, hd⟩ := hcurrent
  refine
    { slots := slots_of_moved hslots (i := s.currentIndex) ?_ ?_
      current := ⟨d + 1, hlen, by rw [hd, nextIndex_mod c.threads_pos]⟩
      outputIndex := houtputIndex, outputs := houtputs, flag := hflag, calls := hcalls
      succeeded := succeeded_setThread h ⟨rfl, rfl⟩
      joined := fun _ _ hk => absurd hk (Nat.not_lt_zero _), outputReturned := fun hk => by cases hk }
  · have hmove := hslot.signalJob (by simp [view, callerSlot, hcaller]) hflag
    simpa [view, CompressorState.setThread, callerSlot, stage, hcaller] using hmove
  · intro k hk
    simp [view, CompressorState.setThread, callerSlot, stage, hcaller, Function.update_of_ne hk,
      Ne.symm hk]

/-! The stages of a loop of `Shutdown`. -/

theorem stage_shutdown_self (loop : ShutdownLoop) (i : Nat) :
    stage (.shutdown loop i : CallerPoint P) i = stageBefore loop := by
  cases loop <;> simp [stage, stageBefore]

theorem stage_shutdown_succ (loop : ShutdownLoop) (i : Nat) :
    stage (.shutdown loop (i + 1) : CallerPoint P) i = stageAfter loop := by
  cases loop <;> simp [stage, stageAfter, stageBefore]

theorem stage_shutdown_other (loop : ShutdownLoop) {i k : Nat} (hk : k ≠ i) :
    stage (.shutdown loop (i + 1) : CallerPoint P) k = stage (.shutdown loop i : CallerPoint P) k := by
  have hiff : k < i + 1 ↔ k < i := by omega
  cases loop <;> simp [stage, hiff]

theorem stage_afterLoop (loop : ShutdownLoop) {i k : Nat} (hk : k < i) :
    stage (afterLoop loop : CallerPoint P) k = stage (.shutdown loop i : CallerPoint P) k := by
  cases loop <;> simp [stage, afterLoop, hk]

theorem shutdownTurn_ok {loop : ShutdownLoop} {i : Nat} {t : CompressThread P R}
    (h : CompressorOk c s) (hcaller : s.caller = .shutdown loop i) (hi : i < c.threads)
    (ht : shutdownTurn loop (s.threads i) = some t) :
    CompressorOk c { s.setThread i t with caller := .shutdown loop (i + 1) } := by
  have hslot := h.slots i hi
  have hsame := shutdownTurn_samePoint ht
  obtain ⟨hslots, hcurrent, houtputIndex, houtputs, hflag, hcalls, -, hjoined, -⟩ := id h
  rw [hcaller] at hcurrent hflag hcalls hjoined
  have hflag' : s.shuttingDown = (CallerPoint.shutdown loop (i + 1) : CallerPoint P).flag := by
    rw [hflag]
    cases loop <;> rfl
  refine
    { slots := slots_of_moved hslots (i := i) ?_ ?_, current := hcurrent
      outputIndex := houtputIndex, outputs := houtputs, flag := hflag', calls := hcalls
      succeeded := succeeded_setThread h hsame
      joined := ?_, outputReturned := fun hk => by cases hk }
  · have hmove := hslot.shutdownMove (by rw [view, hcaller, stage_shutdown_self])
      (by rw [view, hflag]; cases loop <;> rfl) ht
    simpa [view, CompressorState.setThread, callerSlot, hcaller, stage_shutdown_succ] using hmove
  · intro k hk
    simp [view, CompressorState.setThread, callerSlot, hcaller, Function.update_of_ne hk,
      stage_shutdown_other loop hk]
  · intro k hk hlt
    refine (point_setThread hsame k).trans ?_
    cases loop with
    | joinCompress =>
      rcases Nat.lt_succ_iff_lt_or_eq.1 hlt with hlt | rfl
      · exact hjoined k hk hlt
      · simp only [shutdownTurn] at ht
        split at ht
        · assumption
        · cases ht
    | _ => cases hlt

theorem afterLoop_ok {loop : ShutdownLoop} {i : Nat} (h : CompressorOk c s)
    (hcaller : s.caller = .shutdown loop i) (hi : ¬i < c.threads) :
    CompressorOk c { s with caller := afterLoop loop } := by
  obtain ⟨hslots, hcurrent, houtputIndex, houtputs, hflag, hcalls, hsucceeded, hjoined, -⟩ := id h
  rw [hcaller] at hcurrent hflag hcalls hjoined
  refine
    { slots := slots_of_unmoved hslots ?_, current := ?_
      outputIndex := houtputIndex, outputs := houtputs, flag := ?_, calls := ?_
      succeeded := hsucceeded, joined := ?_, outputReturned := ?_ }
  · intro k hk
    have hki : k < i := by omega
    simp only [view, hcaller, stage_afterLoop loop hki]
    cases loop <;> rfl
  · cases loop <;> exact hcurrent
  · cases loop <;> exact hflag
  · cases loop <;> exact hcalls
  · intro k hk hlt
    cases loop with
    | joinCompress => exact hjoined k hk (show k < i by omega)
    | _ => cases hlt
  · intro hk
    cases loop <;> cases hk

theorem storeFlag_ok (h : CompressorOk c s) (hcaller : s.caller = .storeFlag) :
    CompressorOk c { s with shuttingDown := true, caller := .shutdown .setCompress 0 } := by
  obtain ⟨hslots, hcurrent, houtputIndex, houtputs, -, hcalls, hsucceeded, -, -⟩ := id h
  rw [hcaller] at hcurrent hcalls
  refine
    { slots := ?_, current := hcurrent, outputIndex := houtputIndex, outputs := houtputs
      flag := rfl, calls := hcalls, succeeded := hsucceeded
      joined := fun _ _ hk => absurd hk (Nat.not_lt_zero _), outputReturned := fun hk => by cases hk }
  intro k hk
  have hmove := (hslots k hk).storeFlag (by simp [view, callerSlot, hcaller])
    (by simp [view, stage, hcaller])
  simpa [view, callerSlot, stage, hcaller] using hmove

theorem joinOutput_ok (h : CompressorOk c s) (hcaller : s.caller = .joinOutput)
    (houtput : s.output = .returned) : CompressorOk c { s with caller := .returned } := by
  obtain ⟨hslots, hcurrent, houtputIndex, houtputs, hflag, hcalls, hsucceeded, hjoined, -⟩ := id h
  rw [hcaller] at hcurrent hflag hcalls hjoined
  refine
    { slots := slots_of_unmoved hslots ?_, current := hcurrent, outputIndex := houtputIndex
      outputs := houtputs, flag := hflag, calls := hcalls, succeeded := hsucceeded
      joined := hjoined, outputReturned := fun _ => houtput }
  intro k hk
  simp [view, callerSlot, stage, hcaller]

theorem callerStep_ok {s' : CompressorState P R} (h : CompressorOk c s)
    (hstep : callerStep c s = some s') : CompressorOk c s' := by
  cases hcaller : s.caller with
  | idle | returned => simp [callerStep, hcaller] at hstep
  | submitting p =>
    simp only [callerStep, hcaller] at hstep
    split at hstep
    · cases hstep
      exact submitting_ok h hcaller (by assumption)
    · cases hstep
  | storing p =>
    simp only [callerStep, hcaller] at hstep
    cases hstep
    exact storing_ok h hcaller
  | signalling =>
    simp only [callerStep, hcaller] at hstep
    cases hstep
    exact signalling_ok h hcaller
  | shutdown loop i =>
    simp only [callerStep, hcaller] at hstep
    split at hstep
    · obtain ⟨t, ht, rfl⟩ := Option.map_eq_some_iff.1 hstep
      exact shutdownTurn_ok h hcaller (by assumption) ht
    · cases hstep
      exact afterLoop_ok h hcaller (by assumption)
  | storeFlag =>
    simp only [callerStep, hcaller] at hstep
    cases hstep
    exact storeFlag_ok h hcaller
  | joinOutput =>
    simp only [callerStep, hcaller] at hstep
    split at hstep
    · cases hstep
      exact joinOutput_ok h hcaller (by assumption)
    · cases hstep

end Caller

/-! ### Steps of the output thread -/

section Output
variable {c : Compressor P R} {s : CompressorState P R}

theorem joined_setThread (h : CompressorOk c s) {i : Nat} {t : CompressThread P R}
    (ht : SamePoint (s.threads i) t) :
    ∀ k < c.threads, k < s.caller.joined c.threads →
      ((s.setThread i t).threads k).point = .returned :=
  fun k hk hlt => (point_setThread ht k).trans (h.joined k hk hlt)

theorem starting_ok {i : Nat} (h : CompressorOk c s) (houtput : s.output = .starting i)
    (hi : i < c.threads) :
    CompressorOk c
      { s.setThread i { s.threads i with outputReadyEvent := true } with
        output := .starting (i + 1) } := by
  have hslot := h.slots i hi
  obtain ⟨hslots, hcurrent, houtputIndex, houtputs, hflag, hcalls, -, -, hret⟩ := id h
  rw [houtput] at houtputIndex houtputs hret
  refine
    { slots := slots_of_moved hslots (i := i) ?_ ?_, current := hcurrent
      outputIndex := houtputIndex, outputs := houtputs, flag := hflag, calls := hcalls
      succeeded := succeeded_setThread h ⟨rfl, rfl⟩, joined := joined_setThread h ⟨rfl, rfl⟩
      outputReturned := fun hk => by cases hret hk }
  · have hmove := hslot.setOutputReady (.inl (by simp [view, outputSlot, houtput]))
    simpa [view, CompressorState.setThread, outputSlot, houtput] using hmove
  · intro k hk
    have hiff : i + 1 ≤ k ↔ i ≤ k := by omega
    simp [view, CompressorState.setThread, outputSlot, houtput, Function.update_of_ne hk, hiff]

theorem started_ok {i : Nat} (h : CompressorOk c s) (houtput : s.output = .starting i)
    (hi : ¬i < c.threads) : CompressorOk c { s with output := .waiting } := by
  obtain ⟨hslots, hcurrent, houtputIndex, houtputs, hflag, hcalls, hsucceeded, hjoined, hret⟩ := h
  rw [houtput] at houtputIndex houtputs hret
  refine
    { slots := slots_of_unmoved hslots ?_, current := hcurrent, outputIndex := houtputIndex
      outputs := houtputs, flag := hflag, calls := hcalls, succeeded := hsucceeded
      joined := hjoined, outputReturned := fun hk => by cases hret hk }
  intro k hk
  have hik : ¬i ≤ k := by omega
  simp [view, outputSlot, houtput, hik]

theorem waiting_ok (h : CompressorOk c s) (houtput : s.output = .waiting)
    (hevent : (s.threads s.outputIndex).outputEvent = true) :
    CompressorOk c
      { s.setThread s.outputIndex { s.threads s.outputIndex with outputEvent := false } with
        output := .checking } := by
  have hslot := h.slots _ (outputIndex_lt h)
  obtain ⟨hslots, hcurrent, houtputIndex, houtputs, hflag, hcalls, -, -, hret⟩ := id h
  rw [houtput] at houtputIndex houtputs hret
  refine
    { slots := slots_of_moved hslots (i := s.outputIndex) ?_ ?_, current := hcurrent
      outputIndex := houtputIndex, outputs := houtputs, flag := hflag, calls := hcalls
      succeeded := succeeded_setThread h ⟨rfl, rfl⟩, joined := joined_setThread h ⟨rfl, rfl⟩
      outputReturned := fun hk => by cases hret hk }
  · have hmove := hslot.takeOutput (by simp [view, outputSlot, houtput]) hevent
    simpa [view, CompressorState.setThread, outputSlot, houtput] using hmove
  · intro k hk
    simp [view, CompressorState.setThread, outputSlot, houtput, Function.update_of_ne hk, Ne.symm hk]

theorem returning_ok (h : CompressorOk c s) (houtput : s.output = .checking)
    (hshutting : s.shuttingDown = true) : CompressorOk c { s with output := .returned } := by
  have hslot := h.slots _ (outputIndex_lt h)
  obtain ⟨hslots, hcurrent, houtputIndex, houtputs, hflag, hcalls, hsucceeded, hjoined, -⟩ := id h
  rw [houtput] at houtputIndex houtputs
  refine
    { slots := slots_of_moved hslots (i := s.outputIndex) ?_ ?_, current := hcurrent
      outputIndex := houtputIndex, outputs := houtputs, flag := hflag, calls := hcalls
      succeeded := hsucceeded, joined := hjoined, outputReturned := fun _ => rfl }
  · have hmove := hslot.returnOutput (by simp [view, outputSlot, houtput]) hshutting
    simpa [view, outputSlot] using hmove
  · intro k hk
    simp [view, outputSlot, houtput, Ne.symm hk]

theorem fetching_ok {r : R} (h : CompressorOk c s) (houtput : s.output = .checking)
    (hshutting : s.shuttingDown = false)
    (hr : (s.threads s.outputIndex).outputParameters = some r) :
    CompressorOk c
      { s.setThread s.outputIndex { s.threads s.outputIndex with outputParameters := none } with
        output := .readying r
        fetched := s.fetched ++ [r] } := by
  have hslot := h.slots _ (outputIndex_lt h)
  obtain ⟨hslots, hcurrent, houtputIndex, houtputs, hflag, hcalls, -, -, hret⟩ := id h
  rw [houtput] at houtputIndex houtputs hret
  obtain ⟨d, hlen, hd⟩ := houtputIndex
  have hturn : s.fetched.length % c.threads = s.outputIndex := by
    rw [hlen, hd]
    rfl
  refine
    { slots := slots_of_moved hslots (i := s.outputIndex) ?_ ?_, current := hcurrent
      outputIndex := ⟨d, by simp [hlen, OutputPoint.ahead], hd⟩
      outputs := by simpa [OutputPoint.atHand, CompressorState.setThread] using houtputs
      flag := hflag, calls := hcalls
      succeeded := succeeded_setThread h ⟨rfl, rfl⟩, joined := joined_setThread h ⟨rfl, rfl⟩
      outputReturned := fun hk => by cases hret hk }
  · have hmove := hslot.fetch (by simp [view, outputSlot, houtput]) hshutting hr
    simpa [view, CompressorState.setThread, outputSlot, hand_append_self hturn] using hmove
  · intro k hk
    have hother : s.fetched.length % c.threads ≠ k := fun heq => hk (heq.symm.trans hturn)
    simp [view, CompressorState.setThread, outputSlot, houtput, Function.update_of_ne hk,
      Ne.symm hk, hand_append_other hother]

theorem outputReadying_ok {r : R} (h : CompressorOk c s) (houtput : s.output = .readying r) :
    CompressorOk c
      { s.setThread s.outputIndex { s.threads s.outputIndex with outputReadyEvent := true } with
        output := .outputting r } := by
  have hslot := h.slots _ (outputIndex_lt h)
  obtain ⟨hslots, hcurrent, houtputIndex, houtputs, hflag, hcalls, -, -, hret⟩ := id h
  rw [houtput] at houtputIndex houtputs hret
  refine
    { slots := slots_of_moved hslots (i := s.outputIndex) ?_ ?_, current := hcurrent
      outputIndex := houtputIndex, outputs := houtputs, flag := hflag, calls := hcalls
      succeeded := succeeded_setThread h ⟨rfl, rfl⟩, joined := joined_setThread h ⟨rfl, rfl⟩
      outputReturned := fun hk => by cases hret hk }
  · have hmove := hslot.setOutputReady (.inr (by simp [view, outputSlot, houtput]))
    simpa [view, CompressorState.setThread, outputSlot] using hmove
  · intro k hk
    simp [view, CompressorState.setThread, outputSlot, houtput, Function.update_of_ne hk, Ne.symm hk]

theorem outputting_ok {r : R} (h : CompressorOk c s) (houtput : s.output = .outputting r)
    (ok : Bool) :
    CompressorOk c
      { s with
        outputs := s.outputs ++ [r]
        output := if ok then .advancing else .failing } := by
  obtain ⟨hslots, hcurrent, houtputIndex, houtputs, hflag, hcalls, hsucceeded, hjoined, hret⟩ := h
  rw [houtput] at houtputIndex houtputs hret
  refine
    { slots := slots_of_unmoved hslots ?_, current := hcurrent, outputIndex := ?_, outputs := ?_
      flag := hflag, calls := hcalls, succeeded := hsucceeded
      joined := hjoined, outputReturned := fun hk => by cases hret hk }
  · intro k hk
    cases ok <;> simp [view, outputSlot, houtput]
  · cases ok <;> exact houtputIndex
  · cases ok <;> simpa [OutputPoint.atHand] using houtputs

theorem outputFailing_ok (h : CompressorOk c s) (houtput : s.output = .failing) :
    CompressorOk c { s with error := true, output := .advancing } := by
  obtain ⟨hslots, hcurrent, houtputIndex, houtputs, hflag, hcalls, -, hjoined, hret⟩ := h
  rw [houtput] at houtputIndex houtputs hret
  refine
    { slots := slots_of_unmoved hslots ?_, current := hcurrent, outputIndex := houtputIndex
      outputs := houtputs, flag := hflag, calls := ?_
      succeeded := fun hk => by cases hk
      joined := hjoined, outputReturned := fun hk => by cases hret hk }
  · intro k hk
    simp [view, outputSlot, houtput]
  · obtain ⟨refused, hcalled, herror⟩ := hcalls
    exact ⟨refused, hcalled, fun hne => ⟨rfl, (herror hne).2⟩⟩

theorem advancing_ok (h : CompressorOk c s) (houtput : s.output = .advancing) :
    CompressorOk c
      { s with outputIndex := nextIndex c.threads s.outputIndex, output := .waiting } := by
  obtain ⟨hslots, hcurrent, houtputIndex, houtputs, hflag, hcalls, hsucceeded, hjoined, hret⟩ := h
  rw [houtput] at houtputIndex houtputs hret
  obtain ⟨d, hlen, hd⟩ := houtputIndex
  refine
    { slots := slots_of_unmoved hslots ?_, current := hcurrent
      outputIndex := ⟨d + 1, hlen, by rw [hd, nextIndex_mod c.threads_pos]⟩, outputs := houtputs
      flag := hflag, calls := hcalls, succeeded := hsucceeded
      joined := hjoined, outputReturned := fun hk => by cases hret hk }
  intro k hk
  simp [view, outputSlot, houtput]

theorem outputStep_ok {s' : CompressorState P R} (h : CompressorOk c s)
    (hstep : outputStep c s = some s') : CompressorOk c s' := by
  cases houtput : s.output with
  | starting i =>
    simp only [outputStep, houtput] at hstep
    split at hstep <;> cases hstep
    · exact starting_ok h houtput (by assumption)
    · exact started_ok h houtput (by assumption)
  | waiting =>
    simp only [outputStep, houtput] at hstep
    split at hstep <;> cases hstep
    exact waiting_ok h houtput (by assumption)
  | checking =>
    simp only [outputStep, houtput] at hstep
    split at hstep
    · cases hstep
      exact returning_ok h houtput (by assumption)
    · obtain ⟨r, hr, rfl⟩ := Option.map_eq_some_iff.1 hstep
      exact fetching_ok h houtput (Bool.eq_false_of_not_eq_true (by assumption)) hr
  | readying r =>
    simp only [outputStep, houtput] at hstep
    cases hstep
    exact outputReadying_ok h houtput
  | outputting r =>
    simp only [outputStep, houtput] at hstep
    cases hstep
    exact outputting_ok h houtput _
  | failing =>
    simp only [outputStep, houtput] at hstep
    cases hstep
    exact outputFailing_ok h houtput
  | advancing =>
    simp only [outputStep, houtput] at hstep
    cases hstep
    exact advancing_ok h houtput
  | returned => simp [outputStep, houtput] at hstep

end Output

/-! ### Calls, and the whole system -/

section System
variable {c : Compressor P R} {s : CompressorState P R}

theorem call_ok (p : P) (h : CompressorOk c s) (hcaller : s.caller = .idle) :
    CompressorOk c
      (if s.error then { s with called := s.called ++ [p] }
      else { s with called := s.called ++ [p], caller := .submitting p }) := by
  obtain ⟨hslots, hcurrent, houtputIndex, houtputs, hflag, hcalls, hsucceeded, hjoined, hret⟩ := id h
  obtain ⟨refused, hcalled, herror⟩ := hcalls
  split
  case isTrue he =>
    refine { h with calls := ⟨refused ++ [p], ?_, fun _ => ⟨he, by rw [hcaller]; rfl⟩⟩ }
    rw [hcalled, List.append_assoc]
  case isFalse he =>
    rw [hcaller] at hcurrent hflag hcalled
    have hnone : refused = [] := by
      by_contra hne
      exact he (herror hne).1
    refine
      { slots := slots_of_unmoved hslots ?_, current := hcurrent, outputIndex := houtputIndex
        outputs := houtputs, flag := hflag
        calls := ⟨[], by simp [hcalled, hnone, CallerPoint.call], fun hne => absurd rfl hne⟩
        succeeded := hsucceeded, joined := fun _ _ hk => absurd hk (Nat.not_lt_zero _)
        outputReturned := fun hk => by cases hk }
    intro k hk
    simp [view, callerSlot, stage, hcaller]

theorem setError_ok (h : CompressorOk c s) : CompressorOk c { s with error := true } := by
  obtain ⟨refused, hcalled, herror⟩ := h.calls
  exact { h with
    calls := ⟨refused, hcalled, fun hne => ⟨rfl, (herror hne).2⟩⟩
    succeeded := fun hk => by cases hk }

theorem shutdown_ok (h : CompressorOk c s) (hcaller : s.caller = .idle) :
    CompressorOk c { s with caller := .shutdown .waitReady 0 } := by
  obtain ⟨hslots, hcurrent, houtputIndex, houtputs, hflag, hcalls, hsucceeded, -, -⟩ := id h
  rw [hcaller] at hcurrent hflag hcalls
  refine
    { slots := slots_of_unmoved hslots ?_, current := hcurrent, outputIndex := houtputIndex
      outputs := houtputs, flag := hflag, calls := hcalls, succeeded := hsucceeded
      joined := fun _ _ hk => absurd hk (Nat.not_lt_zero _)
      outputReturned := fun hk => by cases hk }
  intro k hk
  simp [view, callerSlot, stage, hcaller]

theorem compressorStep_ok {a : CompressorAction P} {s' : CompressorState P R}
    (h : CompressorOk c s) (hstep : compressorStep c s a = some s') : CompressorOk c s' := by
  cases a with
  | call p =>
    simp only [compressorStep] at hstep
    split at hstep
    case h_1 hcaller =>
      have hcall := call_ok p h hcaller
      split at hstep <;> cases hstep <;> simpa [*] using hcall
    case h_2 => cases hstep
  | setError =>
    simp only [compressorStep] at hstep
    split at hstep <;> cases hstep
    exact setError_ok h
  | shutdown =>
    simp only [compressorStep] at hstep
    split at hstep <;> cases hstep
    exact shutdown_ok h (by assumption)
  | caller => exact callerStep_ok h hstep
  | compress k =>
    simp only [compressorStep] at hstep
    split at hstep
    · exact compressStep_ok h (by assumption) hstep
    · cases hstep
  | output => exact outputStep_ok h hstep

theorem compressorOk_of_reachable (h : (compressorSystem c).Reachable s) : CompressorOk c s := by
  refine System.Reachable.invariant ?_ ?_ h
  · rintro s rfl
    exact startState_ok c
  · intro s a s' _ hs hstep
    exact compressorStep_ok hs hstep

end System

end DolphinXR.DiscIO
