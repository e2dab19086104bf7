import DolphinXR.Core.CoreTiming
import Mathlib.Data.List.Perm.Basic

/- What holds of every run of the event queue: each event that has been scheduled is in one
   place, the callbacks run in order, the ticks do not go back, and no slice goes past an
   event of the CPU thread. In a run in which `Advance` returns again and again and the
   time passes every bound, each event runs or is removed. -/
namespace DolphinXR.CoreTiming
open Lib

section Runs
variable {T : Type}

namespace Event

theorem le_refl (a : Event T) : Event.le a a = true := by simp [Event.le]

theorem le_total (a b : Event T) : (Event.le a b || Event.le b a) = true := by
  simp only [Event.le, Bool.or_eq_true, Bool.and_eq_true, decide_eq_true_eq]
  omega

theorem le_trans (a b c : Event T) (hab : Event.le a b = true) (hbc : Event.le b c = true) :
    Event.le a c = true := by
  simp only [Event.le, Bool.or_eq_true, Bool.and_eq_true, decide_eq_true_eq] at hab hbc ⊢
  omega

theorem time_le {a b : Event T} (h : Event.le a b = true) : a.time ≤ b.time := by
  simp only [Event.le, Bool.or_eq_true, Bool.and_eq_true, decide_eq_true_eq] at h
  omega

end Event

abbrev IsEventHeap (l : List (Event T)) : Prop := IsHeap (fun a b : Event T => Event.le a b = true) l

variable {H : HeapAlgorithms (fun a b : Event T => Event.le a b = true)}

def serialsOf (l : List (Event T)) : List Nat := l.map (·.serial)

/-- Each event that has been scheduled is in one place, `m_is_global_timer_sane` says where
    `Advance` stands, and no slice goes past an event of the CPU thread. -/
structure Invariant (m : Manager T) : Prop where
  heap : IsEventHeap m.eventQueue
  accounted : (serialsOf (m.ran ++ m.removed ++ m.eventQueue ++ m.tsQueue)).Perm
    (List.range m.serials)
  offThread : ∀ e ∈ m.tsQueue, e.fromCpu = false
  sane : m.isGlobalTimerSane = false ↔ m.phase = .outside ∧ 0 < m.advances
  notStarted : m.isGlobalTimerSane = true → m.phase = .outside → m.downcount ≤ m.sliceLength
  slice : m.isGlobalTimerSane = false → ∀ e ∈ m.eventQueue, e.fromCpu = true →
    m.globalTimer + m.sliceLength ≤ max e.time e.scheduledAt

theorem Invariant.sane_of_phase_ne {m : Manager T} (h : Invariant m) (hphase : m.phase ≠ .outside) :
    m.isGlobalTimerSane = true := by
  by_contra hfalse
  exact hphase (h.sane.1 (Bool.eq_false_iff.2 hfalse)).1

/-! ### The operations -/

theorem forceExceptionCheck_spec (m : Manager T) (cycles : Int) :
    ∃ slice downcount, forceExceptionCheck m cycles =
        { m with sliceLength := slice, downcount := downcount } ∧
      slice - downcount = m.sliceLength - m.downcount ∧ slice ≤ m.sliceLength ∧
      downcount ≤ max 0 cycles := by
  unfold forceExceptionCheck
  split
  · exact ⟨_, _, rfl, by omega, by omega, by omega⟩
  · exact ⟨m.sliceLength, m.downcount, rfl, rfl, Int.le_refl _, by omega⟩

theorem getTicks_forceExceptionCheck (m : Manager T) (cycles : Int) :
    getTicks (forceExceptionCheck m cycles) = getTicks m := by
  obtain ⟨slice, downcount, heq, hdiff, -, -⟩ := forceExceptionCheck_spec m cycles
  rw [heq]
  simp only [getTicks, hdiff]

theorem Invariant.forceExceptionCheck {m : Manager T} (h : Invariant m) (cycles : Int) :
    Invariant (forceExceptionCheck m cycles) := by
  obtain ⟨slice, downcount, heq, hdiff, hslice, -⟩ := forceExceptionCheck_spec m cycles
  rw [heq]
  refine ⟨h.heap, h.accounted, h.offThread, h.sane, fun hsane hphase => ?_,
    fun hsane e he hcpu => ?_⟩
  · have hstart := h.notStarted hsane hphase
    dsimp only
    omega
  · have hend := h.slice hsane e he hcpu
    dsimp only
    omega

theorem push_perm (H : HeapAlgorithms (fun a b : Event T => Event.le a b = true))
    {queue : List (Event T)} (hheap : IsEventHeap queue) (event : Event T)
    (done rest : List (Event T)) :
    (serialsOf (done ++ H.pushHeap (queue ++ [event]) ++ rest)).Perm
      (event.serial :: serialsOf (done ++ queue ++ rest)) := by
  have hpush := H.pushHeap_perm queue event hheap
  have hmove : (done ++ H.pushHeap (queue ++ [event]) ++ rest).Perm
      (event :: (done ++ queue ++ rest)) := by
    calc (done ++ H.pushHeap (queue ++ [event]) ++ rest).Perm
          (done ++ (queue ++ [event]) ++ rest) := (hpush.append_left done).append_right rest
      _ = (done ++ queue) ++ event :: rest := by simp
      List.Perm _ (event :: (done ++ queue ++ rest)) := List.perm_middle
  exact hmove.map _

theorem mem_push {queue : List (Event T)} (hheap : IsEventHeap queue) {event e : Event T} :
    e ∈ H.pushHeap (queue ++ [event]) ↔ e ∈ queue ∨ e = event := by
  rw [(H.pushHeap_perm queue event hheap).mem_iff, List.mem_append, List.mem_singleton]

theorem accounted_push {m : Manager T} (h : Invariant m) (event : Event T)
    (hserial : event.serial = m.serials) :
    (serialsOf (m.ran ++ m.removed ++ H.pushHeap (m.eventQueue ++ [event]) ++ m.tsQueue)).Perm
      (List.range (m.serials + 1)) := by
  have hpush := push_perm H h.heap event (m.ran ++ m.removed) m.tsQueue
  rw [hserial] at hpush
  rw [List.range_succ]
  exact hpush.trans ((h.accounted.cons m.serials).trans (List.perm_append_singleton ..).symm)

theorem Invariant.scheduleEvent {m : Manager T} (h : Invariant m) (cycles : Int) (type : T)
    (userdata : Nat) : Invariant (scheduleEvent H m cycles type userdata) := by
  have haccounted := accounted_push (H := H) h ⟨getTicks m + cycles, m.eventFifoId, userdata, type,
    m.serials, true, getTicks m⟩ rfl
  unfold CoreTiming.scheduleEvent
  cases hsane : m.isGlobalTimerSane with
  | true =>
    refine ⟨H.isHeap_pushHeap _ _ h.heap, haccounted, h.offThread, h.sane, h.notStarted,
      fun hfalse => ?_⟩
    simp [hsane] at hfalse
  | false =>
    obtain ⟨slice, downcount, heq, hdiff, hslice, hdowncount⟩ := forceExceptionCheck_spec m cycles
    simp only [Bool.false_eq_true, if_false, heq]
    refine ⟨H.isHeap_pushHeap _ _ h.heap, haccounted, h.offThread, h.sane, ?_, fun _ e he hcpu => ?_⟩
    · intro htrue
      simp [hsane] at htrue
    rcases (mem_push h.heap).1 he with he | rfl
    · have hend := h.slice hsane e he hcpu
      dsimp only
      omega
    · -- the slice now ends with the event, or did so already
      simp only [getTicks, hsane, Bool.false_eq_true, if_false]
      omega

theorem Invariant.scheduleEventOffThread {m : Manager T} (h : Invariant m) (cycles : Int)
    (type : T) (userdata : Nat) : Invariant (scheduleEventOffThread m cycles type userdata) := by
  refine ⟨h.heap, ?_, fun e he => ?_, h.sane, h.notStarted, h.slice⟩
  · simp only [CoreTiming.scheduleEventOffThread, serialsOf, ← List.append_assoc]
    rw [List.map_append, List.range_succ]
    exact h.accounted.append_right _
  · rcases List.mem_append.1 he with he | he
    · exact h.offThread e he
    · rw [List.mem_singleton.1 he]

theorem moveEvent_foldl (l : List (Event T)) (m : Manager T) (hheap : IsEventHeap m.eventQueue)
    (hoff : ∀ e ∈ l, e.fromCpu = false) :
    ∃ queue fifoId, l.foldl (moveEvent H) m =
        { m with eventQueue := queue, eventFifoId := fifoId } ∧
      IsEventHeap queue ∧
      (serialsOf (m.ran ++ m.removed ++ queue)).Perm
        (serialsOf (m.ran ++ m.removed ++ m.eventQueue ++ l)) ∧
      (∀ e ∈ m.eventQueue, e ∈ queue) ∧
      ∀ e ∈ queue, e ∈ m.eventQueue ∨ e.fromCpu = false := by
  induction l generalizing m with
  | nil =>
    exact ⟨m.eventQueue, m.eventFifoId, rfl, hheap, by rw [List.append_nil], fun _ he => he,
      fun _ he => .inl he⟩
  | cons event l ih =>
    obtain ⟨queue, fifoId, heq, hheap', hperm, hold, hnew⟩ :=
      ih (moveEvent H m event) (H.isHeap_pushHeap _ _ hheap)
        fun e he => hoff e (List.mem_cons_of_mem _ he)
    have hpush := push_perm H hheap
      { event with time := event.time + m.globalTimer, fifoOrder := m.eventFifoId }
      (m.ran ++ m.removed) l
    have hmiddle : (serialsOf (m.ran ++ m.removed ++ m.eventQueue ++ event :: l)).Perm
        (event.serial :: serialsOf (m.ran ++ m.removed ++ m.eventQueue ++ l)) :=
      List.perm_middle.map _
    refine ⟨queue, fifoId, heq, hheap', (hperm.trans hpush).trans hmiddle.symm, fun e he => ?_,
      fun e he => ?_⟩
    · exact hold e ((mem_push hheap).2 (.inl he))
    · rcases hnew e he with he | he
      · rcases (mem_push hheap).1 he with he | rfl
        · exact .inl he
        · exact .inr (hoff event (List.mem_cons_self ..))
      · exact .inr he

theorem moveEvents_spec {m : Manager T} (h : Invariant m) :
    ∃ queue fifoId, moveEvents H m =
        { m with eventQueue := queue, eventFifoId := fifoId, tsQueue := [] } ∧
      IsEventHeap queue ∧
      (serialsOf (m.ran ++ m.removed ++ queue)).Perm (List.range m.serials) ∧
      (∀ e ∈ m.eventQueue, e ∈ queue) ∧
      ∀ e ∈ queue, e ∈ m.eventQueue ∨ e.fromCpu = false := by
  obtain ⟨queue, fifoId, heq, hheap, hperm, hold, hnew⟩ :=
    moveEvent_foldl (H := H) m.tsQueue m h.heap h.offThread
  refine ⟨queue, fifoId, ?_, hheap, hperm.trans h.accounted, hold, hnew⟩
  rw [moveEvents, heq]

theorem Invariant.moveEvents {m : Manager T} (h : Invariant m) : Invariant (moveEvents H m) := by
  obtain ⟨queue, fifoId, heq, hheap, haccounted, -, hnew⟩ := moveEvents_spec (H := H) h
  rw [heq]
  refine ⟨hheap, ?_, fun e he => absurd he List.not_mem_nil, h.sane, h.notStarted,
    fun hsane e he hcpu => ?_⟩
  · rw [List.append_nil]
    exact haccounted
  · rcases hnew e he with he | he
    · exact h.slice hsane e he hcpu
    · rw [hcpu] at he
      cases he

theorem Invariant.removeEvent [DecidableEq T] {m : Manager T} (h : Invariant m) (type : T) :
    Invariant (removeEvent H m type) := by
  unfold CoreTiming.removeEvent
  dsimp only
  split
  · exact h
  · have hmake := H.makeHeap_perm (m.eventQueue.filter fun e => decide (e.type ≠ type))
    refine ⟨H.isHeap_makeHeap _, ?_, h.offThread, h.sane, h.notStarted, fun hsane e he hcpu => ?_⟩
    · -- the queue is what has been removed and what is kept
      have hparts : (m.eventQueue.filter (fun e => decide (e.type = type)) ++
          m.eventQueue.filter fun e => decide (e.type ≠ type)).Perm m.eventQueue := by
        have hneg : (fun e : Event T => decide (e.type ≠ type)) =
            fun e => !decide (e.type = type) := by
          funext e
          simp
        rw [hneg]
        exact List.filter_append_perm _ _
      refine List.Perm.trans (List.Perm.map _ ?_) h.accounted
      apply List.Perm.append_right
      refine (hmake.append_left _).trans ?_
      rw [← List.append_assoc, List.append_assoc (m.ran ++ m.removed)]
      exact hparts.append_left _
    · exact h.slice hsane e (List.mem_of_mem_filter (hmake.mem_iff.1 he)) hcpu

theorem Invariant.startAdvance {m : Manager T} (h : Invariant m) : Invariant (startAdvance H m) := by
  have hmoved := h.moveEvents (H := H)
  refine ⟨hmoved.heap, hmoved.accounted, hmoved.offThread, ?_, fun _ hphase => (nomatch hphase),
    fun hfalse => (nomatch hfalse)⟩
  exact iff_of_false (fun hfalse => nomatch hfalse) fun hphase => nomatch hphase.1

theorem Invariant.finishAdvance {m : Manager T} (h : Invariant m)
    (hdone : ∀ e ∈ m.eventQueue, m.globalTimer < e.time) : Invariant (finishAdvance m) := by
  refine ⟨h.heap, h.accounted, h.offThread, ?_, fun htrue => (nomatch htrue), fun _ e he _ => ?_⟩
  · exact iff_of_true rfl ⟨rfl, Nat.succ_pos _⟩
  · have hheap := h.heap
    have hlater := hdone e he
    cases hqueue : m.eventQueue with
    | nil =>
      rw [CoreTiming.finishAdvance, hqueue] at he
      cases he
    | cons front rest =>
      rw [hqueue] at hheap
      have he' : e ∈ front :: rest := hqueue ▸ he
      have hfront := Event.time_le (hheap.root_le Event.le_refl Event.le_trans e he')
      simp only [CoreTiming.finishAdvance, hqueue]
      omega

theorem front_le {m : Manager T} (h : Invariant m) {front : Event T} {rest : List (Event T)}
    (hqueue : m.eventQueue = front :: rest) : ∀ e ∈ m.eventQueue, Event.le front e = true := by
  have hheap := h.heap
  rw [hqueue] at hheap ⊢
  exact hheap.root_le Event.le_refl Event.le_trans

theorem nextEvent_spec {m : Manager T} (h : Invariant m) :
    (∃ front ∈ m.eventQueue, ∃ queue, front.time ≤ m.globalTimer ∧
      (∀ e ∈ m.eventQueue, Event.le front e = true) ∧
      nextEvent H m =
        { m with eventQueue := queue, ran := m.ran ++ [front], phase := .callback } ∧
      IsEventHeap queue ∧ (front :: queue).Perm m.eventQueue) ∨
    ((∀ e ∈ m.eventQueue, m.globalTimer < e.time) ∧ nextEvent H m = finishAdvance m) := by
  have hheap := h.heap
  cases hqueue : m.eventQueue with
  | nil =>
    refine .inr ⟨fun e he => absurd he List.not_mem_nil, ?_⟩
    rw [nextEvent, hqueue]
  | cons front rest =>
    have hfirst := front_le h hqueue
    by_cases hdue : front.time ≤ m.globalTimer
    · rw [hqueue] at hheap
      obtain ⟨queue, hpop, hrest, hperm⟩ := H.popHeap_eq front rest hheap
      refine .inl ⟨front, List.mem_cons_self .., queue, hdue, hqueue ▸ hfirst, ?_, hrest,
        hperm.cons front⟩
      simp only [nextEvent, hqueue, if_pos hdue, hpop, List.dropLast_concat]
    · refine .inr ⟨fun e he => ?_, ?_⟩
      · have hle := Event.time_le (hfirst e (hqueue ▸ he))
        omega
      · simp only [nextEvent, hqueue, if_neg hdue]

theorem Invariant.nextEvent {m : Manager T} (h : Invariant m) (hphase : m.phase = .draining) :
    Invariant (nextEvent H m) := by
  rcases nextEvent_spec (H := H) h with
    ⟨front, -, queue, -, -, heq, hheap, hperm⟩ | ⟨hdone, heq⟩
  · rw [heq]
    have hsane := h.sane_of_phase_ne (by simp [hphase])
    refine ⟨hheap, ?_, h.offThread, ?_, fun _ hout => (nomatch hout), fun hfalse => ?_⟩
    · refine List.Perm.trans (List.Perm.map _ ?_) h.accounted
      apply List.Perm.append_right
      have hmiddle : (m.ran ++ [front] ++ m.removed ++ queue).Perm
          (m.ran ++ m.removed ++ front :: queue) := by
        simp only [List.append_assoc, List.singleton_append]
        exact List.perm_middle.symm.append_left m.ran
      exact hmiddle.trans (hperm.append_left _)
    · exact iff_of_false (by simp [hsane]) fun hout => nomatch hout.1
    · simp [hsane] at hfalse
  · rw [heq]
    exact h.finishAdvance hdone

/-! ### Every run -/

theorem initial_invariant {factor : Nat} (hfactor : factor ≤ 1) :
    Invariant (initial factor : Manager T) where
  heap := isHeap_nil
  accounted := List.Perm.refl _
  offThread e he := absurd he List.not_mem_nil
  sane := iff_of_false (fun hfalse => nomatch hfalse) fun hphase => absurd hphase.2 (Nat.lt_irrefl 0)
  notStarted _ _ := by
    simp only [initial, maxSliceLength]
    omega
  slice hfalse := nomatch hfalse

variable [DecidableEq T]

theorem Invariant.step {m m' : Manager T} {a : Action T} (h : Invariant m)
    (hstep : step H m a = some m') : Invariant m' := by
  cases a with
  | scheduleEventOffThread cycles type userdata =>
    obtain rfl := Option.some.inj hstep
    exact h.scheduleEventOffThread cycles type userdata
  | execute cycles =>
    simp only [CoreTiming.step, Option.ite_none_right_eq_some, Option.some.injEq] at hstep
    obtain ⟨⟨hphase, hadvances, -⟩, rfl⟩ := hstep
    have hsane := h.sane.2 ⟨hphase, hadvances⟩
    refine ⟨h.heap, h.accounted, h.offThread, h.sane, fun htrue => ?_, h.slice⟩
    simp [hsane] at htrue
  | scheduleEvent cycles type userdata =>
    simp only [CoreTiming.step, Option.ite_none_right_eq_some, Option.some.injEq] at hstep
    obtain ⟨-, rfl⟩ := hstep
    exact h.scheduleEvent cycles type userdata
  | removeEvent type =>
    simp only [CoreTiming.step, Option.ite_none_right_eq_some, Option.some.injEq] at hstep
    obtain ⟨-, rfl⟩ := hstep
    exact h.removeEvent type
  | removeAllEvents type =>
    simp only [CoreTiming.step, Option.ite_none_right_eq_some, Option.some.injEq] at hstep
    obtain ⟨-, rfl⟩ := hstep
    exact h.moveEvents.removeEvent type
  | forceExceptionCheck cycles =>
    simp only [CoreTiming.step, Option.ite_none_right_eq_some, Option.some.injEq] at hstep
    obtain ⟨-, rfl⟩ := hstep
    exact h.forceExceptionCheck cycles
  | advance =>
    simp only [CoreTiming.step, Option.ite_none_right_eq_some, Option.some.injEq] at hstep
    obtain ⟨-, rfl⟩ := hstep
    exact h.startAdvance
  | nextEvent =>
    simp only [CoreTiming.step, Option.ite_none_right_eq_some, Option.some.injEq] at hstep
    obtain ⟨hphase, rfl⟩ := hstep
    exact h.nextEvent hphase
  | returnToLoop =>
    simp only [CoreTiming.step, Option.ite_none_right_eq_some, Option.some.injEq] at hstep
    obtain ⟨hphase, rfl⟩ := hstep
    have hsane := h.sane_of_phase_ne (by simp [hphase])
    exact ⟨h.heap, h.accounted, h.offThread, iff_of_false (by simp [hsane]) fun hout =>
      (nomatch hout.1), fun _ hout => (nomatch hout), fun hfalse => by simp [hsane] at hfalse⟩

theorem reachable_invariant {m : Manager T} (h : (timingSystem H).Reachable m) : Invariant m := by
  refine h.invariant (fun m hm => ?_) fun m a m' _ hinv hstep => hinv.step hstep
  rcases hm with rfl | rfl
  · exact initial_invariant (Nat.zero_le 1)
  · exact initial_invariant (Nat.le_refl 1)

theorem getTicks_removeEvent (m : Manager T) (type : T) :
    getTicks (removeEvent H m type) = getTicks m := by
  simp only [removeEvent]
  split <;> rfl

omit [DecidableEq T] in
theorem getTicks_scheduleEvent (m : Manager T) (cycles : Int) (type : T) (userdata : Nat) :
    getTicks (scheduleEvent H m cycles type userdata) = getTicks m := by
  have hcheck := getTicks_forceExceptionCheck m cycles
  unfold scheduleEvent
  cases hsane : m.isGlobalTimerSane with
  | true => simp only [getTicks, hsane, if_true]
  | false =>
    simp only [Bool.false_eq_true, if_false]
    exact hcheck

/-- The ticks do not go back: what a slice loses, the downcount loses as well, and `Advance` adds to
    the timer what has been executed. -/
theorem getTicks_mono {m m' : Manager T} {a : Action T} (h : Invariant m)
    (hstep : step H m a = some m') : getTicks m ≤ getTicks m' := by
  cases a with
  | scheduleEventOffThread cycles type userdata =>
    obtain rfl := Option.some.inj hstep
    exact Int.le_refl _
  | execute cycles =>
    simp only [step, Option.ite_none_right_eq_some, Option.some.injEq] at hstep
    obtain ⟨⟨hphase, hadvances, -⟩, rfl⟩ := hstep
    have hsane := h.sane.2 ⟨hphase, hadvances⟩
    simp only [getTicks, hsane, Bool.false_eq_true, if_false]
    omega
  | scheduleEvent cycles type userdata =>
    simp only [step, Option.ite_none_right_eq_some, Option.some.injEq] at hstep
    obtain ⟨-, rfl⟩ := hstep
    exact Int.le_of_eq (getTicks_scheduleEvent m cycles type userdata).symm
  | removeEvent type =>
    simp only [step, Option.ite_none_right_eq_some, Option.some.injEq] at hstep
    obtain ⟨-, rfl⟩ := hstep
    exact Int.le_of_eq (getTicks_removeEvent m type).symm
  | removeAllEvents type =>
    simp only [step, Option.ite_none_right_eq_some, Option.some.injEq] at hstep
    obtain ⟨-, rfl⟩ := hstep
    obtain ⟨queue, fifoId, heq, -⟩ := moveEvents_spec (H := H) h
    rw [removeAllEvents, getTicks_removeEvent, heq]
    exact Int.le_refl _
  | forceExceptionCheck cycles =>
    simp only [step, Option.ite_none_right_eq_some, Option.some.injEq] at hstep
    obtain ⟨-, rfl⟩ := hstep
    exact Int.le_of_eq (getTicks_forceExceptionCheck m cycles).symm
  | advance =>
    simp only [step, Option.ite_none_right_eq_some, Option.some.injEq] at hstep
    obtain ⟨hphase, rfl⟩ := hstep
    obtain ⟨queue, fifoId, heq, -⟩ := moveEvents_spec (H := H) h
    simp only [startAdvance, heq, getTicks, if_true]
    cases hsane : m.isGlobalTimerSane with
    | true =>
      -- before the first `Advance`, no more than a slice has been taken away
      have hstart := h.notStarted hsane hphase
      rw [if_pos rfl]
      omega
    | false => exact Int.le_of_eq (if_neg Bool.false_ne_true)
  | nextEvent =>
    simp only [step, Option.ite_none_right_eq_some, Option.some.injEq] at hstep
    obtain ⟨hphase, rfl⟩ := hstep
    have hsane := h.sane_of_phase_ne (by simp [hphase])
    rcases nextEvent_spec (H := H) h with ⟨front, -, queue, -, -, heq, -⟩ | ⟨-, heq⟩
    · rw [heq]
      exact Int.le_refl _
    · rw [heq]
      simp only [getTicks, finishAdvance, hsane, if_true, Bool.false_eq_true, if_false]
      omega
  | returnToLoop =>
    simp only [step, Option.ite_none_right_eq_some, Option.some.injEq] at hstep
    obtain ⟨-, rfl⟩ := hstep
    exact Int.le_refl _

/-! ### Runs in which time goes on -/

/-- An infinite run in which `Advance` returns again and again and the time passes every bound. -/
structure FairRun (H : HeapAlgorithms (fun a b : Event T => Event.le a b = true))
    (states : Nat → Manager T) (actions : Nat → Action T) : Prop where
  init : (timingSystem H).init (states 0)
  step : ∀ n, CoreTiming.step H (states n) (actions n) = some (states (n + 1))
  advances : ∀ n time, ∃ k, n ≤ k ∧ actions k = .nextEvent ∧ (states (k + 1)).phase = .outside ∧
    time ≤ (states (k + 1)).globalTimer

def Settled (e : Event T) (m : Manager T) : Prop := e ∈ m.eventQueue ∨ e ∈ m.ran ∨ e ∈ m.removed

theorem settled_removeEvent {m : Manager T} {e : Event T} (he : Settled e m) (type : T) :
    Settled e (removeEvent H m type) := by
  simp only [removeEvent]
  split
  · exact he
  · rcases he with he | he | he
    · by_cases htype : e.type = type
      · exact .inr (.inr (List.mem_append_right _ (List.mem_filter.2 ⟨he, by simp [htype]⟩)))
      · exact .inl ((H.makeHeap_perm _).mem_iff.2 (List.mem_filter.2 ⟨he, by simp [htype]⟩))
    · exact .inr (.inl he)
    · exact .inr (.inr (List.mem_append_left _ he))

theorem settled_step {m m' : Manager T} {a : Action T} (h : Invariant m)
    (hstep : step H m a = some m') :
    (∀ e, Settled e m → Settled e m') ∧ m.serials ≤ m'.serials := by
  cases a with
  | scheduleEventOffThread cycles type userdata =>
    obtain rfl := Option.some.inj hstep
    exact ⟨fun _ he => he, Nat.le_succ _⟩
  | execute cycles =>
    simp only [step, Option.ite_none_right_eq_some, Option.some.injEq] at hstep
    obtain ⟨-, rfl⟩ := hstep
    exact ⟨fun _ he => he, Nat.le_refl _⟩
  | scheduleEvent cycles type userdata =>
    simp only [step, Option.ite_none_right_eq_some, Option.some.injEq] at hstep
    obtain ⟨-, rfl⟩ := hstep
    obtain ⟨slice, downcount, heq, -⟩ := forceExceptionCheck_spec m cycles
    unfold scheduleEvent
    cases m.isGlobalTimerSane with
    | true =>
      exact ⟨fun e he => he.imp (fun he => (mem_push h.heap).2 (.inl he)) id, Nat.le_succ _⟩
    | false =>
      simp only [Bool.false_eq_true, if_false, heq]
      exact ⟨fun e he => he.imp (fun he => (mem_push h.heap).2 (.inl he)) id, Nat.le_succ _⟩
  | removeEvent type =>
    simp only [step, Option.ite_none_right_eq_some, Option.some.injEq] at hstep
    obtain ⟨-, rfl⟩ := hstep
    refine ⟨fun e he => settled_removeEvent he type, ?_⟩
    simp only [removeEvent]
    split <;> exact Nat.le_refl _
  | removeAllEvents type =>
    simp only [step, Option.ite_none_right_eq_some, Option.some.injEq] at hstep
    obtain ⟨-, rfl⟩ := hstep
    obtain ⟨queue, fifoId, heq, -, -, hold, -⟩ := moveEvents_spec (H := H) h
    rw [removeAllEvents, heq]
    refine ⟨fun e he => ?_, ?_⟩
    · apply settled_removeEvent
      exact he.imp (hold e) id
    · simp only [removeEvent]
      split <;> exact Nat.le_refl _
  | forceExceptionCheck cycles =>
    simp only [step, Option.ite_none_right_eq_some, Option.some.injEq] at hstep
    obtain ⟨-, rfl⟩ := hstep
    obtain ⟨slice, downcount, heq, -⟩ := forceExceptionCheck_spec m cycles
    rw [heq]
    exact ⟨fun _ he => he, Nat.le_refl _⟩
  | advance =>
    simp only [step, Option.ite_none_right_eq_some, Option.some.injEq] at hstep
    obtain ⟨-, rfl⟩ := hstep
    obtain ⟨queue, fifoId, heq, -, -, hold, -⟩ := moveEvents_spec (H := H) h
    rw [startAdvance, heq]
    exact ⟨fun e he => he.imp (hold e) id, Nat.le_refl _⟩
  | nextEvent =>
    simp only [step, Option.ite_none_right_eq_some, Option.some.injEq] at hstep
    obtain ⟨-, rfl⟩ := hstep
    rcases nextEvent_spec (H := H) h with ⟨front, -, queue, -, -, heq, -, hperm⟩ | ⟨-, heq⟩
    · rw [heq]
      refine ⟨fun e he => ?_, Nat.le_refl _⟩
      rcases he with he | he | he
      · rcases List.mem_cons.1 (hperm.mem_iff.2 he) with rfl | he
        · exact .inr (.inl (List.mem_append_right _ (List.mem_singleton_self _)))
        · exact .inl he
      · exact .inr (.inl (List.mem_append_left _ he))
      · exact .inr (.inr he)
    · rw [heq]
      exact ⟨fun _ he => he, Nat.le_refl _⟩
  | returnToLoop =>
    simp only [step, Option.ite_none_right_eq_some, Option.some.injEq] at hstep
    obtain ⟨-, rfl⟩ := hstep
    exact ⟨fun _ he => he, Nat.le_refl _⟩

theorem outside_step {m m' : Manager T} {a : Action T} (h : Invariant m)
    (hphase : m.phase = .outside) (hadvance : a ≠ .advance) (hstep : step H m a = some m') :
    m'.phase = .outside := by
  have hremove : ∀ (m : Manager T) type, (removeEvent H m type).phase = m.phase := by
    intro m type
    simp only [removeEvent]
    split <;> rfl
  cases a with
  | advance => exact absurd rfl hadvance
  | scheduleEventOffThread cycles type userdata =>
    obtain rfl := Option.some.inj hstep
    exact hphase
  | nextEvent =>
    simp [step, hphase] at hstep
  | returnToLoop =>
    simp [step, hphase] at hstep
  | execute cycles =>
    simp only [step, Option.ite_none_right_eq_some, Option.some.injEq] at hstep
    obtain ⟨-, rfl⟩ := hstep
    exact hphase
  | scheduleEvent cycles type userdata =>
    simp only [step, Option.ite_none_right_eq_some, Option.some.injEq] at hstep
    obtain ⟨-, rfl⟩ := hstep
    obtain ⟨slice, downcount, heq, -⟩ := forceExceptionCheck_spec m cycles
    unfold scheduleEvent
    cases m.isGlobalTimerSane with
    | true => exact hphase
    | false =>
      simp only [Bool.false_eq_true, if_false, heq]
      exact hphase
  | removeEvent type =>
    simp only [step, Option.ite_none_right_eq_some, Option.some.injEq] at hstep
    obtain ⟨-, rfl⟩ := hstep
    rw [hremove, hphase]
  | removeAllEvents type =>
    simp only [step, Option.ite_none_right_eq_some, Option.some.injEq] at hstep
    obtain ⟨-, rfl⟩ := hstep
    obtain ⟨queue, fifoId, heq, -⟩ := moveEvents_spec (H := H) h
    rw [removeAllEvents, hremove, heq, hphase]
  | forceExceptionCheck cycles =>
    simp only [step, Option.ite_none_right_eq_some, Option.some.injEq] at hstep
    obtain ⟨-, rfl⟩ := hstep
    obtain ⟨slice, downcount, heq, -⟩ := forceExceptionCheck_spec m cycles
    rw [heq]
    exact hphase

namespace FairRun
variable {states : Nat → Manager T} {actions : Nat → Action T}

theorem reachable (h : FairRun H states actions) (n : Nat) :
    (timingSystem H).Reachable (states n) := by
  induction n with
  | zero => exact .init h.init
  | succ n ih => exact ih.step (h.step n)

theorem settled_of_le (h : FairRun H states actions) {n k : Nat} (hle : n ≤ k) {e : Event T}
    (he : Settled e (states n)) : Settled e (states k) := by
  induction hle with
  | refl => exact he
  | @step k _ ih => exact (settled_step (reachable_invariant (h.reachable k)) (h.step k)).1 e ih

theorem serials_of_le (h : FairRun H states actions) {n k : Nat} (hle : n ≤ k) :
    (states n).serials ≤ (states k).serials := by
  induction hle with
  | refl => exact Nat.le_refl _
  | @step k _ ih =>
    exact Nat.le_trans ih (settled_step (reachable_invariant (h.reachable k)) (h.step k)).2

theorem none_due (h : FairRun H states actions) {k : Nat} (haction : actions k = .nextEvent)
    (hphase : (states (k + 1)).phase = .outside) :
    (states k).phase = .draining ∧
      ∀ e ∈ (states (k + 1)).eventQueue, (states (k + 1)).globalTimer < e.time := by
  have hstep := h.step k
  rw [haction] at hstep
  simp only [CoreTiming.step, Option.ite_none_right_eq_some, Option.some.injEq] at hstep
  obtain ⟨hdraining, hnext⟩ := hstep
  refine ⟨hdraining, ?_⟩
  rcases nextEvent_spec (H := H) (reachable_invariant (h.reachable k)) with
    ⟨front, -, queue, -, -, heq, -⟩ | ⟨hdone, heq⟩
  · rw [← hnext, heq] at hphase
    cases hphase
  · rw [← hnext, heq]
    exact hdone

theorem exists_advance (h : FairRun H states actions) (n : Nat) :
    ∃ k, n ≤ k ∧ actions k = .advance := by
  obtain ⟨k, hnk, -, hout, -⟩ := h.advances n 0
  obtain ⟨l, hkl, haction, hphase, -⟩ := h.advances (k + 1) 0
  by_contra hnone
  have hstays : ∀ j, k + 1 ≤ j → (states j).phase = .outside := by
    intro j hj
    induction hj with
    | refl => exact hout
    | @step j hj ih =>
      refine outside_step (reachable_invariant (h.reachable j)) ih (fun hadvance => ?_) (h.step j)
      exact hnone ⟨j, Nat.le_trans hnk (Nat.le_trans (Nat.le_succ k) hj), hadvance⟩
  have hdraining := (h.none_due haction hphase).1
  rw [hstays l hkl] at hdraining
  cases hdraining

theorem exists_ran_or_removed (h : FairRun H states actions) {n serial : Nat}
    (hserial : serial < (states n).serials) :
    ∃ k, serial ∈ serialsOf ((states k).ran ++ (states k).removed) := by
  -- the next `Advance` gives it a time, if it has none
  obtain ⟨i, hni, hadvance⟩ := h.exists_advance n
  have hstep := h.step i
  rw [hadvance] at hstep
  simp only [CoreTiming.step, Option.ite_none_right_eq_some, Option.some.injEq] at hstep
  have hmoved : (states (i + 1)).tsQueue = [] := by
    obtain ⟨queue, fifoId, heq, -⟩ :=
      moveEvents_spec (H := H) (reachable_invariant (h.reachable i))
    rw [← hstep.2, startAdvance, heq]
  have hmem : serial ∈ List.range (states (i + 1)).serials :=
    List.mem_range.2 (Nat.lt_of_lt_of_le hserial (h.serials_of_le (by omega)))
  have haccounted := (reachable_invariant (h.reachable (i + 1))).accounted
  rw [← haccounted.mem_iff, hmoved, List.append_nil] at hmem
  obtain ⟨e, he, rfl⟩ := List.mem_map.1 hmem
  have hsettled : Settled e (states (i + 1)) := by
    rcases List.mem_append.1 he with he | he
    · rcases List.mem_append.1 he with he | he
      · exact .inr (.inl he)
      · exact .inr (.inr he)
    · exact .inl he
  -- and an `Advance` that returns after this time has run it
  obtain ⟨k, hik, haction, hphase, htime⟩ := h.advances (i + 1) e.time
  have hnone := (h.none_due haction hphase).2
  rcases h.settled_of_le (Nat.le_succ_of_le hik) hsettled with he | he | he
  · have hlate := hnone e he
    omega
  · exact ⟨k + 1, List.mem_map_of_mem (List.mem_append_left _ he)⟩
  · exact ⟨k + 1, List.mem_map_of_mem (List.mem_append_right _ he)⟩

end FairRun

/-- What holds of every run, once the first `Advance` has returned: each event is in one place and
    runs at most once, in order and when it is due, the ticks do not go back, and no slice goes
    past an event of the CPU thread; and where time goes on, each event runs or is removed. -/
theorem timing_runs (H : HeapAlgorithms (fun a b : Event T => Event.le a b = true)) {m : Manager T}
    (h : (timingSystem H).Reachable m) :
    (serialsOf (m.ran ++ m.removed ++ m.eventQueue ++ m.tsQueue)).Perm (List.range m.serials) ∧
    (∀ m', step H m .nextEvent = some m' →
      (∃ e ∈ m.eventQueue, m'.phase = .callback ∧ m'.ran = m.ran ++ [e] ∧
        e.time ≤ m.globalTimer ∧ (e :: m'.eventQueue).Perm m.eventQueue ∧
        ∀ e' ∈ m.eventQueue, Event.le e e' = true) ∨
      (m'.phase = .outside ∧ m'.ran = m.ran ∧ m'.eventQueue = m.eventQueue ∧
        ∀ e ∈ m'.eventQueue, m'.globalTimer < e.time)) ∧
    (∀ a m', step H m a = some m' → getTicks m ≤ getTicks m') ∧
    (m.phase = .outside → 0 < m.advances → ∀ e ∈ m.eventQueue, e.fromCpu = true →
      m.globalTimer + m.sliceLength ≤ max e.time e.scheduledAt) ∧
    (∀ states actions, FairRun H states actions → ∀ n serial, serial < (states n).serials →
      ∃ k, serial ∈ serialsOf ((states k).ran ++ (states k).removed)) := by
  have hinv := reachable_invariant h
  refine ⟨hinv.accounted, fun m' hstep => ?_, fun a m' hstep => getTicks_mono hinv hstep,
    fun hphase hadvances => hinv.slice (hinv.sane.2 ⟨hphase, hadvances⟩),
    fun states actions hrun n serial hserial => hrun.exists_ran_or_removed hserial⟩
  simp only [step, Option.ite_none_right_eq_some, Option.some.injEq] at hstep
  obtain ⟨-, rfl⟩ := hstep
  rcases nextEvent_spec (H := H) hinv with
    ⟨front, hfront, queue, hdue, hfirst, heq, -, hperm⟩ | ⟨hdone, heq⟩
  · rw [heq]
    exact .inl ⟨front, hfront, rfl, rfl, hdue, hperm, hfirst⟩
  · rw [heq]
    exact .inr ⟨rfl, rfl, rfl, hdone⟩

end Runs

/-! ### A run in which time goes on -/

def sortedQueue : HeapAlgorithms (fun a b : Event Nat => Event.le a b = true) :=
  sortingHeap Event.le Event.le_total Event.le_trans

/-- Events from both threads, one of them scheduled in a callback and removed again. -/
def firstActions : List (Action Nat) :=
  [.scheduleEvent 1000 7 42, .scheduleEventOffThread 500 8 1, .advance, .nextEvent, .execute 500,
    .advance, .nextEvent, .scheduleEvent 200 9 0, .returnToLoop, .nextEvent, .removeEvent 9,
    .execute 200, .advance, .nextEvent, .execute 300, .advance, .nextEvent, .returnToLoop, .nextEvent]

/-- What follows goes round: a slice is executed, and `Advance` finds nothing to run. -/
def fairActions (n : Nat) : Action Nat :=
  firstActions.getD n ([.execute 20000, .advance, .nextEvent].getD ((n - 19) % 3) .nextEvent)

def fairStates : Nat → Manager Nat
  | 0 => initial 1
  | n + 1 => (step sortedQueue (fairStates n) (fairActions n)).getD (fairStates n)

/-- After the first actions and `rounds` rounds. -/
def idleManager (rounds : Nat) : Manager Nat where
  globalTimer := 1000 + 20000 * rounds
  sliceLength := 20000
  downcount := 20000
  isGlobalTimerSane := false
  eventQueue := []
  eventFifoId := 3
  tsQueue := []
  phase := .outside
  advances := 4 + rounds
  serials := 3
  ran := [⟨500, 1, 1, 8, 1, false, 0⟩, ⟨1000, 0, 42, 7, 0, true, 0⟩]
  removed := [⟨700, 2, 0, 9, 2, true, 500⟩]

theorem idleManager_step (rounds : Nat) :
    ∃ m m', step sortedQueue (idleManager rounds) (.execute 20000) = some m ∧
      step sortedQueue m .advance = some m' ∧
      step sortedQueue m' .nextEvent = some (idleManager (rounds + 1)) := by
  refine ⟨{ idleManager rounds with downcount := 0 },
    { idleManager rounds with
      globalTimer := 1000 + 20000 * rounds + 20000
      downcount := 0
      isGlobalTimerSane := true
      phase := .draining }, ?_, ?_, ?_⟩
  · simp [step, idleManager, maxExact]
  · simp [step, startAdvance, moveEvents, idleManager, maxSliceLength]
  · have htimer : 1000 + 20000 * (rounds : Int) + 20000 = 1000 + 20000 * (rounds + 1 : Nat) := by
      omega
    simp only [step, nextEvent, finishAdvance, idleManager, if_true, htimer, Nat.add_assoc]

theorem fairActions_round (rounds : Nat) :
    fairActions (19 + 3 * rounds) = .execute 20000 ∧ fairActions (20 + 3 * rounds) = .advance ∧
      fairActions (21 + 3 * rounds) = .nextEvent := by
  have hround : ∀ n, fairActions (19 + n) =
      [Action.execute 20000, .advance, .nextEvent].getD (n % 3) .nextEvent := by
    intro n
    rw [fairActions, List.getD_eq_getElem?_getD, List.getElem?_eq_none (Nat.le_add_right 19 n)]
    rw [Nat.add_sub_cancel_left]
    rfl
  have h0 := hround (3 * rounds)
  have h1 := hround (1 + 3 * rounds)
  have h2 := hround (2 + 3 * rounds)
  rw [Nat.mul_mod_right] at h0
  rw [Nat.add_mul_mod_self_left] at h1 h2
  rw [← Nat.add_assoc] at h1 h2
  exact ⟨h0, h1, h2⟩

theorem fairStates_succ {n : Nat} {m : Manager Nat}
    (h : step sortedQueue (fairStates n) (fairActions n) = some m) : fairStates (n + 1) = m := by
  rw [fairStates, h]
  rfl

theorem fairStates_next {rounds : Nat} (h : fairStates (19 + 3 * rounds) = idleManager rounds) :
    (∀ n, 19 + 3 * rounds ≤ n → n ≤ 21 + 3 * rounds →
      step sortedQueue (fairStates n) (fairActions n) = some (fairStates (n + 1))) ∧
    fairStates (22 + 3 * rounds) = idleManager (rounds + 1) := by
  obtain ⟨m, m', hexecute, hadvance, hnext⟩ := idleManager_step rounds
  obtain ⟨h0, h1, h2⟩ := fairActions_round rounds
  rw [← h, ← h0] at hexecute
  have hm := fairStates_succ hexecute
  rw [show 19 + 3 * rounds + 1 = 20 + 3 * rounds by omega] at hm
  rw [← hm, ← h1] at hadvance
  have hm' := fairStates_succ hadvance
  rw [show 20 + 3 * rounds + 1 = 21 + 3 * rounds by omega] at hm'
  rw [← hm', ← h2] at hnext
  have hend := fairStates_succ hnext
  rw [show 21 + 3 * rounds + 1 = 22 + 3 * rounds by omega] at hend
  refine ⟨fun n hge hle => ?_, hend⟩
  obtain rfl | rfl | rfl : n = 19 + 3 * rounds ∨ n = 20 + 3 * rounds ∨ n = 21 + 3 * rounds := by
    omega
  · rw [hexecute, fairStates_succ hexecute]
  · rw [hadvance, fairStates_succ hadvance]
  · rw [hnext, fairStates_succ hnext]

theorem fairStates_round (rounds : Nat) : fairStates (19 + 3 * rounds) = idleManager rounds := by
  induction rounds with
  | zero => decide +kernel
  | succ rounds ih =>
    rw [show 19 + 3 * (rounds + 1) = 22 + 3 * rounds by omega]
    exact (fairStates_next ih).2

theorem fairStates_step (n : Nat) :
    step sortedQueue (fairStates n) (fairActions n) = some (fairStates (n + 1)) := by
  by_cases hfirst : n < 19
  · have hall : ∀ n < 19, step sortedQueue (fairStates n) (fairActions n) =
        some (fairStates (n + 1)) := by decide +kernel
    exact hall n hfirst
  · exact (fairStates_next (fairStates_round ((n - 19) / 3))).1 n (by omega) (by omega)

theorem fairRun : FairRun sortedQueue fairStates fairActions where
  init := .inr rfl
  step := fairStates_step
  advances n time := by
    have hend := (fairStates_next (fairStates_round (n + time.toNat))).2
    refine ⟨21 + 3 * (n + time.toNat), by omega, (fairActions_round _).2.2, ?_⟩
    rw [show 21 + 3 * (n + time.toNat) + 1 = 22 + 3 * (n + time.toNat) by omega, hend]
    refine ⟨rfl, ?_⟩
    simp only [idleManager]
    omega

/-- In the state after the tenth action two events are in the queue, and one of them has been
    scheduled in the callback of the one that has run. -/
theorem fairRun_runs :
    FairRun sortedQueue fairStates fairActions ∧
    (serialsOf ((fairStates 10).ran ++ (fairStates 10).removed ++ (fairStates 10).eventQueue ++
      (fairStates 10).tsQueue)).Perm [0, 1, 2] ∧
    (∀ a m', step sortedQueue (fairStates 10) a = some m' → 500 ≤ getTicks m') ∧
    (∀ e ∈ (fairStates 10).eventQueue, (fairStates 10).globalTimer +
      (fairStates 10).sliceLength ≤ max e.time e.scheduledAt) ∧
    (∃ e ∈ (fairStates 6).eventQueue, (fairStates 7).ran = (fairStates 6).ran ++ [e] ∧
      e.time ≤ (fairStates 6).globalTimer ∧
      ∀ e' ∈ (fairStates 6).eventQueue, Event.le e e' = true) ∧
    ∀ serial < 3, ∃ k, serial ∈ serialsOf ((fairStates k).ran ++ (fairStates k).removed) := by
  obtain ⟨haccounted, -, hticks, hslice, hran⟩ := timing_runs sortedQueue (fairRun.reachable 10)
  obtain ⟨-, hnext, -⟩ := timing_runs sortedQueue (fairRun.reachable 6)
  refine ⟨fairRun, haccounted.trans (by decide +kernel), fun a m' hstep => ?_, fun e he => ?_, ?_,
    fun serial hserial => hran _ _ fairRun 10 serial (hserial.trans_le (by decide +kernel))⟩
  · have hticks' : getTicks (fairStates 10) = 500 := by decide +kernel
    exact hticks' ▸ hticks a m' hstep
  · have hcpu : ∀ e ∈ (fairStates 10).eventQueue, e.fromCpu = true := by decide +kernel
    exact hslice (by decide +kernel) (by decide +kernel) e he (hcpu e he)
  · rcases hnext (fairStates 7) (fairStates_step 6) with
      ⟨e, he, -, hrun, htime, -, hfirst⟩ | ⟨hphase, -⟩
    · exact ⟨e, he, hrun, htime, hfirst⟩
    · have hcallback : (fairStates 7).phase = .callback := by decide +kernel
      rw [hcallback] at hphase
      cases hphase

/-- Before the first `Advance`, an event does not shorten the slice. -/
theorem firstSlice_passes_event :
    (timingSystem sortedQueue).Reachable (scheduleEvent sortedQueue (initial 1) 1000 7 42) ∧
      (scheduleEvent sortedQueue (initial 1) 1000 7 42).phase = .outside ∧
      ∃ e ∈ (scheduleEvent sortedQueue (initial 1) 1000 7 42).eventQueue, e.fromCpu = true ∧
        ¬(scheduleEvent sortedQueue (initial 1) 1000 7 42).globalTimer +
          (scheduleEvent sortedQueue (initial 1) 1000 7 42).sliceLength ≤
            max e.time e.scheduledAt := by
  refine ⟨.step (a := .scheduleEvent 1000 7 42) (.init (.inr rfl)) rfl, rfl,
    ⟨1000, 0, 42, 7, 0, true, 0⟩, ?_, rfl, ?_⟩
  · decide +kernel
  · decide +kernel

end DolphinXR.CoreTiming
