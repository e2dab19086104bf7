import DolphinXR.Core.CoreTimingRuns

/- A change of the PPC clock rescales the times of the event queue where they lie, in 64 bits. Two
   times can become one, and then the order of two events is that of their insertion, which the heap
   has not looked at: it is a heap again exactly if no event that was inserted after one of those
   below it comes to the same time as that. What the call also does to the speed limit and to the
   statistics is on the host only. -/
namespace DolphinXR.CoreTiming
open Lib

section Clock
variable {T : Type}

/-- A value as an `s64`. -/
def s64 (x : Int) : Int := x.bmod (2 ^ 64)

def FitsS64 (x : Int) : Prop := -2 ^ 63 ≤ x ∧ x < 2 ^ 63

instance (x : Int) : Decidable (FitsS64 x) := inferInstanceAs (Decidable (_ ∧ _))

theorem s64_eq {x : Int} (h : FitsS64 x) : s64 x = x := by
  obtain ⟨hlow, hhigh⟩ := h
  exact Int.bmod_eq_of_le (by omega) (by omega)

def adjustTime (ticks : Int) (newPpcClock oldPpcClock : Nat) (time : Int) : Int :=
  let evTicks := s64 ((s64 (s64 (time - ticks) * newPpcClock)).tdiv oldPpcClock)
  s64 (ticks + evTicks)

def adjustEventQueueTimes (m : Manager T) (newPpcClock oldPpcClock : Nat) : Manager T :=
  { m with
    eventQueue := m.eventQueue.map fun ev =>
      { ev with time := adjustTime m.globalTimer newPpcClock oldPpcClock ev.time } }

/-- No step of the rescaling leaves the 64 bits. -/
structure Rescales (ticks : Int) (newPpcClock oldPpcClock : Nat) (time : Int) : Prop where
  distance : FitsS64 (time - ticks)
  product : FitsS64 ((time - ticks) * newPpcClock)
  quotient : FitsS64 (((time - ticks) * newPpcClock).tdiv oldPpcClock)
  sum : FitsS64 (ticks + ((time - ticks) * newPpcClock).tdiv oldPpcClock)

theorem adjustTime_eq {ticks time : Int} {newPpcClock oldPpcClock : Nat}
    (hle : ticks ≤ time) (h : Rescales ticks newPpcClock oldPpcClock time) :
    adjustTime ticks newPpcClock oldPpcClock time =
      ticks + (time - ticks) * newPpcClock / oldPpcClock := by
  have hpos : 0 ≤ (time - ticks) * newPpcClock := Int.mul_nonneg (by omega) (by omega)
  simp only [adjustTime, s64_eq h.distance, s64_eq h.product, s64_eq h.quotient, s64_eq h.sum]
  rw [Int.tdiv_eq_ediv_of_nonneg hpos]

theorem ediv_lt_iff {a b c : Int} (hc : 0 < c) : a / c < b / c ↔ ∃ k, a < k * c ∧ k * c ≤ b := by
  constructor
  · intro h
    exact ⟨b / c, (Int.ediv_lt_iff_lt_mul hc).1 h, Int.ediv_mul_le b (ne_of_gt hc)⟩
  · rintro ⟨k, hlt, hle⟩
    calc a / c < k := (Int.ediv_lt_iff_lt_mul hc).2 hlt
      _ ≤ b / c := (Int.le_ediv_iff_mul_le hc).2 hle

/-- The event `ev` that was before `later`, although it was inserted after it, comes to the same
    time: no multiple of the old clock lies between the two. -/
def Outruns (m : Manager T) (newPpcClock oldPpcClock : Nat) (ev later : Event T) : Prop :=
  later.fifoOrder < ev.fifoOrder ∧
    ¬∃ k : Int, (ev.time - m.globalTimer) * newPpcClock < k * oldPpcClock ∧
      k * oldPpcClock ≤ (later.time - m.globalTimer) * newPpcClock

variable {m : Manager T} {newPpcClock oldPpcClock : Nat}

theorem le_adjusted_iff (hold : 0 < oldPpcClock) {ev later : Event T}
    (htimes : m.globalTimer ≤ ev.time ∧ m.globalTimer ≤ later.time)
    (hev : Rescales m.globalTimer newPpcClock oldPpcClock ev.time)
    (hlater : Rescales m.globalTimer newPpcClock oldPpcClock later.time)
    (hle : Event.le ev later = true) :
    Event.le { ev with time := adjustTime m.globalTimer newPpcClock oldPpcClock ev.time }
        { later with time := adjustTime m.globalTimer newPpcClock oldPpcClock later.time } = true ↔
      ¬Outruns m newPpcClock oldPpcClock ev later := by
  have hold' : (0 : Int) < oldPpcClock := by exact_mod_cast hold
  have htime := Event.time_le hle
  have hmono : (ev.time - m.globalTimer) * newPpcClock / oldPpcClock ≤
      (later.time - m.globalTimer) * newPpcClock / oldPpcClock := by
    apply Int.ediv_le_ediv hold'
    exact Int.mul_le_mul_of_nonneg_right (by omega) (by omega)
  rw [Outruns, ← ediv_lt_iff hold']
  simp only [Event.le, adjustTime_eq htimes.1 hev, adjustTime_eq htimes.2 hlater,
    Bool.or_eq_true, Bool.and_eq_true, decide_eq_true_eq]
  omega

/-- Before the call: a heap of future events, and nothing overflows. -/
structure Adjustable (m : Manager T) (newPpcClock oldPpcClock : Nat) : Prop where
  newClock : 0 < newPpcClock ∧ newPpcClock < 2 ^ 32
  oldClock : 0 < oldPpcClock ∧ oldPpcClock < 2 ^ 32
  heap : IsEventHeap m.eventQueue
  future : ∀ ev ∈ m.eventQueue, m.globalTimer ≤ ev.time
  rescales : ∀ ev ∈ m.eventQueue, Rescales m.globalTimer newPpcClock oldPpcClock ev.time

theorem adjustEventQueueTimes_heap_iff (h : Adjustable m newPpcClock oldPpcClock) :
    IsEventHeap (adjustEventQueueTimes m newPpcClock oldPpcClock).eventQueue ↔
      ∀ i j (hi : i < m.eventQueue.length) (hj : j < m.eventQueue.length), 0 < i →
        j = (i - 1) / 2 → ¬Outruns m newPpcClock oldPpcClock m.eventQueue[j] m.eventQueue[i] := by
  have hkeeps : ∀ i j (hi : i < m.eventQueue.length) (hj : j < m.eventQueue.length), 0 < i →
      j = (i - 1) / 2 → (Event.le
        { m.eventQueue[j] with
          time := adjustTime m.globalTimer newPpcClock oldPpcClock m.eventQueue[j].time }
        { m.eventQueue[i] with
          time := adjustTime m.globalTimer newPpcClock oldPpcClock m.eventQueue[i].time } = true ↔
      ¬Outruns m newPpcClock oldPpcClock m.eventQueue[j] m.eventQueue[i]) := by
    intro i j hi hj hpos hparent
    exact le_adjusted_iff h.oldClock.1
      ⟨h.future _ (List.getElem_mem hj), h.future _ (List.getElem_mem hi)⟩
      (h.rescales _ (List.getElem_mem hj)) (h.rescales _ (List.getElem_mem hi))
      (h.heap i j hi hj hpos hparent)
  constructor
  · intro hheap i j hi hj hpos hparent
    apply (hkeeps i j hi hj hpos hparent).1
    have hle := hheap i j (by simpa [adjustEventQueueTimes] using hi)
      (by simpa [adjustEventQueueTimes] using hj) hpos hparent
    simpa only [adjustEventQueueTimes, List.getElem_map] using hle
  · intro hnone i j hi hj hpos hparent
    simp only [adjustEventQueueTimes, List.length_map] at hi hj
    simp only [adjustEventQueueTimes, List.getElem_map]
    exact (hkeeps i j hi hj hpos hparent).2 (hnone i j hi hj hpos hparent)

end Clock

/-- Two events three and four cycles away, the later of which was inserted first. -/
def tiedQueue : Manager Unit :=
  { initial 1 with eventQueue := [⟨3, 1, 0, (), 1, true, 0⟩, ⟨4, 0, 0, (), 0, true, 0⟩] }

def slowClock : Nat := 486000000

def fastClock : Nat := 729000000

theorem tiedQueue_rescales {time : Int} (htime : time = 3 ∨ time = 4) :
    Rescales 0 slowClock fastClock time ∧ Rescales 0 fastClock slowClock time := by
  rcases htime with rfl | rfl
  · exact ⟨⟨by decide, by decide, by decide, by decide⟩, by decide, by decide, by decide, by decide⟩
  · exact ⟨⟨by decide, by decide, by decide, by decide⟩, by decide, by decide, by decide, by decide⟩

theorem tiedQueue_times : ∀ ev ∈ tiedQueue.eventQueue, ev.time = 3 ∨ ev.time = 4 := by decide

theorem tiedQueue_adjustable :
    Adjustable tiedQueue slowClock fastClock ∧ Adjustable tiedQueue fastClock slowClock := by
  have hheap : IsEventHeap tiedQueue.eventQueue := isHeap_of_pairwise (by decide)
  have hfuture : ∀ ev ∈ tiedQueue.eventQueue, tiedQueue.globalTimer ≤ ev.time := by decide
  constructor
  · exact ⟨by decide, by decide, hheap, hfuture, fun ev hev =>
      (tiedQueue_rescales (tiedQueue_times ev hev)).1⟩
  · exact ⟨by decide, by decide, hheap, hfuture, fun ev hev =>
      (tiedQueue_rescales (tiedQueue_times ev hev)).2⟩

/-- From 486 to 729 MHz the queue stays a heap. -/
theorem adjustEventQueueTimes_heap_iff_faster :
    IsEventHeap (adjustEventQueueTimes tiedQueue fastClock slowClock).eventQueue := by
  apply (adjustEventQueueTimes_heap_iff tiedQueue_adjustable.2).2
  intro i j hi hj hpos hparent houtruns
  obtain rfl : i = 1 := by
    have : i < 2 := hi
    omega
  obtain rfl : j = 0 := hparent
  have hlt : (3 - 0 : Int) * fastClock < 5 * slowClock := by decide
  have hle : (5 : Int) * slowClock ≤ (4 - 0) * fastClock := by decide
  exact houtruns.2 ⟨5, hlt, hle⟩

/-- From 729 to 486 MHz both events come to the second cycle, in the wrong order. -/
theorem adjustEventQueueTimes_not_heap :
    Adjustable tiedQueue slowClock fastClock ∧
      ((adjustEventQueueTimes tiedQueue slowClock fastClock).eventQueue.map fun ev =>
        (ev.time, ev.fifoOrder)) = [(2, 1), (2, 0)] ∧
      ¬IsEventHeap (adjustEventQueueTimes tiedQueue slowClock fastClock).eventQueue := by
  refine ⟨tiedQueue_adjustable.1, by decide, ?_⟩
  intro hheap
  exact absurd (hheap 1 0 (by decide) (by decide) (by decide) rfl) (by decide)

end DolphinXR.CoreTiming
