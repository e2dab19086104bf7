import DolphinXR.Core.CallGate

/- What the gate promises: one ticket at a time, a cancellation for the call that runs, and no
   ticket for a call that has waited for one which came to run emulation. The last one asks
   that the running call, before it is released, leaves its waiting calls the time to look;
   where it does not, they find the gate free and enter it. -/
namespace DolphinXR.CallGate
open Lib

def OneTicket (s : State) : Prop :=
  ∀ t u c d, (s.threads t).ticket = some c → (s.threads u).ticket = some d → t = u

namespace State

def cancelled (s : State) (c : Nat) : Bool := s.calls[c]?.any (·.cancelled)

end State

def CancelMarksRunning (s : State) : Prop :=
  ∀ a s' c, step s a = some s' → s.cancelled c = false → s'.cancelled c = true →
    ∃ t requestId, a = .advance t ∧ (s.threads t).pc = .cancelStore requestId (some c)

/-- No call has been let in after it waited for one that has marked itself as running
    emulation. -/
def WaitersRefused (s : State) : Prop :=
  ∀ (c : Nat) call a, s.calls[c]? = some call → a ∈ call.waitedFor → s.runsEmulation a = false

structure Law (s : State) : Prop where
  oneTicket : OneTicket s
  cancelMarksRunning : CancelMarksRunning s
  waitersRefused : WaitersRefused s

/-- A call that has marked itself ends when no call that has entered a wait during it is still
    waiting. -/
def Awaited (s : State) : Action → Prop
  | .advance t => ∀ c, (s.threads t).pc = .releaseReset c → s.runsEmulation c = true →
    ∀ u, c ∉ (s.threads u).waitedFor
  | _ => True

theorem getElem?_setCall (s : State) (c i : Nat) (f : Call → Call) :
    (s.setCall c f).calls[i]? = if c = i then s.calls[i]?.map f else s.calls[i]? := by
  have hmodify : (s.setCall c f).calls[i]? = _ := List.getElem?_modify f c s.calls i
  rw [hmodify]
  by_cases hci : c = i
  · simp only [if_pos hci]
    rfl
  · simp only [if_neg hci]
    exact Option.map_id'

/-! ### What a thread may rely on -/

/-- A thread as it may be in a state, whose own threads do not count. -/
structure Fits (s : State) (t : Nat) (thread : Thread) : Prop where
  locked : thread.pc.locked = true → s.mutex = some t
  ticket : ∀ c, thread.ticket = some c → s.running = some c
  tCall : ∀ c, thread.tCall = some c → thread.ticket = some c
  release : ∀ c, thread.pc = .releaseLock c ∨ thread.pc = .releaseReset c →
    thread.ticket = some c ∧ thread.tCall = none
  cancel : ∀ requestId found, thread.pc = .cancelStore requestId found → s.running = found
  waited : ∀ a ∈ thread.waitedFor,
    a < s.calls.length ∧ (s.running = some a ∨ s.runsEmulation a = false)

structure Sound (s : State) : Prop where
  fits : ∀ t, Fits s t (s.threads t)
  oneTicket : OneTicket s
  running : ∀ c, s.running = some c → c < s.calls.length
  refused : ∀ (c : Nat) call a, s.calls[c]? = some call → a ∈ call.waitedFor →
    a < s.calls.length ∧ s.running ≠ some a ∧ s.runsEmulation a = false

theorem wake_cases (pc : Pc) :
    pc.wake = pc ∨ ∃ request deadline, pc.wake = .woken request deadline := by
  cases pc with
  | waiting request deadline => exact .inr ⟨request, deadline, rfl⟩
  | _ => exact .inl rfl

namespace Fits
variable {s : State} {t : Nat} {thread : Thread}

theorem goto (h : Fits s t thread) {pc : Pc} (hlocked : pc.locked = true → s.mutex = some t)
    (hrelease : ∀ c, pc = .releaseLock c ∨ pc = .releaseReset c →
      thread.ticket = some c ∧ thread.tCall = none)
    (hcancel : ∀ requestId found, pc = .cancelStore requestId found → s.running = found) :
    Fits s t { thread with pc } :=
  ⟨hlocked, h.ticket, h.tCall, hrelease, hcancel, h.waited⟩

theorem wake (h : Fits s t thread) : Fits s t { thread with pc := thread.pc.wake } := by
  obtain hsame | ⟨request, deadline, hwoken⟩ := wake_cases thread.pc
  · rw [hsame]
    exact h
  · rw [hwoken]
    exact h.goto nofun nofun nofun

theorem withMutex (h : Fits s t thread) {mutex : Option Nat}
    (hlocked : thread.pc.locked = true → mutex = some t) :
    Fits { s with mutex } t thread :=
  ⟨hlocked, h.ticket, h.tCall, h.release, h.cancel, h.waited⟩

end Fits

namespace Sound
variable {s : State}

theorem not_locked (h : Sound s) {t u : Nat} (ht : (s.threads t).pc.locked = true)
    (hne : u ≠ t) : (s.threads u).pc.locked = false := by
  cases hu : (s.threads u).pc.locked with
  | false => rfl
  | true =>
    have hsame := ((h.fits u).locked hu).symm.trans ((h.fits t).locked ht)
    exact absurd (Option.some.inj hsame) hne

theorem setThread (h : Sound s) {t : Nat} {thread : Thread} {mutex : Option Nat}
    (hfits : Fits { s with mutex } t thread)
    (hticket : ∀ c, thread.ticket = some c → (s.threads t).ticket = some c)
    (hmutex : ∀ u ≠ t, (s.threads u).pc.locked = true → mutex = some u) :
    Sound { s.setThread t thread with mutex } := by
  refine ⟨?_, ?_, h.running, h.refused⟩
  · refine (Function.forall_update_iff s.threads fun u thread => Fits _ u thread).2 ⟨?_, ?_⟩
    · exact ⟨hfits.locked, hfits.ticket, hfits.tCall, hfits.release, hfits.cancel, hfits.waited⟩
    · intro u hut
      have hu := (h.fits u).withMutex (hmutex u hut)
      exact ⟨hu.locked, hu.ticket, hu.tCall, hu.release, hu.cancel, hu.waited⟩
  · have hbefore : ∀ u c, (Function.update s.threads t thread u).ticket = some c →
        (s.threads u).ticket = some c :=
      (Function.forall_update_iff s.threads
        fun u thread => ∀ c, thread.ticket = some c → (s.threads u).ticket = some c).2
        ⟨hticket, fun u _ c hc => hc⟩
    exact fun u v c d hu hv => h.oneTicket u v c d (hbefore u c hu) (hbefore v d hv)

theorem goto (h : Sound s) {t : Nat} {pc : Pc}
    (hlocked : pc.locked = true → (s.threads t).pc.locked = true)
    (hrelease : ∀ c, pc = .releaseLock c ∨ pc = .releaseReset c →
      (s.threads t).ticket = some c ∧ (s.threads t).tCall = none)
    (hcancel : ∀ requestId found, pc = .cancelStore requestId found → s.running = found) :
    Sound (s.goto t pc) :=
  h.setThread ((h.fits t).goto (fun hpc => (h.fits t).locked (hlocked hpc)) hrelease hcancel)
    (fun _ hc => hc) fun u _ hu => (h.fits u).locked hu

theorem setCall (h : Sound s) {c : Nat} {f : Call → Call} (hrunning : s.running = some c)
    (hf : ∀ call, (f call).waitedFor = call.waitedFor) : Sound (s.setCall c f) := by
  have hlength : (s.setCall c f).calls.length = s.calls.length := List.length_modify ..
  have hruns : ∀ a, s.running ≠ some a →
      (s.setCall c f).runsEmulation a = s.runsEmulation a := by
    intro a ha
    have hne : c ≠ a := fun hca => ha (hca ▸ hrunning)
    unfold State.runsEmulation
    rw [getElem?_setCall, if_neg hne]
  refine ⟨fun t => ?_, h.oneTicket, fun d hd => ?_, fun i call a hcall ha => ?_⟩
  · obtain ⟨hlocked, hticket, htCall, hrelease, hcancel, hwaited⟩ := h.fits t
    refine ⟨hlocked, hticket, htCall, hrelease, hcancel, fun a ha => ?_⟩
    obtain ⟨hlt, hquiet⟩ := hwaited a ha
    refine ⟨hlength ▸ hlt, ?_⟩
    by_cases hrun : s.running = some a
    · exact .inl hrun
    · exact .inr ((hruns a hrun).trans (hquiet.resolve_left hrun))
  · rw [hlength]
    exact h.running d hd
  · rw [getElem?_setCall] at hcall
    obtain ⟨before, hbefore, hsame⟩ : ∃ before, s.calls[i]? = some before ∧
        call.waitedFor = before.waitedFor := by
      split at hcall
      · obtain ⟨before, hbefore, hcall⟩ := Option.map_eq_some_iff.1 hcall
        exact ⟨before, hbefore, hcall ▸ hf before⟩
      · exact ⟨call, hcall, rfl⟩
    rw [hsame] at ha
    obtain ⟨hlt, hrun, hquiet⟩ := h.refused i before a hbefore ha
    exact ⟨hlength ▸ hlt, hrun, (hruns a hrun).trans hquiet⟩

theorem notifyAll (h : Sound s) : Sound s.notifyAll :=
  ⟨fun t => by
    obtain ⟨hlocked, hticket, htCall, hrelease, hcancel, hwaited⟩ := (h.fits t).wake
    exact ⟨hlocked, hticket, htCall, hrelease, hcancel, hwaited⟩,
    h.oneTicket, h.running, h.refused⟩

theorem ticket_eq_none (h : Sound s) {t u c : Nat} (ht : (s.threads t).ticket = some c)
    (hne : u ≠ t) : (s.threads u).ticket = none := by
  cases hu : (s.threads u).ticket with
  | none => rfl
  | some d => exact absurd (h.oneTicket u t d c hu ht) hne

theorem letIn (h : Sound s) {t : Nat} {request : Request} (hfree : s.running = none)
    (hlocked : (s.threads t).pc.locked = true) : Sound (s.letIn t request) := by
  have hnone : ∀ u, (s.threads u).ticket = none := by
    intro u
    cases hu : (s.threads u).ticket with
    | none => rfl
    | some c => exact absurd ((h.fits u).ticket c hu) (hfree ▸ nofun)
  have hquiet : ∀ u, ∀ a ∈ (s.threads u).waitedFor,
      a < s.calls.length ∧ s.runsEmulation a = false := by
    intro u a ha
    obtain ⟨hlt, hrun⟩ := (h.fits u).waited a ha
    exact ⟨hlt, hrun.resolve_left (hfree ▸ nofun)⟩
  have hlength : (s.letIn t request).calls.length = s.calls.length + 1 := by
    exact List.length_append ..
  have hbefore : ∀ a < s.calls.length, (s.letIn t request).calls[a]? = s.calls[a]? :=
    fun a ha => List.getElem?_append_left ha
  have hruns : ∀ a < s.calls.length,
      (s.letIn t request).runsEmulation a = s.runsEmulation a := by
    intro a ha
    unfold State.runsEmulation
    rw [hbefore a ha]
  have hold : ∀ a, a < s.calls.length ∧ s.runsEmulation a = false →
      a < (s.letIn t request).calls.length ∧ (s.letIn t request).running ≠ some a ∧
        (s.letIn t request).runsEmulation a = false := by
    rintro a ⟨hlt, hrun⟩
    refine ⟨by omega, fun hsome => ?_, (hruns a hlt).trans hrun⟩
    exact absurd (Option.some.inj hsome) (by omega)
  refine ⟨?_, ?_, fun c hc => ?_, fun i call a hcall ha => ?_⟩
  · refine (Function.forall_update_iff s.threads fun u thread => Fits _ u thread).2 ⟨?_, ?_⟩
    · exact ⟨fun _ => (h.fits t).locked hlocked, fun c hc => hc, fun c hc => hc, nofun, nofun,
        nofun⟩
    · intro u hut
      refine ⟨(h.fits u).locked, fun c hc => absurd ((hnone u).symm.trans hc) nofun,
        (h.fits u).tCall, (h.fits u).release, fun requestId found hcancel => ?_, fun a ha => ?_⟩
      · -- Only one thread has the lock.
        have hother := h.not_locked hlocked hut
        rw [hcancel] at hother
        exact absurd hother nofun
      · obtain ⟨hlt, -, hrun⟩ := hold a (hquiet u a ha)
        exact ⟨hlt, .inr hrun⟩
  · have honly : ∀ u c, ((s.letIn t request).threads u).ticket = some c → u = t :=
      (Function.forall_update_iff s.threads
        fun u thread => ∀ c, thread.ticket = some c → u = t).2
        ⟨fun _ _ => rfl, fun u _ c hc => absurd ((hnone u).symm.trans hc) nofun⟩
    exact fun u v c d hu hv => (honly u c hu).trans (honly v d hv).symm
  · have hsame : s.calls.length = c := Option.some.inj hc
    omega
  · by_cases hi : i < s.calls.length
    · rw [hbefore i hi] at hcall
      obtain ⟨hlt, -, hrun⟩ := h.refused i call a hcall ha
      exact hold a ⟨hlt, hrun⟩
    · -- The call that is let in has waited for calls that have not marked themselves.
      have hlast : ([_] : List Call)[i - s.calls.length]? = some call :=
        (List.getElem?_append_right (by omega)).symm.trans hcall
      rw [List.mem_singleton.1 (List.mem_of_getElem? hlast)] at ha
      exact hold a (hquiet t a ha)

theorem reset (h : Sound s) {t c : Nat} (hpc : (s.threads t).pc = .releaseReset c)
    (hawaited : s.runsEmulation c = true → ∀ u, c ∉ (s.threads u).waitedFor) :
    Sound { s.setThread t { s.threads t with pc := .unlock true, ticket := none } with
      running := if s.running = some c then none else s.running } := by
  have hlocked : (s.threads t).pc.locked = true := by
    rw [hpc]
    rfl
  obtain ⟨hticket, htCall⟩ := (h.fits t).release c (.inr hpc)
  have hrunning := (h.fits t).ticket c hticket
  rw [if_pos hrunning]
  have hquiet : ∀ u, ∀ a ∈ (s.threads u).waitedFor,
      a < s.calls.length ∧ s.runsEmulation a = false := by
    intro u a ha
    obtain ⟨hlt, hrun | hrun⟩ := (h.fits u).waited a ha
    · cases hrunning.symm.trans hrun
      refine ⟨hlt, Bool.eq_false_iff.2 fun hmarked => ?_⟩
      exact hawaited hmarked u ha
    · exact ⟨hlt, hrun⟩
  have hnone : ∀ u ≠ t, (s.threads u).ticket = none := fun u => h.ticket_eq_none hticket
  refine ⟨?_, ?_, nofun, fun i call a hcall ha => ?_⟩
  · refine (Function.forall_update_iff s.threads fun u thread => Fits _ u thread).2 ⟨?_, ?_⟩
    · exact ⟨fun _ => (h.fits t).locked hlocked, nofun,
        fun d hd => absurd (htCall.symm.trans hd) nofun, nofun, nofun,
        fun a ha => ⟨(hquiet t a ha).1, .inr (hquiet t a ha).2⟩⟩
    · intro u hut
      refine ⟨(h.fits u).locked, fun d hd => absurd ((hnone u hut).symm.trans hd) nofun,
        (h.fits u).tCall, (h.fits u).release, fun requestId found hcancel => ?_,
        fun a ha => ⟨(hquiet u a ha).1, .inr (hquiet u a ha).2⟩⟩
      -- Only one thread has the lock.
      have hother := h.not_locked hlocked hut
      rw [hcancel] at hother
      exact absurd hother nofun
  · have hnobody : ∀ u, (Function.update s.threads t
        { s.threads t with pc := .unlock true, ticket := none } u).ticket = none :=
      (Function.forall_update_iff s.threads fun _ thread => thread.ticket = none).2 ⟨rfl, hnone⟩
    exact fun u v d e hu _ => absurd ((hnobody u).symm.trans hu) nofun
  · obtain ⟨hlt, -, hrun⟩ := h.refused i call a hcall ha
    exact ⟨hlt, nofun, hrun⟩

theorem refuse (h : Sound s) {t : Nat} (hlocked : (s.threads t).pc.locked = true) :
    Sound (s.refuse t) :=
  h.setThread ⟨fun _ => (h.fits t).locked hlocked, (h.fits t).ticket, (h.fits t).tCall, nofun, nofun,
    nofun⟩ (fun _ hc => hc) fun u _ hu => (h.fits u).locked hu

theorem begin (h : Sound s) (t : Nat) (operation : Operation) :
    Sound (CallGate.begin s t operation) := by
  cases operation with
  | enter request => exact h.goto nofun nofun nofun
  | release =>
    unfold CallGate.begin
    cases hticket : (s.threads t).ticket with
    | none => exact h
    | some c =>
      have hfits := h.fits t
      have htCall : (if (s.threads t).tCall = some c then none else (s.threads t).tCall) = none := by
        by_cases hsame : (s.threads t).tCall = some c
        · rw [if_pos hsame]
        · rw [if_neg hsame]
          cases hcall : (s.threads t).tCall with
          | none => rfl
          | some d =>
            rw [hcall, ← hfits.tCall d hcall, hticket] at hsame
            exact absurd rfl hsame
      dsimp only
      rw [htCall]
      refine h.setThread ⟨nofun, ?_, nofun, ?_, nofun, hfits.waited⟩ ?_ ?_
      · exact hfits.ticket
      · rintro d (hd | hd)
        · cases hd
          exact ⟨hticket, rfl⟩
        · exact absurd hd nofun
      · exact fun d hd => hd
      · exact fun u _ hu => (h.fits u).locked hu
  | markCallRunsEmulation =>
    unfold CallGate.begin
    cases hcall : (s.threads t).tCall with
    | none => exact h
    | some c =>
      dsimp only
      by_cases hmarked : s.runsEmulation c = true
      · rw [if_pos hmarked]
        exact h
      · rw [if_neg hmarked]
        have hrunning := (h.fits t).ticket c ((h.fits t).tCall c hcall)
        have hset : Sound (s.setCall c fun call => { call with runsEmulation := true }) :=
          h.setCall hrunning fun _ => rfl
        exact hset.goto nofun nofun nofun
  | cancel requestId => exact h.goto nofun nofun nofun
  | getRunning => exact h.goto nofun nofun nofun

theorem lock (h : Sound s) {t : Nat} {pc : Pc} (hfree : s.mutex = none)
    (hpc : withLock s (s.threads t).pc = some pc) :
    Sound { s.goto t pc with mutex := some t } := by
  have hfits := h.fits t
  have hnobody : ∀ u, (s.threads u).pc.locked ≠ true := by
    intro u hu
    exact absurd (hfree.symm.trans ((h.fits u).locked hu)) nofun
  refine h.setThread ?_ (fun _ hc => hc) fun u _ hu => absurd hu (hnobody u)
  refine ⟨fun _ => rfl, hfits.ticket, hfits.tCall, ?_, ?_, hfits.waited⟩
  · intro c hc
    apply hfits.release c
    cases hbefore : (s.threads t).pc with
    | releaseLock d =>
      rw [hbefore] at hpc
      cases hpc
      exact hc.elim nofun fun hd => .inl (by cases hd; rfl)
    | enterLock _ | woken _ _ | markLock | cancelLock _ | describeLock =>
      rw [hbefore] at hpc
      cases hpc
      exact hc.elim nofun nofun
    | _ =>
      rw [hbefore] at hpc
      cases hpc
  · intro requestId found hcancel
    cases hbefore : (s.threads t).pc with
    | cancelLock requestId =>
      rw [hbefore] at hpc
      cases hpc
      cases hcancel
      rfl
    | enterLock _ | woken _ _ | markLock | releaseLock _ | describeLock =>
      rw [hbefore] at hpc
      cases hpc
      exact absurd hcancel nofun
    | _ =>
      rw [hbefore] at hpc
      cases hpc

theorem advance (h : Sound s) {t : Nat} {s' : State} (hok : Awaited s (.advance t))
    (hstep : CallGate.advance s t (s.threads t).pc = some s') : Sound s' := by
  have hfits := h.fits t
  cases hpc : (s.threads t).pc with
  | enterClock request =>
    rw [hpc] at hstep
    cases hstep
    exact h.goto (fun _ => hpc ▸ rfl) nofun nofun
  | enterCheck request deadline =>
    have hlocked : (s.threads t).pc.locked = true := hpc ▸ rfl
    rw [hpc] at hstep
    dsimp only [CallGate.advance] at hstep
    cases hrunning : s.running with
    | none =>
      rw [hrunning] at hstep
      cases hstep
      exact h.letIn hrunning hlocked
    | some c =>
      rw [hrunning] at hstep
      dsimp only at hstep
      by_cases hmarked : s.runsEmulation c = true
      · rw [if_pos hmarked] at hstep
        cases hstep
        exact h.refuse hlocked
      · rw [if_neg hmarked] at hstep
        cases hstep
        exact h.goto (fun _ => hlocked) nofun nofun
  | enterTime request deadline =>
    have hlocked : (s.threads t).pc.locked = true := hpc ▸ rfl
    rw [hpc] at hstep
    dsimp only [CallGate.advance] at hstep
    by_cases hover : deadline ≤ s.clock
    · rw [if_pos hover] at hstep
      cases hstep
      exact h.refuse hlocked
    · rw [if_neg hover] at hstep
      cases hstep
      refine h.setThread ⟨nofun, hfits.ticket, hfits.tCall, nofun, nofun, ?_⟩ (fun _ hc => hc) ?_
      · intro a ha
        obtain hrunning | ha := List.mem_append.1 ha
        · have hrun := Option.mem_toList.1 hrunning
          exact ⟨h.running a hrun, .inl hrun⟩
        · exact hfits.waited a ha
      · exact fun u hne hu => absurd ((h.not_locked hlocked hne).symm.trans hu) nofun
  | releaseReset c =>
    rw [hpc] at hstep
    cases hstep
    exact h.reset hpc (hok c hpc)
  | cancelStore requestId found =>
    have hlocked : (s.threads t).pc.locked = true := hpc ▸ rfl
    rw [hpc] at hstep
    dsimp only [CallGate.advance] at hstep
    cases hrunning : s.running with
    | none =>
      rw [hrunning] at hstep
      cases hstep
      exact h.goto (fun _ => hlocked) nofun nofun
    | some c =>
      rw [hrunning] at hstep
      dsimp only at hstep
      by_cases hcancels : s.cancels requestId c = true
      · rw [if_pos hcancels] at hstep
        cases hstep
        have hset : Sound (s.setCall c fun call => { call with cancelled := true }) :=
          h.setCall hrunning fun _ => rfl
        exact hset.goto (fun _ => hlocked) nofun nofun
      · rw [if_neg hcancels] at hstep
        cases hstep
        exact h.goto (fun _ => hlocked) nofun nofun
  | describe =>
    rw [hpc] at hstep
    cases hstep
    refine h.setThread ⟨fun _ => hfits.locked (hpc ▸ rfl), hfits.ticket, hfits.tCall, nofun, nofun,
      hfits.waited⟩ (fun _ hc => hc) fun u _ hu => (h.fits u).locked hu
  | unlock notify =>
    have hlocked : (s.threads t).pc.locked = true := hpc ▸ rfl
    rw [hpc] at hstep
    cases hstep
    have hother : ∀ u ≠ t, (s.threads u).pc.locked = true → none = some u :=
      fun u hne hu => absurd ((h.not_locked hlocked hne).symm.trans hu) nofun
    cases notify with
    | true =>
      exact h.setThread ⟨nofun, hfits.ticket, hfits.tCall, nofun, nofun, hfits.waited⟩
        (fun _ hc => hc) hother
    | false =>
      exact h.setThread ⟨nofun, hfits.ticket, hfits.tCall, nofun, nofun, hfits.waited⟩
        (fun _ hc => hc) hother
  | notify =>
    rw [hpc] at hstep
    cases hstep
    have hdone : Sound (s.goto t .outside) := h.goto nofun nofun nofun
    exact hdone.notifyAll
  | _ =>
    rw [hpc] at hstep
    cases hstep

theorem step (h : Sound s) {a : Action} {s' : State} (hok : Awaited s a)
    (hstep : CallGate.step s a = some s') : Sound s' := by
  cases a with
  | tick d =>
    cases hstep
    refine ⟨fun t => ?_, h.oneTicket, h.running, h.refused⟩
    obtain ⟨hlocked, hticket, htCall, hrelease, hcancel, hwaited⟩ := h.fits t
    exact ⟨hlocked, hticket, htCall, hrelease, hcancel, hwaited⟩
  | begin t operation =>
    dsimp only [CallGate.step] at hstep
    by_cases hpc : (s.threads t).pc = .outside
    · rw [if_pos hpc] at hstep
      cases hstep
      exact h.begin t operation
    · rw [if_neg hpc] at hstep
      cases hstep
  | lock t =>
    dsimp only [CallGate.step] at hstep
    by_cases hfree : s.mutex = none
    · rw [if_pos hfree] at hstep
      obtain ⟨pc, hpc, hs'⟩ := Option.map_eq_some_iff.1 hstep
      rw [← hs']
      exact h.lock hfree hpc
    · rw [if_neg hfree] at hstep
      cases hstep
  | advance t => exact h.advance hok hstep
  | wake t =>
    dsimp only [CallGate.step] at hstep
    split at hstep
    · cases hstep
      exact h.goto nofun nofun nofun
    · cases hstep

theorem of_init (hinit : gate.init s) : Sound s := by
  obtain ⟨-, hrunning, hcalls, hthreads⟩ := hinit
  refine ⟨fun t => ?_, fun t u c d ht _ => ?_, fun c hc => ?_, fun c call a hcall _ => ?_⟩
  · rw [hthreads t]
    exact ⟨nofun, nofun, nofun, nofun, nofun, nofun⟩
  · rw [hthreads t] at ht
    exact absurd ht nofun
  · exact absurd (hrunning.symm.trans hc) nofun
  · rw [hcalls] at hcall
    exact absurd hcall nofun

end Sound

theorem sound {s : State} (h : gate.ReachableBy Awaited s) : Sound s :=
  h.invariant (fun _ => .of_init) fun _ _ _ hs hok hstep => hs.step hok hstep

/-! ### Cancelling -/

theorem cancelled_setCall (s : State) (c d : Nat) {f : Call → Call}
    (hf : ∀ call, (f call).cancelled = call.cancelled) :
    (s.setCall d f).cancelled c = s.cancelled c := by
  unfold State.cancelled
  rw [getElem?_setCall]
  split
  · cases s.calls[c]? with
    | none => rfl
    | some call => exact hf call
  · rfl

theorem cancelled_setCall_ne (s : State) {c d : Nat} (f : Call → Call) (hdc : d ≠ c) :
    (s.setCall d f).cancelled c = s.cancelled c := by
  unfold State.cancelled
  rw [getElem?_setCall, if_neg hdc]

theorem cancelled_letIn (s : State) (t c : Nat) (request : Request) :
    (s.letIn t request).cancelled c = s.cancelled c := by
  unfold State.cancelled State.letIn
  dsimp only
  by_cases hlt : c < s.calls.length
  · rw [List.getElem?_append_left hlt]
  · have hnone : s.calls[c]? = none := List.getElem?_eq_none (by omega)
    rw [List.getElem?_append_right (by omega), hnone]
    cases c - s.calls.length
    all_goals rfl

theorem cancelled_begin (s : State) (t c : Nat) (operation : Operation) :
    (begin s t operation).cancelled c = s.cancelled c := by
  cases operation with
  | release =>
    unfold begin
    cases (s.threads t).ticket
    all_goals rfl
  | markCallRunsEmulation =>
    unfold begin
    cases (s.threads t).tCall with
    | none => rfl
    | some d =>
      dsimp only
      split
      · rfl
      · exact cancelled_setCall s c d fun _ => rfl
  | _ => rfl

theorem cancelled_advance {s s' : State} {t c : Nat}
    (hstep : advance s t (s.threads t).pc = some s') (hbefore : s.cancelled c = false)
    (hafter : s'.cancelled c = true) :
    s.running = some c ∧ ∃ requestId found, (s.threads t).pc = .cancelStore requestId found := by
  have hsame : s'.cancelled c ≠ s.cancelled c := by
    rw [hbefore, hafter]
    exact nofun
  cases hpc : (s.threads t).pc with
  | cancelStore requestId found =>
    rw [hpc] at hstep
    dsimp only [advance] at hstep
    refine ⟨?_, requestId, found, rfl⟩
    cases hrunning : s.running with
    | none =>
      rw [hrunning] at hstep
      cases hstep
      exact absurd rfl hsame
    | some d =>
      rw [hrunning] at hstep
      dsimp only at hstep
      split at hstep
      · cases hstep
        by_contra hne
        exact hsame (cancelled_setCall_ne s _ fun hdc => hne (congrArg some hdc))
      · cases hstep
        exact absurd rfl hsame
  | enterCheck request deadline =>
    rw [hpc] at hstep
    dsimp only [advance] at hstep
    split at hstep
    · cases hstep
      exact absurd (cancelled_letIn s t c request) hsame
    · split at hstep
      all_goals
        cases hstep
        exact absurd rfl hsame
  | enterTime request deadline =>
    rw [hpc] at hstep
    dsimp only [advance] at hstep
    split at hstep
    all_goals
      cases hstep
      exact absurd rfl hsame
  | enterClock _ | releaseReset _ | describe | unlock _ | notify =>
    rw [hpc] at hstep
    cases hstep
    exact absurd rfl hsame
  | _ =>
    rw [hpc] at hstep
    cases hstep

theorem Sound.cancelMarksRunning {s : State} (h : Sound s) : CancelMarksRunning s := by
  intro a s' c hstep hbefore hafter
  have hsame : s'.cancelled c ≠ s.cancelled c := by
    rw [hbefore, hafter]
    exact nofun
  cases a with
  | tick d =>
    cases hstep
    exact absurd rfl hsame
  | begin t operation =>
    dsimp only [CallGate.step] at hstep
    split at hstep
    · cases hstep
      exact absurd (cancelled_begin s t c operation) hsame
    · cases hstep
  | lock t =>
    dsimp only [CallGate.step] at hstep
    split at hstep
    · obtain ⟨pc, -, hs'⟩ := Option.map_eq_some_iff.1 hstep
      rw [← hs'] at hsame
      exact absurd rfl hsame
    · cases hstep
  | advance t =>
    obtain ⟨hrunning, requestId, found, hpc⟩ := cancelled_advance hstep hbefore hafter
    refine ⟨t, requestId, rfl, ?_⟩
    rw [hpc, ← (h.fits t).cancel requestId found hpc, hrunning]
  | wake t =>
    dsimp only [CallGate.step] at hstep
    split at hstep
    · cases hstep
      exact absurd rfl hsame
    · cases hstep

/-- The law of the gate. -/
theorem gate_law {s : State} (h : gate.ReachableBy Awaited s) : Law s :=
  ⟨(sound h).oneTicket, (sound h).cancelMarksRunning,
    fun c call a hcall ha => ((sound h).refused c call a hcall ha).2.2⟩

/-! ### A waiting call that does not look in time -/

def idle : State := ⟨none, none, [], 0, fun _ => ⟨.outside, none, none, none, []⟩⟩

/-- The second call waits for the first, which a third thread cancels. The first marks itself, and the
    second looks and is refused before the first begins to end. -/
def looked : List Action :=
  [.begin 0 (.enter ⟨"hold", "1", 60000⟩), .lock 0, .advance 0, .advance 0, .advance 0,
    .begin 1 (.enter ⟨"next", "2", 60000⟩), .lock 1, .advance 1, .advance 1, .advance 1,
    .begin 2 (.cancel (some "1")), .lock 2, .advance 2, .advance 2,
    .begin 0 .markCallRunsEmulation, .lock 0, .advance 0, .advance 0, .lock 1, .advance 1,
    .advance 1, .begin 0 .release, .lock 0]

/-- No call ends. -/
def endsNone (s : State) : Action → Bool
  | .advance t =>
    match (s.threads t).pc with
    | .releaseReset _ => false
    | _ => true
  | _ => true

theorem awaited_of_endsNone (s : State) (a : Action) (h : endsNone s a = true) : Awaited s a := by
  cases a with
  | advance t =>
    intro c hpc
    dsimp only [endsNone] at h
    rw [hpc] at h
    cases h
  | _ => trivial

/-- After the first call, marked and cancelled, has ended, with the waiting one refused. -/
theorem gate_law_looked : ∃ s, gate.ReachableBy Awaited s ∧ s.running = none ∧
    s.calls = [⟨"hold", "1", 0, true, true, []⟩] ∧
    (s.threads 1).described = some ⟨"hold", 0, true, true⟩ ∧ Law s := by
  have hrun : (gate.runIf endsNone idle looked).map (fun s =>
      ((s.threads 0).pc, s.running, s.calls, (s.threads 1).described)) =
        some (.releaseReset 0, some 0, [⟨"hold", "1", 0, true, true, []⟩],
          some ⟨"hold", 0, true, true⟩) := by decide +kernel
  have hwaiting : ∀ u, (gate.runIf endsNone idle looked).map (fun s =>
      (s.threads u).waitedFor) = some [] := by
    intro u
    rcases u with _ | _ | _ | n
    all_goals rfl
  obtain ⟨s, hs, hfacts⟩ := Option.map_eq_some_iff.1 hrun
  rw [hs] at hwaiting
  simp only [Prod.mk.injEq] at hfacts
  obtain ⟨hpc, hrunning, hcalls, hdescribed⟩ := hfacts
  have hinit : gate.ReachableBy Awaited idle := .init ⟨rfl, rfl, rfl, fun _ => rfl⟩
  have hreach := hinit.runIf awaited_of_endsNone hs
  have hawaited : Awaited s (.advance 0) := by
    intro c _ _ u
    have hnone : (s.threads u).waitedFor = [] := Option.some.inj (hwaiting u)
    rw [hnone]
    exact List.not_mem_nil
  have hstep : gate.step s (.advance 0) = advance s 0 (.releaseReset 0) :=
    congrArg (advance s 0) hpc
  have hnext := hreach.step hawaited hstep
  refine ⟨_, hnext, ?_, hcalls, ?_, gate_law hnext⟩
  · exact if_pos hrunning
  · exact hdescribed

/-- The second call waits for the first, which marks itself, notifies and is released before the
    second has the lock again. -/
def overtaken : List Action :=
  [.begin 0 (.enter ⟨"hold", "1", 60000⟩), .lock 0, .advance 0, .advance 0, .advance 0,
    .begin 1 (.enter ⟨"next", "2", 60000⟩), .lock 1, .advance 1, .advance 1, .advance 1,
    .begin 0 .markCallRunsEmulation, .lock 0, .advance 0, .advance 0,
    .begin 0 .release, .lock 0, .advance 0,
    .advance 0, .lock 1, .advance 1]

theorem overtaken_not_refused : ¬ ∀ s, gate.Reachable s → Law s := by
  intro hlaw
  obtain ⟨s, hrun⟩ : ∃ s, gate.run idle overtaken = some s :=
    Option.isSome_iff_exists.1 (by decide +kernel)
  have hinit : gate.Reachable idle := .init ⟨rfl, rfl, rfl, fun _ => rfl⟩
  have hcall := System.run_eval hrun (fun s => s.calls[1]?.map (·.waitedFor))
    (show _ = some (some [0]) by decide +kernel)
  have hmarked := System.run_eval hrun (fun s => s.runsEmulation 0)
    (show _ = some true by decide +kernel)
  obtain ⟨call, hget, hwaited⟩ := Option.map_eq_some_iff.1 hcall
  have hrefused := (hlaw s (hinit.run hrun)).waitersRefused 1 call 0 hget (by simp [hwaited])
  exact absurd (hrefused.symm.trans hmarked) nofun

end DolphinXR.CallGate
