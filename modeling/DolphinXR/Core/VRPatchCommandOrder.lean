import DolphinXR.Core.VRPatchCommandEffects

/- What becomes of the commands. Those that are taken and those that are queued are the last ones
   in the order of queueing, without a gap; the ones before them have been applied, in this order,
   or were dropped by a game change, and only they are counted as applied. So nothing is pending
   that is not counted as pending, and where a game has commands there is work.

   The manager is what its changes have made of it, from the first game on: among them are the
   effects of the commands that have been applied, each once, and no other effect of a command.
   `queue_law` puts both together. -/
namespace DolphinXR.VRPatch.Commands
open Lib
variable {Str V : Type} [LinearOrder Str]

inductive Change (Str V : Type) where
  /-- A command, with its place in the order of queueing. -/
  | command (x : Nat × Command Str V) (f : Found Str V)
  | blockReason (f : Found Str V)
  | hooks (frame : Bool) (f : Found Str V)
  /-- A game change drops the commands at these places. -/
  | unload (places : List Nat)
  | load (places : List Nat)

namespace Change

def command? : Change Str V → Option (Nat × Command Str V)
  | command x _ => some x
  | _ => none

def dropped : Change Str V → List Nat
  | unload places => places
  | load places => places
  | _ => []

end Change

section Law
variable (same : V → V → Bool) (hash : Str → Nat) (flagFor : Str → Str)

/-- What a change makes of the manager. -/
def Change.Leads (m m' : Manager Str V) : Change Str V → Prop
  | command x f => Applied same f m m' x.2
  | blockReason f => m' = VRPatch.step same hash flagFor m (.handleBlockReason f.reason f.refresh)
  | hooks frame f => m' = runHooksFound same hash flagFor f frame m
  | unload _ => m' = unloadPatches m
  | load _ => m' = { m with blockReason := none, padSignature := 0 }

inductive History : List (Change Str V) → Manager Str V → Prop where
  | start : History [] initialManager
  | change {changes : List (Change Str V)} {c : Change Str V} {m m' : Manager Str V}
      (h : History changes m) (hc : c.Leads same hash flagFor m m') : History (changes ++ [c]) m'

structure QueueLaw (s : State Str V) : Prop where
  work : s.gameRunning = true → s.commands ≠ [] → s.hasWork = true
  /-- The manager has been changed by the commands that have been applied, in this order. -/
  history : ∃ changes, History same hash flagFor changes s.manager ∧
    changes.filterMap Change.command? = s.applied ∧ changes.flatMap Change.dropped = s.dropped
  ordered : (s.applied.map Prod.fst).Pairwise (· < ·)
  queued : ∀ x ∈ s.applied, s.queued[x.1]? = some x.2
  counted : s.queued.length = s.queuedCommands
  settled : hasPendingChanges s = false →
    ∀ i < s.queued.length, i ∈ s.applied.map Prod.fst ∨ i ∈ s.dropped

end Law

namespace Cpu

def commands : Cpu Str V → List (Nat × Command Str V)
  | apply _ commands _ => commands
  | _ => []

/-- Taken are the commands that come before this place. -/
def taken : Cpu Str V → Option Nat
  | apply _ _ taken => some taken
  | applied _ taken => some taken
  | _ => none

end Cpu

def outstanding (s : State Str V) : List (Nat × Command Str V) := s.cpu.commands ++ s.commands

structure Accounted (s : State Str V) (first : Nat) : Prop where
  count : first + (outstanding s).length = s.queuedCommands
  length : s.queued.length = s.queuedCommands
  places : (outstanding s).map Prod.fst = List.range' first (outstanding s).length
  content : ∀ x ∈ s.applied ++ outstanding s, s.queued[x.1]? = some x.2
  settled : ∀ i < first, i ∈ s.applied.map Prod.fst ∨ i ∈ s.dropped
  ordered : (s.applied.map Prod.fst).Pairwise (· < ·)
  before : ∀ x ∈ s.applied, x.1 < first
  counter : s.appliedCommands ≤ first
  taken : ∀ n, s.cpu.taken = some n → n + s.commands.length = s.queuedCommands
  work : s.gameRunning = true → s.commands ≠ [] → s.hasWork = true

namespace Accounted
variable {s : State Str V} {first : Nat}

theorem settled_of_not_pending (h : Accounted s first) (hpending : hasPendingChanges s = false) :
    ∀ i < s.queued.length, i ∈ s.applied.map Prod.fst ∨ i ∈ s.dropped := by
  intro i hi
  have hcounted : s.queuedCommands ≤ s.appliedCommands :=
    Nat.not_lt.1 (of_decide_eq_false hpending)
  have hcount := h.count
  have hcounter := h.counter
  have hlength := h.length
  exact h.settled i (by omega)

theorem goto (h : Accounted s first) {cpu : Cpu Str V} (hcommands : cpu.commands = s.cpu.commands)
    (htaken : ∀ n, cpu.taken = some n → s.cpu.taken = some n) (manager : Manager Str V) :
    Accounted { s with manager, cpu } first := by
  have hsame : outstanding { s with manager, cpu } = outstanding s :=
    congrArg (· ++ s.commands) hcommands
  refine ⟨?_, h.length, ?_, ?_, h.settled, h.ordered, h.before, h.counter,
    fun n hn => h.taken n (htaken n hn), h.work⟩
  · rw [hsame]
    exact h.count
  · rw [hsame]
    exact h.places
  · rw [hsame]
    exact h.content

theorem queue (h : Accounted s first) (command : Command Str V) :
    Accounted (Commands.queue command s) first := by
  unfold Commands.queue
  split
  · have hout : s.cpu.commands ++ (s.commands ++ [(s.queuedCommands, command)]) =
        outstanding s ++ [(s.queuedCommands, command)] := (List.append_assoc ..).symm
    have hcount := h.count
    have hlength := h.length
    refine ⟨?_, ?_, ?_, fun x hx => ?_, h.settled, h.ordered, h.before, h.counter, fun n hn => ?_,
      fun _ _ => rfl⟩
    · unfold outstanding
      rw [hout, List.length_append]
      exact (Nat.add_assoc ..).symm.trans (congrArg (· + 1) hcount)
    · exact (List.length_append ..).trans (congrArg (· + 1) hlength)
    · unfold outstanding
      rw [hout, List.map_append, List.length_append, h.places, List.length_singleton,
        List.range'_concat, Nat.one_mul, hcount]
      rfl
    · unfold outstanding at hx
      rw [hout, ← List.append_assoc] at hx
      rcases List.mem_append.1 hx with hx | hx
      · have hbefore := h.content x hx
        have hlt := (List.getElem?_eq_some_iff.1 hbefore).1
        exact (List.getElem?_append_left hlt).trans hbefore
      · rw [List.mem_singleton.1 hx]
        dsimp only
        rw [← hlength]
        exact List.getElem?_concat_length
    · have htaken := h.taken n hn
      dsimp only
      rw [List.length_append, List.length_singleton]
      omega
  · exact h

theorem drop (h : Accounted s first) (hcpu : s.cpu.commands = []) {cpu : Cpu Str V}
    (hcommands : cpu.commands = []) (htaken : cpu.taken = none) (manager : Manager Str V)
    (gameId : Option Str) (gameRunning hasWork : Bool) :
    Accounted { Commands.drop s with manager, gameId, gameRunning, hasWork, cpu }
      s.queuedCommands := by
  have hout : outstanding s = s.commands := by
    unfold outstanding
    rw [hcpu, List.nil_append]
  have hnone : cpu.commands ++ ([] : List (Nat × Command Str V)) = [] := by rw [hcommands]; rfl
  have hplaces := h.places
  have hcount := h.count
  rw [hout] at hplaces hcount
  refine ⟨?_, h.length, ?_, fun x hx => ?_, fun i hi => ?_, h.ordered, fun x hx => ?_, Nat.le_refl _,
    fun n hn => absurd (htaken.symm.trans hn) nofun, fun _ hne => absurd rfl hne⟩
  · unfold outstanding
    dsimp only [Commands.drop]
    rw [hnone]
    rfl
  · unfold outstanding
    dsimp only [Commands.drop]
    rw [hnone]
    rfl
  · unfold outstanding at hx
    dsimp only [Commands.drop] at hx
    rw [hnone, List.append_nil] at hx
    exact h.content x (List.mem_append_left _ hx)
  · by_cases hlt : i < first
    · exact (h.settled i hlt).imp_right (List.mem_append_left _)
    · refine .inr (List.mem_append_right _ ?_)
      rw [hplaces, List.mem_range'_1]
      omega
  · have hlt := h.before x hx
    omega

theorem take (h : Accounted s first) (hcpu : s.cpu.commands = []) (frame : Bool) :
    Accounted { s with
      commands := []
      cpu :=
        if s.commands.isEmpty then .hooks frame else .apply frame s.commands s.queuedCommands }
      first := by
  have hout : outstanding s = s.commands := by
    unfold outstanding
    rw [hcpu, List.nil_append]
  have hplaces := h.places
  have hcount := h.count
  have hcontent := h.content
  rw [hout] at hplaces hcount hcontent
  cases hempty : s.commands.isEmpty with
  | true =>
    rw [List.isEmpty_iff.1 hempty] at hplaces hcount hcontent
    rw [if_pos rfl]
    exact ⟨hcount, h.length, hplaces, hcontent, h.settled, h.ordered, h.before, h.counter, nofun,
      fun _ hne => absurd rfl hne⟩
  | false =>
    rw [if_neg nofun]
    have hsame : outstanding { s with
        commands := []
        cpu := .apply frame s.commands s.queuedCommands } = s.commands := List.append_nil _
    refine ⟨?_, h.length, ?_, ?_, h.settled, h.ordered, h.before, h.counter, fun n hn => ?_,
      fun _ hne => absurd rfl hne⟩
    · rw [hsame]
      exact hcount
    · rw [hsame]
      exact hplaces
    · rw [hsame]
      exact hcontent
    · cases hn
      rfl

theorem apply (h : Accounted s first) {frame : Bool} {x : Nat × Command Str V}
    {rest : List (Nat × Command Str V)} {taken : Nat} (hcpu : s.cpu = .apply frame (x :: rest) taken)
    (manager : Manager Str V) :
    Accounted { s with manager, cpu := .apply frame rest taken, applied := s.applied ++ [x] }
      (first + 1) := by
  have hout : outstanding s = x :: (rest ++ s.commands) := by
    unfold outstanding
    rw [hcpu]
    rfl
  have hplaces := h.places
  have hcount := h.count
  have hcontent := h.content
  rw [hout] at hplaces hcount hcontent
  rw [List.length_cons] at hcount
  rw [List.map_cons, List.length_cons, List.range'_succ] at hplaces
  obtain ⟨hfirst, hrest⟩ := List.cons.inj hplaces
  have hplace : ∀ y ∈ s.applied.map Prod.fst, y < first := by
    intro y hy
    obtain ⟨z, hz, rfl⟩ := List.mem_map.1 hy
    exact h.before z hz
  refine ⟨?_, h.length, hrest, fun y hy => ?_, fun i hi => ?_, ?_, fun y hy => ?_, ?_,
    fun n hn => ?_, h.work⟩
  · unfold outstanding
    exact (Nat.add_right_comm ..).trans hcount
  · apply hcontent
    simp only [outstanding, Cpu.commands, List.append_assoc, List.singleton_append] at hy
    exact hy
  · rw [List.map_append, List.mem_append]
    by_cases hlt : i < first
    · exact (h.settled i hlt).imp_left .inl
    · have heq : i = x.1 := by omega
      exact .inl (.inr (heq ▸ List.mem_singleton_self _))
  · rw [List.map_append, List.pairwise_append]
    refine ⟨h.ordered, List.pairwise_singleton .., fun y hy z hz => ?_⟩
    rw [List.mem_singleton.1 hz, hfirst]
    exact hplace y hy
  · rcases List.mem_append.1 hy with hy | hy
    · have hlt := h.before y hy
      omega
    · rw [List.mem_singleton.1 hy]
      omega
  · have hle := h.counter
    dsimp only
    omega
  · apply h.taken n
    rw [hcpu]
    exact hn

theorem countApplied (h : Accounted s first) {frame : Bool} {taken : Nat}
    (hcpu : s.cpu = .applied frame taken) :
    Accounted { s with appliedCommands := max s.appliedCommands taken, cpu := .hooks frame }
      first := by
  have hout : outstanding s = s.commands := by
    unfold outstanding
    rw [hcpu]
    rfl
  have htaken := h.taken taken (by rw [hcpu]; rfl)
  have hcount := h.count
  have hplaces := h.places
  have hcontent := h.content
  rw [hout] at hcount hplaces hcontent
  refine ⟨hcount, h.length, hplaces, hcontent, h.settled, h.ordered, h.before, ?_, nofun, h.work⟩
  have hcounter := h.counter
  dsimp only
  omega

theorem finish (h : Accounted s first) (hcpu : s.cpu.commands = []) :
    Accounted { s with
      hasWork := !s.manager.patches.isEmpty || !s.commands.isEmpty
      cpu := .idle } first := by
  have hcommands : (Cpu.idle : Cpu Str V).commands = s.cpu.commands := hcpu.symm
  have hidle := h.goto hcommands nofun s.manager
  refine ⟨hidle.count, hidle.length, hidle.places, hidle.content, hidle.settled, hidle.ordered,
    hidle.before, hidle.counter, nofun, fun _ hne => ?_⟩
  cases hcommands : s.commands with
  | nil => exact absurd hcommands hne
  | cons x rest => exact Bool.or_true _

variable {same : V → V → Bool} {hash : Str → Nat} {flagFor : Str → Str}

theorem gotoFree (h : Accounted s first) (hcpu : s.cpu.commands = []) {cpu : Cpu Str V}
    (hcommands : cpu.commands = []) (htaken : cpu.taken = none) (manager : Manager Str V) :
    Accounted { s with manager, cpu } first :=
  h.goto (hcommands.trans hcpu.symm) (fun _ hn => absurd (htaken.symm.trans hn) nofun) manager

theorem cpu_queue (command : Command Str V) (s : State Str V) :
    (Commands.queue command s).cpu = s.cpu := by
  unfold Commands.queue
  split
  all_goals rfl

theorem advance (h : Accounted s first) (f : Found Str V) :
    ∃ next, Accounted (Commands.advance same hash flagFor f s) next := by
  unfold Commands.advance
  split
  case h_1 => exact ⟨first, h⟩
  case h_2 hcpu =>
    refine ⟨first, h.gotoFree (by rw [hcpu]; rfl) ?_ ?_ _⟩
    all_goals
      split
      all_goals rfl
  case h_3 hcpu =>
    have hqueued := h.queue (.syncAll true)
    exact ⟨first, hqueued.gotoFree (by rw [cpu_queue, hcpu]; rfl) rfl rfl _⟩
  case h_4 frame hcpu => exact ⟨first, h.take (by rw [hcpu]; rfl) frame⟩
  case h_5 frame taken hcpu =>
    refine ⟨first, h.goto (by rw [hcpu]; rfl) (fun n hn => ?_) s.manager⟩
    rw [hcpu]
    exact hn
  case h_6 frame x rest taken hcpu => exact ⟨first + 1, h.apply hcpu _⟩
  case h_7 frame taken hcpu => exact ⟨first, h.countApplied hcpu⟩
  case h_8 frame hcpu => exact ⟨first, h.gotoFree (by rw [hcpu]; rfl) rfl rfl _⟩
  case h_9 hcpu => exact ⟨first, h.finish (by rw [hcpu]; rfl)⟩
  case h_10 next hcpu =>
    refine ⟨_, h.drop (by rw [hcpu]; rfl) ?_ ?_ _ _ _ _⟩
    all_goals
      cases next
      all_goals rfl
  case h_11 game hcpu =>
    refine ⟨_, h.drop (by rw [hcpu]; rfl) ?_ ?_ _ _ _ _⟩
    all_goals
      cases game
      all_goals rfl
  case h_12 hcpu =>
    have hqueued := h.queue (.syncAll true)
    exact ⟨first, hqueued.gotoFree (by rw [cpu_queue, hcpu]; rfl) rfl rfl _⟩

theorem step (h : Accounted s first) {a : Action Str V} {s' : State Str V}
    (hstep : Commands.step same hash flagFor s a = some s') : ∃ next, Accounted s' next := by
  unfold Commands.step at hstep
  split at hstep
  · cases hstep
    exact ⟨first, h.queue _⟩
  · cases hstep
    exact h.advance _
  · split at hstep
    next hcpu =>
      have hfree : s.cpu.commands = [] := by rw [hcpu]; rfl
      split at hstep
      · cases hstep
        split
        · exact ⟨first, h.gotoFree hfree rfl rfl _⟩
        · exact ⟨first, h⟩
      · cases hstep
        split
        · exact ⟨first, h.gotoFree hfree rfl rfl _⟩
        · exact ⟨first, h⟩
      · cases hstep
        refine ⟨first, h.gotoFree hfree ?_ ?_ _⟩
        all_goals
          split
          all_goals rfl
      · cases hstep
        exact ⟨first, h.gotoFree hfree rfl rfl _⟩
    · cases hstep

end Accounted

/-! ### What has changed the manager -/

section Recorded
variable (same : V → V → Bool) (hash : Str → Nat) (flagFor : Str → Str)

/-- The changes of the manager are known, with the commands among them. -/
structure Recorded (s : State Str V) : Prop where
  one : OnePerId s.manager
  history : ∃ changes, History same hash flagFor changes s.manager ∧
    changes.filterMap Change.command? = s.applied ∧ changes.flatMap Change.dropped = s.dropped

namespace Recorded
variable {same} {hash} {flagFor} {s s' : State Str V}

theorem stay (h : Recorded same hash flagFor s) (hmanager : s'.manager = s.manager)
    (happlied : s'.applied = s.applied) (hdropped : s'.dropped = s.dropped) :
    Recorded same hash flagFor s' := by
  obtain ⟨hone, hhistory⟩ := h
  rw [← hmanager] at hone
  rw [← hmanager, ← happlied, ← hdropped] at hhistory
  exact ⟨hone, hhistory⟩

theorem change (h : Recorded same hash flagFor s) (c : Change Str V)
    (hc : c.Leads same hash flagFor s.manager s'.manager) (hone : OnePerId s'.manager)
    (happlied : s'.applied = s.applied ++ c.command?.toList)
    (hdropped : s'.dropped = s.dropped ++ c.dropped) : Recorded same hash flagFor s' := by
  obtain ⟨changes, hhistory, hcommands, hdrops⟩ := h.history
  refine ⟨hone, changes ++ [c], hhistory.change hc, ?_, ?_⟩
  · rw [List.filterMap_append, hcommands, happlied]
    cases hcommand : c.command? with
    | none => simp [hcommand]
    | some x => simp [hcommand]
  · rw [List.flatMap_append, hdrops, hdropped, List.flatMap_singleton]

theorem queue (h : Recorded same hash flagFor s) (command : Command Str V) :
    Recorded same hash flagFor (Commands.queue command s) := by
  unfold Commands.queue
  split
  · exact h.stay rfl rfl rfl
  · exact h

theorem advance (h : Recorded same hash flagFor s) (f : Found Str V) :
    Recorded same hash flagFor (Commands.advance same hash flagFor f s) := by
  unfold Commands.advance
  split
  case h_1 => exact h
  case h_2 =>
    refine h.change (.blockReason f) rfl ?_ (List.append_nil _).symm (List.append_nil _).symm
    exact h.one.step same hash flagFor _ (ids_handleBlockReason same _ _ _)
  case h_3 => exact (h.queue (.syncAll true)).stay rfl rfl rfl
  case h_4 => exact h.stay rfl rfl rfl
  case h_5 => exact h.stay rfl rfl rfl
  case h_6 frame x rest taken hcpu =>
    have heffect := @applyCommand_applied _ _ _ same f _ h.one x.2
    exact h.change (.command x f) heffect.1 heffect.2 rfl (List.append_nil _).symm
  case h_7 => exact h.stay rfl rfl rfl
  case h_8 frame hcpu =>
    refine h.change (.hooks frame f) rfl ?_ (List.append_nil _).symm (List.append_nil _).symm
    exact OnePerId.runHooksFound h.one hash flagFor frame
  case h_9 => exact h.stay rfl rfl rfl
  case h_10 next hcpu =>
    exact h.change (.unload (s.commands.map Prod.fst)) rfl List.nodup_nil
      (List.append_nil _).symm rfl
  case h_11 game hcpu =>
    exact h.change (.load (s.commands.map Prod.fst)) rfl h.one (List.append_nil _).symm rfl
  case h_12 => exact (h.queue (.syncAll true)).stay rfl rfl rfl

theorem step (h : Recorded same hash flagFor s) {a : Action Str V}
    (hstep : Commands.step same hash flagFor s a = some s') : Recorded same hash flagFor s' := by
  unfold Commands.step at hstep
  split at hstep
  · cases hstep
    exact h.queue _
  · cases hstep
    exact h.advance _
  · split at hstep
    · split at hstep
      · cases hstep
        split
        · exact h.stay rfl rfl rfl
        · exact h
      · cases hstep
        split
        · exact h.stay rfl rfl rfl
        · exact h
      · cases hstep
        exact h.stay rfl rfl rfl
      · cases hstep
        exact h.stay rfl rfl rfl
    · cases hstep

end Recorded
end Recorded

/-- Patch 5 is enabled, has a script that loads, and raises a flag for a setting. -/
def onePatch : Found Nat Nat :=
  ⟨none, ⟨true, fun _ => true, false⟩, [5], fun _ => ⟨true, 7⟩,
    fun _ => some ⟨fun _ => false, false, []⟩, fun _ name value => [.setFlag name (value == 1)],
    false, fun _ _ => ([], true)⟩

/-- A game is loaded, and a frame starts its patch. Two settings are queued before the next frame,
    and a third one while it applies them, which the game change drops. -/
def twoFrames : List (Action Nat Nat) :=
  List.flatten [
    [.onGameLoaded (some 1), .advance onePatch, .advance onePatch, .runFrame],
    List.replicate 7 (.advance onePatch),
    [.queue (.setting 5 8 1), .queue (.setting 5 9 1), .runFrame, .advance onePatch,
      .advance onePatch, .advance onePatch, .queue (.setting 5 8 0)],
    List.replicate 5 (.advance onePatch), [.onGameUnloaded, .advance onePatch]]

/-- Before the game goes, both flags are raised, and the third setting is pending. -/
example : ((commandSystem (· == ·) id id).run
      ⟨initialManager, none, false, [], 0, 0, false, .idle, [], [], []⟩ (twoFrames.take 23)).map
    (fun s => (decide (s.manager.published = {8, 9}), hasPendingChanges s)) =
      some (true, true) := by decide +kernel

end DolphinXR.VRPatch.Commands
