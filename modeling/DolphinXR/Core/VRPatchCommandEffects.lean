import DolphinXR.Core.VRPatchCommands

/- What a command does to the running patches, said without the steps that do it: a patch that is to
   run from its source runs from it, as it did before or started anew, one that is not to run is
   gone, all others are left alone. As there is never more than one patch of an id, this is what
   `ApplyCommands` does with each command. -/
namespace DolphinXR.VRPatch
open Lib
variable {Str V : Type} [LinearOrder Str]

def OnePerId (m : Manager Str V) : Prop := (m.patches.map (·.id)).Nodup

def without (m : Manager Str V) (id : Str) : Manager Str V :=
  { m with patches := m.patches.filter fun p => decide (p.id ≠ id) }

def RunsFrom (source id : Str) (p : RunningPatch Str V) : Prop :=
  p.id = id ∧ p.state = .running ∧ p.source = source

namespace Commands
variable (same : V → V → Bool) (f : Found Str V)

/-- A patch that has just been started: a new script object has made the calls of its top level. -/
structure Started (m : Manager Str V) (id : Str) (p : RunningPatch Str V) : Prop where
  unblocked : m.blockReason = none
  runs : RunsFrom (f.choice id).source id p
  script : ∃ l, f.loaded id = some l ∧
    p.script = some (Script.calls same ⟨m.nextObject, l.hooks, .empty, 0, ∅, 0, false⟩ l.calls)
  needsOnLoad : p.needsOnLoad = true

structure Synced (reload : Bool) (m : Manager Str V) (id : Str) (m' : Manager Str V) : Prop where
  others : m'.patches.filter (fun p => decide (p.id ≠ id)) =
    m.patches.filter fun p => decide (p.id ≠ id)
  disabled : (f.choice id).enabled = false → ∀ p ∈ m'.patches, p.id ≠ id
  kept : (f.choice id).enabled = true → reload = false →
    (∃ p ∈ m.patches, RunsFrom (f.choice id).source id p) → m'.patches = m.patches
  restarted : (f.choice id).enabled = true →
    (reload = true ∨ ∀ p ∈ m.patches, ¬ RunsFrom (f.choice id).source id p) →
    (∀ p ∈ m'.patches, p.id = id → Started same f m id p) ∧
      (m.blockReason = none → (f.loaded id).isSome → ∃ p ∈ m'.patches, p.id = id)
  frame : { m' with patches := m.patches, nextObject := m.nextObject } = m

def SyncedAll (reload : Bool) : List Str → Manager Str V → Manager Str V → Prop
  | [], m, m' => m' = m
  | id :: rest, m, m' => ∃ next, Synced same f reload m id next ∧ SyncedAll reload rest next m'

structure Told (id name : Str) (value : V) (p p' : RunningPatch Str V) : Prop where
  own : p.id = id → p.state = .running → p.needsOnLoad = false →
    p' = { p with script := p.script.map (·.calls same (f.calls id name value)) }
  other : ¬ (p.id = id ∧ p.state = .running ∧ p.needsOnLoad = false) → p' = p

def Applied (m m' : Manager Str V) : Command Str V → Prop
  | .sync id reload => Synced same f reload m id m'
  | .syncAll reload => SyncedAll same f reload f.ids m m'
  | .setting id name value =>
    List.Forall₂ (Told same f id name value) m.patches m'.patches ∧
      { m' with patches := m.patches } = m

end Commands

section Ids
variable {m : Manager Str V}

theorem eraseP_id {patches : List (RunningPatch Str V)} (h : (patches.map (·.id)).Nodup)
    (id : Str) : patches.eraseP (fun p => decide (p.id = id)) =
      patches.filter fun p => decide (p.id ≠ id) := by
  induction patches with
  | nil => rfl
  | cons p rest ih =>
    obtain ⟨hnot, hrest⟩ := List.nodup_cons.1 h
    by_cases hid : p.id = id
    · rw [List.eraseP_cons, decide_eq_true hid, cond_true,
        List.filter_cons_of_neg (by simpa using hid)]
      have hother : ∀ q ∈ rest, q.id ≠ id := by
        intro q hq hq'
        exact hnot (List.mem_map.2 ⟨q, hq, hq'.trans hid.symm⟩)
      exact (List.filter_eq_self.2 fun q hq => decide_eq_true (hother q hq)).symm
    · rw [List.eraseP_cons, decide_eq_false hid, cond_false,
        List.filter_cons_of_pos (by simpa using hid), ih hrest]

theorem removePatch_eq (h : OnePerId m) (id : Str) : removePatch m id = without m id := by
  unfold removePatch without
  rw [eraseP_id h]

theorem ne_of_mem_without {id : Str} {p : RunningPatch Str V} (h : p ∈ (without m id).patches) :
    p.id ≠ id :=
  of_decide_eq_true (List.mem_filter.1 h).2

theorem without_of_not_mem {id : Str} (h : ∀ p ∈ m.patches, p.id ≠ id) : without m id = m := by
  unfold without
  rw [List.filter_eq_self.2 fun p hp => decide_eq_true (h p hp)]

theorem OnePerId.sublist (h : OnePerId m) {m' : Manager Str V}
    (hsub : List.Sublist (m'.patches.map (·.id)) (m.patches.map (·.id))) : OnePerId m' :=
  List.Nodup.sublist hsub h

theorem OnePerId.without (h : OnePerId m) (id : Str) : OnePerId (VRPatch.without m id) :=
  h.sublist (List.filter_sublist.map _)

end Ids

/-! ### Following a source -/

section Sync
variable {same : V → V → Bool} {m : Manager Str V} {id source : Str}
  {loaded : Option (LoadedScript Str V)}

theorem startPatch_cases (same : V → V → Bool) (m : Manager Str V) (id source : Str)
    (loaded : Option (LoadedScript Str V)) :
    (startPatch same m id source loaded = m ∧ ¬ (m.blockReason = none ∧ loaded.isSome)) ∨
    ∃ l p, loaded = some l ∧ m.blockReason = none ∧ RunsFrom source id p ∧
      p.script = some (Script.calls same ⟨m.nextObject, l.hooks, .empty, 0, ∅, 0, false⟩ l.calls) ∧
      p.needsOnLoad = true ∧
      startPatch same m id source loaded =
        { m with patches := m.patches ++ [p], nextObject := m.nextObject + 1 } := by
  unfold startPatch
  cases hblock : m.blockReason with
  | some reason => exact .inl ⟨rfl, fun h => nomatch h.1⟩
  | none =>
    cases loaded with
    | none => exact .inl ⟨rfl, fun h => nomatch h.2⟩
    | some l => exact .inr ⟨l, _, rfl, rfl, ⟨rfl, rfl, rfl⟩, rfl, rfl, rfl⟩

variable {reload : Bool} {choice : SourceChoice Str}

theorem syncPatch_disabled (h : OnePerId m) (henabled : choice.enabled = false) :
    syncPatch same m id reload choice loaded = without m id := by
  unfold syncPatch
  rw [henabled]
  exact removePatch_eq h id

theorem syncPatch_kept (h : OnePerId m) (henabled : choice.enabled = true)
    (hreload : reload = false) (hruns : ∃ p ∈ m.patches, RunsFrom choice.source id p) :
    syncPatch same m id reload choice loaded = m := by
  obtain ⟨p, hp, hid, hstate, hsource⟩ := hruns
  unfold syncPatch
  rw [henabled, hreload]
  cases hfind : m.patches.find? fun p => decide (p.id = id) with
  | none => exact absurd (decide_eq_true hid) (List.find?_eq_none.1 hfind p hp)
  | some running =>
    have hrunning : running.id = id := by simpa using List.find?_some hfind
    obtain rfl := List.inj_on_of_nodup_map h (List.mem_of_find?_eq_some hfind) hp
      (hrunning.trans hid.symm)
    simp [hstate, hsource]

theorem syncPatch_restarted (h : OnePerId m) (henabled : choice.enabled = true)
    (hnot : reload = true ∨ ∀ p ∈ m.patches, ¬ RunsFrom choice.source id p) :
    syncPatch same m id reload choice loaded =
      startPatch same (without m id) id choice.source loaded := by
  unfold syncPatch
  rw [henabled]
  cases hfind : m.patches.find? fun p => decide (p.id = id) with
  | none =>
    have hgone : ∀ p ∈ m.patches, p.id ≠ id := by
      intro p hp hid
      exact List.find?_eq_none.1 hfind p hp (decide_eq_true hid)
    rw [without_of_not_mem hgone]
    rfl
  | some running =>
    have hid : running.id = id := by simpa using List.find?_some hfind
    have hchanged : (decide (running.state = .running) && !reload &&
        decide (running.source = choice.source)) = false := by
      rcases hnot with rfl | hnot
      · simp
      · by_contra hsame
        simp only [Bool.not_eq_false, Bool.and_eq_true, decide_eq_true_iff] at hsame
        exact hnot running (List.mem_of_find?_eq_some hfind) ⟨hid, hsame.1.1, hsame.2⟩
    rw [removePatch_eq h]
    simp only [Bool.not_true, Bool.false_eq_true, if_false, hchanged]

theorem OnePerId.syncPatch (h : OnePerId m) :
    OnePerId (VRPatch.syncPatch same m id reload choice loaded) := by
  cases henabled : choice.enabled with
  | false =>
    rw [syncPatch_disabled h henabled]
    exact h.without id
  | true =>
    by_cases hkept : reload = false ∧ ∃ p ∈ m.patches, RunsFrom choice.source id p
    · rw [syncPatch_kept h henabled hkept.1 hkept.2]
      exact h
    have hnot : reload = true ∨ ∀ p ∈ m.patches, ¬ RunsFrom choice.source id p := by
      rw [not_and_or, Bool.not_eq_false] at hkept
      exact hkept.imp_right fun hnone p hp hruns => hnone ⟨p, hp, hruns⟩
    rw [syncPatch_restarted h henabled hnot]
    obtain ⟨heq, -⟩ | ⟨l, p, -, -, hruns, -, -, heq⟩ :=
      startPatch_cases same (VRPatch.without m id) id choice.source loaded
    · rw [heq]
      exact h.without id
    · rw [heq, OnePerId]
      dsimp only
      rw [List.map_append, List.map_singleton, hruns.1]
      refine List.Nodup.append (h.without id) (List.nodup_singleton id) ?_
      intro x hx hid
      obtain ⟨q, hq, rfl⟩ := List.mem_map.1 hx
      exact ne_of_mem_without hq (List.mem_singleton.1 hid)

end Sync

/-! ### What else changes the patches -/

section Other
variable {m : Manager Str V} (same : V → V → Bool) (hash : Str → Nat) (flagFor : Str → Str)

theorem ids_takeCameraAnchors : ∀ (published : Bool) (patches : List (RunningPatch Str V)),
    (takeCameraAnchors published patches).map (·.id) = patches.map (·.id)
  | _, [] => rfl
  | published, p :: rest => by
    unfold takeCameraAnchors
    cases p.active with
    | none => exact congrArg (p.id :: ·) (ids_takeCameraAnchors published rest)
    | some s =>
      dsimp only
      split
      · exact congrArg (p.id :: ·) (ids_takeCameraAnchors true rest)
      · exact congrArg (p.id :: ·) (ids_takeCameraAnchors published rest)

theorem ids_refresh (r : RefreshInput) (m : Manager Str V) :
    (refresh hash flagFor r m).patches.map (·.id) = m.patches.map (·.id) := by
  have hflags : ∀ m : Manager Str V, (updatePatchFlags hash m).patches = m.patches := by
    intro m
    unfold updatePatchFlags
    split
    all_goals rfl
  have hholds : ∀ m : Manager Str V, (updatePadHolds r.attachable m).patches = m.patches := by
    intro m
    unfold updatePadHolds
    split
    all_goals rfl
  unfold refresh refreshHolds
  rw [hflags]
  dsimp only
  split
  · dsimp only [updateCameraAnchorSource]
    rw [ids_takeCameraAnchors, hholds]
  · rw [hholds]

theorem id_runHook (p : RunningPatch Str V) (hook : Hook)
    (outcome : List (ScriptCall Str V) × Bool) : (runHook same p hook outcome).2.id = p.id := by
  unfold runHook
  cases p.script with
  | none => rfl
  | some s =>
    dsimp only
    split
    · split
      · rfl
      · split
        all_goals rfl
    · rfl

theorem id_runPatch (f : HooksInput Str V) (p : RunningPatch Str V) :
    (runPatch same f p).id = p.id := by
  have hload : (runLoadHook same f p).2.id = p.id := by
    unfold runLoadHook
    split
    · dsimp only
      split
      all_goals exact id_runHook same p _ _
    · split
      · exact id_runHook same p _ _
      · rfl
  unfold runPatch
  split
  · rfl
  · dsimp only
    split
    · exact (id_runHook same _ _ _).trans hload
    · exact hload

theorem OnePerId.step (h : OnePerId m) (a : Action Str V)
    (ha : List.Sublist ((prepare same m a).patches.map (·.id)) (m.patches.map (·.id))) :
    OnePerId (VRPatch.step same hash flagFor m a) := by
  unfold VRPatch.step
  cases refreshInput m a with
  | none => exact h.sublist ha
  | some r => exact h.sublist ((ids_refresh hash flagFor r _).symm ▸ ha)

theorem ids_handleBlockReason (m : Manager Str V) (reason : Option Str) (r : RefreshInput) :
    List.Sublist ((prepare same m (.handleBlockReason reason r)).patches.map (·.id))
      (m.patches.map (·.id)) := by
  dsimp only [prepare]
  split
  · exact List.Sublist.refl _
  · dsimp only
    split
    · exact List.nil_sublist _
    · exact List.Sublist.refl _

theorem ids_runHooks (m : Manager Str V) (f : HooksInput Str V) :
    List.Sublist ((prepare same m (.runHooks f)).patches.map (·.id)) (m.patches.map (·.id)) := by
  have hids : (m.patches.map (runPatch same f)).map (·.id) = m.patches.map (·.id) := by
    rw [List.map_map]
    exact List.map_congr_left fun p _ => id_runPatch same f p
  rw [← hids]
  exact List.filter_sublist.map _

end Other

namespace Commands
variable {same : V → V → Bool} {f : Found Str V} {m : Manager Str V}

theorem syncFound_synced (h : OnePerId m) (reload : Bool) (id : Str) :
    Synced same f reload m id (syncFound same f reload m id) := by
  unfold syncFound
  have hwithout : (without m id).patches.filter (fun p => decide (p.id ≠ id)) =
      m.patches.filter fun p => decide (p.id ≠ id) := by
    refine List.filter_eq_self.2 fun p hp => decide_eq_true (ne_of_mem_without hp)
  cases henabled : (f.choice id).enabled with
  | false =>
    rw [syncPatch_disabled h henabled]
    have hnot : (f.choice id).enabled ≠ true := by simp [henabled]
    exact ⟨hwithout, fun _ p hp => ne_of_mem_without hp, fun htrue => absurd htrue hnot,
      fun htrue => absurd htrue hnot, rfl⟩
  | true =>
    have henabled' : (f.choice id).enabled ≠ false := by simp [henabled]
    by_cases hkept : reload = false ∧ ∃ p ∈ m.patches, RunsFrom (f.choice id).source id p
    · rw [syncPatch_kept h henabled hkept.1 hkept.2]
      refine ⟨rfl, fun hfalse => absurd hfalse henabled', fun _ _ _ => rfl, fun _ hnot => ?_, rfl⟩
      obtain ⟨hreload, p, hp, hruns⟩ := hkept
      rcases hnot with hnot | hnot
      · exact absurd (hreload.symm.trans hnot) nofun
      · exact absurd hruns (hnot p hp)
    have hnot : reload = true ∨ ∀ p ∈ m.patches, ¬ RunsFrom (f.choice id).source id p := by
      rw [not_and_or, Bool.not_eq_false] at hkept
      exact hkept.imp_right fun hnone p hp hruns => hnone ⟨p, hp, hruns⟩
    rw [syncPatch_restarted h henabled hnot]
    obtain ⟨heq, hblocked⟩ | ⟨l, p, hl, hblock, hruns, hscript, hload, heq⟩ :=
      startPatch_cases same (without m id) id (f.choice id).source (f.loaded id)
    · rw [heq]
      refine ⟨hwithout, fun hfalse => absurd hfalse henabled',
        fun _ hreload hex => absurd ⟨hreload, hex⟩ hkept, fun _ _ => ?_, rfl⟩
      refine ⟨fun p hp hid => absurd hid (ne_of_mem_without hp), fun hnone hsome => ?_⟩
      exact absurd ⟨hnone, hsome⟩ hblocked
    · rw [heq]
      refine ⟨?_, fun hfalse => absurd hfalse henabled',
        fun _ hreload hex => absurd ⟨hreload, hex⟩ hkept, fun _ _ => ⟨?_, ?_⟩, rfl⟩
      · dsimp only
        rw [List.filter_append, hwithout, List.filter_cons_of_neg (by simpa using hruns.1),
          List.filter_nil, List.append_nil]
      · intro q hq hid
        rcases List.mem_append.1 hq with hq | hq
        · exact absurd hid (ne_of_mem_without hq)
        · rw [List.mem_singleton.1 hq]
          exact ⟨hblock, hruns, ⟨l, hl, hscript⟩, hload⟩
      · exact fun _ _ => ⟨p, List.mem_append_right _ (List.mem_singleton_self p), hruns.1⟩

theorem syncFound_foldl (reload : Bool) : ∀ (ids : List Str) {m : Manager Str V}, OnePerId m →
    SyncedAll same f reload ids m (ids.foldl (syncFound same f reload) m) ∧
      OnePerId (ids.foldl (syncFound same f reload) m)
  | [], _, h => ⟨rfl, h⟩
  | id :: rest, m, h => by
    obtain ⟨hall, hone⟩ :=
      syncFound_foldl reload rest (m := syncFound same f reload m id) h.syncPatch
    exact ⟨⟨_, syncFound_synced h reload id, hall⟩, hone⟩

theorem applySetting_told (id name : Str) (value : V) (p : RunningPatch Str V) :
    Told same f id name value p (applySetting same id (f.calls id name value) p) := by
  unfold applySetting
  constructor
  · intro hid hstate hload
    exact if_pos (by simp [hid, hstate, hload])
  · intro hnot
    exact if_neg (by simpa [and_assoc] using hnot)

theorem id_applySetting (id : Str) (calls : List (ScriptCall Str V)) (p : RunningPatch Str V) :
    (applySetting same id calls p).id = p.id := by
  unfold applySetting
  split
  all_goals rfl

theorem applyCommand_applied (h : OnePerId m) (command : Command Str V) :
    Applied same f m (applyCommand same f m command) command ∧
      OnePerId (applyCommand same f m command) := by
  cases command with
  | sync id reload => exact ⟨syncFound_synced h reload id, h.syncPatch⟩
  | syncAll reload => exact syncFound_foldl reload f.ids h
  | setting id name value =>
    refine ⟨⟨?_, rfl⟩, ?_⟩
    · refine List.forall₂_map_right_iff.2 (List.forall₂_same.2 fun p _ => ?_)
      exact applySetting_told id name value p
    · have hids : (applyCommand same f m (.setting id name value)).patches.map (·.id) =
          m.patches.map (·.id) := by
        dsimp only [applyCommand]
        rw [List.map_map]
        exact List.map_congr_left fun p _ => id_applySetting id _ p
      exact h.sublist (hids ▸ List.Sublist.refl _)

theorem OnePerId.runHooksFound (h : OnePerId m) (hash : Str → Nat) (flagFor : Str → Str)
    (frame : Bool) : OnePerId (Commands.runHooksFound same hash flagFor f frame m) := by
  unfold Commands.runHooksFound
  split
  · exact h.step same hash flagFor _ (List.Sublist.refl _)
  · exact h.step same hash flagFor _ (ids_runHooks same m _)

end Commands
end DolphinXR.VRPatch
