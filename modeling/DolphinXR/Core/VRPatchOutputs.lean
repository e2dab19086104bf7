import Mathlib.Data.Finset.Lattice.Lemmas
import DolphinXR.Core.VRPatchManager

/- When the outputs of the VR patches follow the running patches: in every run in which
   each refresh that finds its signature unchanged also finds the same script objects at
   the same generations. A script object that is found again has evolved from what was
   seen, so that with the same generation it has the same outputs; what a refresh does
   not write again is then still right. A reload makes a new object whose generations
   begin again, and this is how the signature comes to be the same for other outputs. -/
namespace DolphinXR.VRPatch
open Lib

section Outputs
variable {Str V : Type} [LinearOrder Str]

/-- What the signature of the holds is meant to tell apart: which script it is and at which
    generation, for a script that runs and has ever changed its holds. -/
def padKey (p : RunningPatch Str V) : Option (Nat × Nat) :=
  match p.active with
  | none => none
  | some s => if s.padHoldsGeneration = 0 then none else some (s.object, s.padHoldsGeneration)

def flagsKey (p : RunningPatch Str V) : Option (Nat × Nat) :=
  match p.active with
  | none => none
  | some s => if s.flagsGeneration = 0 then none else some (s.object, s.flagsGeneration)

/-- If the signature of the holds is unchanged, then so are the scripts that have held a control
    and their generations, and a controller with holds that can be attached could be when the
    holds were last written. -/
def PadDistinguished (r : RefreshInput) (m : Manager Str V) : Prop :=
  padSignature m.patches = m.padSignature →
    m.patches.filterMap padKey = m.padSeen.filterMap padKey ∧
      ∀ t, r.attachable t = true → holdsOn m.patches t ≠ [] → m.padAttached t = true

/-- If the signature of the flags is unchanged, then so are the scripts that have raised a flag
    and their generations, and the anchor flags. -/
def FlagsDistinguished (hash : Str → Nat) (m : Manager Str V) : Prop :=
  flagsSignature hash m.patches m.anchorFlags = m.flagsSignature →
    m.patches.filterMap flagsKey = m.flagsSeen.1.filterMap flagsKey ∧
      m.anchorFlags = m.flagsSeen.2

/-- The signatures of the refresh at the end of an action, if it has one, tell apart what they
    are meant to. -/
def Distinguished (same : V → V → Bool) (hash : Str → Nat) (flagFor : Str → Str)
    (m : Manager Str V) (a : Action Str V) : Prop :=
  ∀ r, refreshInput m a = some r →
    PadDistinguished r (prepare same m a) ∧
      FlagsDistinguished hash (refreshHolds flagFor r (prepare same m a))

theorem holdsOn_cons (p : RunningPatch Str V) (rest : List (RunningPatch Str V)) (t : Target) :
    holdsOn (p :: rest) t = p.holdsOn t ++ holdsOn rest t := rfl

/-! ### Patches over time -/

/-- If the patch has a script afterwards, it is the one of before, at a later time. -/
def PatchEvolves (p p' : RunningPatch Str V) : Prop :=
  ∀ s', p'.script = some s' → ∃ s, p.script = some s ∧ Script.Evolves s s'

theorem PatchEvolves.trans {p p' p'' : RunningPatch Str V} (h : PatchEvolves p p')
    (h' : PatchEvolves p' p'') : PatchEvolves p p'' := by
  intro s'' hs''
  obtain ⟨s', hs', hevolves'⟩ := h' s'' hs''
  obtain ⟨s, hs, hevolves⟩ := h s' hs'
  exact ⟨s, hs, hevolves.trans hevolves'⟩

theorem PatchEvolves.of_script {p p' : RunningPatch Str V} (h : p'.script = p.script) :
    PatchEvolves p p' :=
  fun s' hs' => ⟨s', h ▸ hs', .refl s'⟩

theorem PatchEvolves.of_none {p p' : RunningPatch Str V} (h : p'.script = none) :
    PatchEvolves p p' := by
  intro s' hs'
  rw [h] at hs'
  cases hs'

def objects (patches : List (RunningPatch Str V)) : List Nat :=
  (patches.filterMap (·.script)).map (·.object)

theorem mem_objects {patches : List (RunningPatch Str V)} {p : RunningPatch Str V}
    {s : Script Str V} (hp : p ∈ patches) (hs : p.script = some s) : s.object ∈ objects patches :=
  List.mem_map.2 ⟨s, List.mem_filterMap.2 ⟨p, hp, hs⟩, rfl⟩

/-- The patches, and those of them that a refresh has seen: each object is there once, and
    where it has been seen, it has evolved since. -/
structure Tracks (next : Nat) (seen patches : List (RunningPatch Str V)) : Prop where
  nodup : (objects patches).Nodup
  fresh : ∀ o ∈ objects patches, o < next
  counted : ∀ p ∈ patches, ∀ s, p.script = some s → s.Counted
  seenFresh : ∀ o ∈ objects seen, o < next
  seenCounted : ∀ p ∈ seen, ∀ s, p.script = some s → s.Counted
  continues : ∀ q ∈ seen, ∀ p ∈ patches, ∀ t, q.script = some t → ∀ s, p.script = some s →
    s.object = t.object → Script.Evolves t s

namespace Tracks
variable {next : Nat} {seen patches patches' : List (RunningPatch Str V)}

theorem nil (next : Nat) : Tracks next ([] : List (RunningPatch Str V)) [] where
  nodup := List.nodup_nil
  fresh _ ho := absurd ho List.not_mem_nil
  counted _ hp := absurd hp List.not_mem_nil
  seenFresh _ ho := absurd ho List.not_mem_nil
  seenCounted _ hp := absurd hp List.not_mem_nil
  continues _ hq := absurd hq List.not_mem_nil

theorem sublist (h : Tracks next seen patches) (hsub : patches'.Sublist patches) :
    Tracks next seen patches' := by
  have hobjects : (objects patches').Sublist (objects patches) := (hsub.filterMap _).map _
  exact ⟨h.nodup.sublist hobjects, fun o ho => h.fresh o (hobjects.subset ho),
    fun p hp => h.counted p (hsub.subset hp), h.seenFresh, h.seenCounted,
    fun q hq p hp => h.continues q hq p (hsub.subset hp)⟩

theorem objects_sublist (h : List.Forall₂ PatchEvolves patches patches') :
    (objects patches').Sublist (objects patches) := by
  induction h with
  | nil => exact .refl _
  | @cons p p' l l' hp _ ih =>
    unfold objects at ih ⊢
    cases hp' : p'.script with
    | none =>
      rw [List.filterMap_cons_none hp']
      exact ih.trans (((List.sublist_cons_self p l).filterMap _).map _)
    | some s' =>
      obtain ⟨s, hs, hevolves⟩ := hp s' hp'
      rw [List.filterMap_cons_some hp', List.filterMap_cons_some hs, List.map_cons, List.map_cons,
        hevolves.object]
      exact ih.cons_cons _

theorem exists_of_evolved (h : List.Forall₂ PatchEvolves patches patches')
    {p' : RunningPatch Str V} (hp' : p' ∈ patches') : ∃ p ∈ patches, PatchEvolves p p' := by
  induction h with
  | nil => cases hp'
  | cons hp _ ih =>
    rcases List.mem_cons.1 hp' with rfl | hp'
    · exact ⟨_, List.mem_cons_self .., hp⟩
    · obtain ⟨p, hmem, hevolves⟩ := ih hp'
      exact ⟨p, List.mem_cons_of_mem _ hmem, hevolves⟩

theorem evolve (h : Tracks next seen patches) (hall : List.Forall₂ PatchEvolves patches patches') :
    Tracks next seen patches' := by
  have hobjects := objects_sublist hall
  refine ⟨h.nodup.sublist hobjects, fun o ho => h.fresh o (hobjects.subset ho), ?_, h.seenFresh,
    h.seenCounted, ?_⟩
  · intro p' hp' s' hs'
    obtain ⟨p, hp, hevolves⟩ := exists_of_evolved hall hp'
    obtain ⟨s, hs, hs'⟩ := hevolves s' hs'
    exact (h.counted p hp s hs).evolve hs'
  intro q hq p' hp' t ht s' hs' heq
  obtain ⟨p, hp, hevolves⟩ := exists_of_evolved hall hp'
  obtain ⟨s, hs, hs'⟩ := hevolves s' hs'
  exact (h.continues q hq p hp t ht s hs (hs'.object.symm.trans heq)).trans hs'

theorem map (h : Tracks next seen patches) {g : RunningPatch Str V → RunningPatch Str V}
    (hg : ∀ p, PatchEvolves p (g p)) : Tracks next seen (patches.map g) :=
  h.evolve (List.forall₂_map_right_iff.2 (List.forall₂_same.2 fun p _ => hg p))

theorem push (h : Tracks next seen patches) {p : RunningPatch Str V} {s : Script Str V}
    (hs : p.script = some s) (hobject : s.object = next) (hcounted : s.Counted) :
    Tracks (next + 1) seen (patches ++ [p]) := by
  have hobjects : objects (patches ++ [p]) = objects patches ++ [next] := by
    simp [objects, List.filterMap_append, List.filterMap_cons_some hs, hobject]
  refine ⟨?_, fun o ho => ?_, fun p' hp' s' hs' => ?_,
    fun o ho => Nat.lt_succ_of_lt (h.seenFresh o ho), h.seenCounted, ?_⟩
  · rw [hobjects]
    refine List.Nodup.append h.nodup (List.nodup_singleton _) ?_
    intro o ho hmem
    have := h.fresh o ho
    rw [List.mem_singleton.1 hmem] at this
    exact Nat.lt_irrefl _ this
  · rw [hobjects] at ho
    rcases List.mem_append.1 ho with ho | ho
    · exact Nat.lt_succ_of_lt (h.fresh o ho)
    · rw [List.mem_singleton.1 ho]
      exact Nat.lt_succ_self next
  · rcases List.mem_append.1 hp' with hp' | hp'
    · exact h.counted p' hp' s' hs'
    · rw [List.mem_singleton.1 hp', hs] at hs'
      exact Option.some.inj hs' ▸ hcounted
  · intro q hq p' hp' t ht s' hs' heq
    rcases List.mem_append.1 hp' with hp' | hp'
    · exact h.continues q hq p' hp' t ht s' hs' heq
    · rw [List.mem_singleton.1 hp', hs] at hs'
      obtain rfl := Option.some.inj hs'
      have hlt := h.seenFresh _ (mem_objects hq ht)
      omega

theorem self (h : Tracks next seen patches) : Tracks next patches patches := by
  refine ⟨h.nodup, h.fresh, h.counted, h.fresh, h.counted, fun q hq p hp t ht s hs heq => ?_⟩
  have hmem : ∀ {p : RunningPatch Str V} {s : Script Str V}, p ∈ patches → p.script = some s →
      s ∈ patches.filterMap (·.script) := fun hp hs => List.mem_filterMap.2 ⟨_, hp, hs⟩
  rw [List.inj_on_of_nodup_map h.nodup (hmem hp hs) (hmem hq ht) heq]
  exact .refl t

theorem active_eq_some {p : RunningPatch Str V} {s : Script Str V} (h : p.active = some s) :
    p.script = some s := by
  unfold RunningPatch.active at h
  split at h
  · exact h
  · cases h

theorem map_eq_of_key {α κ β : Type} (key : α → κ) {f : α → β} : ∀ {l l' : List α},
    l.map key = l'.map key → (∀ a ∈ l, ∀ b ∈ l', key a = key b → f a = f b) → l.map f = l'.map f
  | [], [], _, _ => rfl
  | [], _ :: _, h, _ => by cases h
  | _ :: _, [], h, _ => by cases h
  | a :: l, b :: l', h, hf => by
    obtain ⟨hhead, htail⟩ := List.cons.inj h
    rw [List.map_cons, List.map_cons, hf a (List.mem_cons_self ..) b (List.mem_cons_self ..) hhead,
      map_eq_of_key key htail fun x hx y hy =>
        hf x (List.mem_cons_of_mem _ hx) y (List.mem_cons_of_mem _ hy)]

theorem map_filter_isSome {α κ : Type} (key : α → Option κ) (l : List α) :
    (l.filter fun a => (key a).isSome).map key = (l.filterMap key).map some := by
  induction l with
  | nil => rfl
  | cons a l ih =>
    cases hkey : key a with
    | none => rw [List.filter_cons_of_neg (by simp [hkey]), List.filterMap_cons_none hkey, ih]
    | some k =>
      rw [List.filter_cons_of_pos (by simp [hkey]), List.filterMap_cons_some hkey, List.map_cons,
        List.map_cons, hkey, ih]

theorem padKey_eq_some {p : RunningPatch Str V} {k : Nat × Nat} (h : padKey p = some k) :
    ∃ s, p.active = some s ∧ k = (s.object, s.padHoldsGeneration) := by
  unfold padKey at h
  cases hactive : p.active with
  | none => simp [hactive] at h
  | some s =>
    simp only [hactive] at h
    split at h
    · cases h
    · exact ⟨s, rfl, (Option.some.inj h).symm⟩

theorem holdsOn_of_padKey_eq_none {p : RunningPatch Str V}
    (hcounted : ∀ s, p.script = some s → s.Counted) (h : padKey p = none) (t : Target) :
    p.holdsOn t = [] := by
  unfold padKey at h
  unfold RunningPatch.holdsOn
  cases hactive : p.active with
  | none => rfl
  | some s =>
    simp only [hactive] at h ⊢
    split at h
    case isTrue hzero =>
      rw [(hcounted s (active_eq_some hactive)).padHolds hzero]
      rfl
    case isFalse => cases h

theorem holdsOn_filter (t : Target) : ∀ {l : List (RunningPatch Str V)},
    (∀ p ∈ l, ∀ s, p.script = some s → s.Counted) →
    holdsOn (l.filter fun p => (padKey p).isSome) t = holdsOn l t
  | [], _ => rfl
  | p :: l, h => by
    have hrest := holdsOn_filter t fun q hq => h q (List.mem_cons_of_mem _ hq)
    rw [holdsOn_cons]
    cases hkey : padKey p with
    | none =>
      rw [List.filter_cons_of_neg (by simp [hkey]), hrest,
        holdsOn_of_padKey_eq_none (h p (List.mem_cons_self ..)) hkey, List.nil_append]
    | some k => rw [List.filter_cons_of_pos (by simp [hkey]), holdsOn_cons, hrest]

theorem holdsOn_eq (h : Tracks next seen patches)
    (hkeys : patches.filterMap padKey = seen.filterMap padKey) (t : Target) :
    holdsOn patches t = holdsOn seen t := by
  rw [← holdsOn_filter t h.counted, ← holdsOn_filter t h.seenCounted]
  have hmap : (patches.filter fun p => (padKey p).isSome).map (·.holdsOn t) =
      (seen.filter fun p => (padKey p).isSome).map (·.holdsOn t) := by
    apply map_eq_of_key padKey
    · rw [map_filter_isSome, map_filter_isSome, hkeys]
    intro p hp q hq hkey
    obtain ⟨hp, hsome⟩ := List.mem_filter.1 hp
    obtain ⟨k, hk⟩ := Option.isSome_iff_exists.1 hsome
    obtain ⟨s, hs, hks⟩ := padKey_eq_some hk
    obtain ⟨u, hu, hku⟩ := padKey_eq_some (hkey.symm.trans hk)
    obtain ⟨hobject, hgeneration⟩ := Prod.mk.inj (hks.symm.trans hku)
    have hevolves := h.continues q (List.mem_filter.1 hq).1 p hp u (active_eq_some hu) s
      (active_eq_some hs) hobject
    simp only [RunningPatch.holdsOn, hs, hu]
    rw [hevolves.padHolds_eq hgeneration]
  rw [holdsOn, holdsOn, List.flatMap_def, List.flatMap_def, hmap]

theorem flagsKey_eq_some {p : RunningPatch Str V} {k : Nat × Nat} (h : flagsKey p = some k) :
    ∃ s, p.active = some s ∧ k = (s.object, s.flagsGeneration) := by
  unfold flagsKey at h
  cases hactive : p.active with
  | none => simp [hactive] at h
  | some s =>
    simp only [hactive] at h
    split at h
    · cases h
    · exact ⟨s, rfl, (Option.some.inj h).symm⟩

theorem flags_of_flagsKey_eq_none {p : RunningPatch Str V}
    (hcounted : ∀ s, p.script = some s → s.Counted) (h : flagsKey p = none) : p.flags = ∅ := by
  unfold flagsKey at h
  unfold RunningPatch.flags
  cases hactive : p.active with
  | none => rfl
  | some s =>
    simp only [hactive] at h ⊢
    split at h
    case isTrue hzero => exact (hcounted s (active_eq_some hactive)).flags hzero
    case isFalse => cases h

theorem allFlags_cons (p : RunningPatch Str V) (rest : List (RunningPatch Str V))
    (anchorFlags : List Str) :
    allFlags (p :: rest) anchorFlags = p.flags ∪ allFlags rest anchorFlags := rfl

theorem allFlags_filter (anchorFlags : List Str) : ∀ {l : List (RunningPatch Str V)},
    (∀ p ∈ l, ∀ s, p.script = some s → s.Counted) →
    allFlags (l.filter fun p => (flagsKey p).isSome) anchorFlags = allFlags l anchorFlags
  | [], _ => rfl
  | p :: l, h => by
    have hrest := allFlags_filter anchorFlags fun q hq => h q (List.mem_cons_of_mem _ hq)
    rw [allFlags_cons]
    cases hkey : flagsKey p with
    | none =>
      rw [List.filter_cons_of_neg (by simp [hkey]), hrest,
        flags_of_flagsKey_eq_none (h p (List.mem_cons_self ..)) hkey, Finset.empty_union]
    | some k => rw [List.filter_cons_of_pos (by simp [hkey]), allFlags_cons, hrest]

theorem allFlags_eq (h : Tracks next seen patches)
    (hkeys : patches.filterMap flagsKey = seen.filterMap flagsKey) (anchorFlags : List Str) :
    allFlags patches anchorFlags = allFlags seen anchorFlags := by
  rw [← allFlags_filter anchorFlags h.counted, ← allFlags_filter anchorFlags h.seenCounted]
  have hmap : (patches.filter fun p => (flagsKey p).isSome).map RunningPatch.flags =
      (seen.filter fun p => (flagsKey p).isSome).map RunningPatch.flags := by
    apply map_eq_of_key flagsKey
    · rw [map_filter_isSome, map_filter_isSome, hkeys]
    intro p hp q hq hkey
    obtain ⟨hp, hsome⟩ := List.mem_filter.1 hp
    obtain ⟨k, hk⟩ := Option.isSome_iff_exists.1 hsome
    obtain ⟨s, hs, hks⟩ := flagsKey_eq_some hk
    obtain ⟨u, hu, hku⟩ := flagsKey_eq_some (hkey.symm.trans hk)
    obtain ⟨hobject, hgeneration⟩ := Prod.mk.inj (hks.symm.trans hku)
    have hevolves := h.continues q (List.mem_filter.1 hq).1 p hp u (active_eq_some hu) s
      (active_eq_some hs) hobject
    simp only [RunningPatch.flags, hs, hu]
    exact hevolves.flags_eq hgeneration
  rw [allFlags, allFlags, hmap]

end Tracks

/-! ### What an action does to the patches -/

variable {same : V → V → Bool} {hash : Str → Nat} {flagFor : Str → Str}

theorem runHook_evolves (p : RunningPatch Str V) (hook : Hook)
    (outcome : List (ScriptCall Str V) × Bool) : PatchEvolves p (runHook same p hook outcome).2 := by
  unfold runHook
  cases hs : p.script with
  | none => exact .of_script rfl
  | some s =>
    have hcalls : ∀ p' : RunningPatch Str V, p'.script = some (s.calls same outcome.1) →
        PatchEvolves p p' := by
      intro p' hp' s' hs'
      rw [hp'] at hs'
      obtain rfl := Option.some.inj hs'
      exact ⟨s, hs, Script.calls_evolves s outcome.1⟩
    dsimp only
    split
    · split
      · exact hcalls _ rfl
      · split
        · exact .of_none rfl
        · exact hcalls _ rfl
    · exact .of_script hs.symm

theorem runLoadHook_evolves (f : HooksInput Str V) (p : RunningPatch Str V) :
    PatchEvolves p (runLoadHook same f p).2 := by
  unfold runLoadHook
  split
  · have hload : PatchEvolves p (runHook same p .onLoad (f.outcome p.id .onLoad)).2 :=
      runHook_evolves p .onLoad _
    dsimp only
    split
    · exact hload.trans (.of_script rfl)
    · exact hload
  · split
    · exact runHook_evolves p .onStateLoaded _
    · exact .of_script rfl

theorem runPatch_evolves (f : HooksInput Str V) (p : RunningPatch Str V) :
    PatchEvolves p (runPatch same f p) := by
  have hload : PatchEvolves p (runLoadHook same f p).2 := runLoadHook_evolves f p
  unfold runPatch
  split
  · exact .of_script rfl
  · dsimp only
    split
    · exact hload.trans (runHook_evolves _ .onFrame _)
    · exact hload

theorem applySetting_evolves (id : Str) (calls : List (ScriptCall Str V))
    (p : RunningPatch Str V) : PatchEvolves p (applySetting same id calls p) := by
  unfold applySetting
  split
  · intro s' hs'
    obtain ⟨s, hs, rfl⟩ := Option.map_eq_some_iff.1 hs'
    exact ⟨s, hs, Script.calls_evolves s calls⟩
  · exact .of_script rfl

theorem startPatch_tracks {m : Manager Str V} {seen : List (RunningPatch Str V)}
    (h : Tracks m.nextObject seen m.patches) (id source : Str)
    (loaded : Option (LoadedScript Str V)) :
    Tracks (startPatch same m id source loaded).nextObject seen
      (startPatch same m id source loaded).patches := by
  unfold startPatch
  split
  · refine h.push rfl (Script.calls_evolves ..).object ?_
    exact Script.Counted.evolve ⟨fun _ => rfl, fun _ => rfl⟩ (Script.calls_evolves ..)
  · exact h

theorem removePatch_tracks {m : Manager Str V} {seen : List (RunningPatch Str V)}
    (h : Tracks m.nextObject seen m.patches) (id : Str) :
    Tracks (removePatch m id).nextObject seen (removePatch m id).patches :=
  h.sublist List.eraseP_sublist

theorem syncPatch_tracks {m : Manager Str V} {seen : List (RunningPatch Str V)}
    (h : Tracks m.nextObject seen m.patches) (id : Str) (reload : Bool)
    (choice : SourceChoice Str) (loaded : Option (LoadedScript Str V)) :
    Tracks (syncPatch same m id reload choice loaded).nextObject seen
      (syncPatch same m id reload choice loaded).patches := by
  unfold syncPatch
  split
  · exact removePatch_tracks h id
  · split
    · exact startPatch_tracks h id choice.source loaded
    · split
      · exact h
      · exact startPatch_tracks (removePatch_tracks h id) id choice.source loaded

theorem prepare_tracks {m : Manager Str V} {seen : List (RunningPatch Str V)}
    (h : Tracks m.nextObject seen m.patches) (a : Action Str V) :
    Tracks (prepare same m a).nextObject seen (prepare same m a).patches := by
  cases a with
  | sync id reload choice loaded => exact syncPatch_tracks h id reload choice loaded
  | setting id calls => exact h.map (applySetting_evolves id calls)
  | handleBlockReason reason r =>
    simp only [prepare]
    split
    · exact h
    · apply h.sublist
      dsimp only
      split
      · exact List.nil_sublist _
      · exact List.Sublist.refl _
  | runHooks f => exact (h.map (runPatch_evolves f)).sublist List.filter_sublist
  | idle r => exact h

/-! ### What a refresh leaves -/

/-- The state of the outputs, as the last refresh has left them. -/
structure OutputsInvariant (m : Manager Str V) : Prop where
  padTracks : Tracks m.nextObject m.padSeen m.patches
  flagsTracks : Tracks m.nextObject m.flagsSeen.1 m.patches
  padHolds : m.padHolds = holdsOn m.padSeen
  held : ∀ t, m.padAttached t = true → m.held t = holdsOn m.padSeen t
  heldNothing : ∀ t, holdsOn m.padSeen t = [] → m.held t = []
  published : m.published = allFlags m.flagsSeen.1 m.flagsSeen.2

theorem prepare_outputs (m : Manager Str V) (a : Action Str V) :
    prepare same m a =
      { m with
        patches := (prepare same m a).patches
        nextObject := (prepare same m a).nextObject
        blockReason := (prepare same m a).blockReason } := by
  have hstart : ∀ (m : Manager Str V) id source loaded, startPatch same m id source loaded =
      { m with
        patches := (startPatch same m id source loaded).patches
        nextObject := (startPatch same m id source loaded).nextObject } := by
    intro m id source loaded
    unfold startPatch
    split <;> rfl
  cases a with
  | sync id reload choice loaded =>
    simp only [prepare, syncPatch]
    split
    · rfl
    · split
      · rw [hstart]
      · split
        · rfl
        · rw [hstart]
          rfl
  | handleBlockReason reason r =>
    simp only [prepare]
    split <;> rfl
  | setting | runHooks | idle => rfl

theorem OutputsInvariant.prepare {m : Manager Str V} (h : OutputsInvariant m)
    (a : Action Str V) : OutputsInvariant (prepare same m a) := by
  have hpad : Tracks (VRPatch.prepare same m a).nextObject m.padSeen _ :=
    prepare_tracks h.padTracks a
  have hflags : Tracks (VRPatch.prepare same m a).nextObject m.flagsSeen.1 _ :=
    prepare_tracks h.flagsTracks a
  rw [prepare_outputs]
  exact ⟨hpad, hflags, h.padHolds, h.held, h.heldNothing, h.published⟩

omit [LinearOrder Str] in
theorem holdOn_of_attachable {before holds held : List ((Str × Str) × V)}
    (hnothing : before = [] → held = []) : holdOn true before holds held = holds := by
  unfold holdOn
  cases holds with
  | cons hold rest => rfl
  | nil =>
    cases before with
    | nil => exact hnothing rfl
    | cons hold rest => rfl

omit [LinearOrder Str] in
theorem holdOn_nil {attachable : Bool} {before held : List ((Str × Str) × V)}
    (hnothing : before = [] → held = []) : holdOn attachable before [] held = [] := by
  unfold holdOn
  cases before with
  | nil => exact hnothing rfl
  | cons hold rest => rfl

theorem OutputsInvariant.updatePadHolds {m : Manager Str V} (h : OutputsInvariant m)
    (attachable : Target → Bool) : OutputsInvariant (updatePadHolds attachable m) := by
  unfold VRPatch.updatePadHolds
  split
  · exact h
  · have hnothing : ∀ t, m.padHolds t = [] → m.held t = [] :=
      fun t ht => h.heldNothing t (h.padHolds ▸ ht)
    refine ⟨h.padTracks.self, h.flagsTracks, rfl, fun t ht => ?_, fun t ht => ?_, h.published⟩
    · dsimp only at ht ⊢
      rw [ht]
      exact holdOn_of_attachable (hnothing t)
    · dsimp only at ht ⊢
      rw [ht]
      exact holdOn_nil (hnothing t)

theorem updatePadHolds_held {m : Manager Str V} (h : OutputsInvariant m) {r : RefreshInput}
    (hdistinguished : PadDistinguished r m) {t : Target} (ht : r.attachable t = true) :
    (updatePadHolds r.attachable m).held t = holdsOn m.patches t := by
  unfold updatePadHolds
  split
  case isTrue hsignature =>
    obtain ⟨hkeys, hattached⟩ := hdistinguished hsignature
    have hholds := h.padTracks.holdsOn_eq hkeys t
    by_cases hnone : holdsOn m.patches t = []
    · rw [hnone]
      exact h.heldNothing t (hholds ▸ hnone)
    · rw [hholds]
      exact h.held t (hattached t ht hnone)
  case isFalse hsignature =>
    dsimp only
    rw [ht]
    exact holdOn_of_attachable fun hbefore => h.heldNothing t (h.padHolds ▸ hbefore)

theorem updatePadHolds_patches (attachable : Target → Bool) (m : Manager Str V) :
    (updatePadHolds attachable m).patches = m.patches := by
  unfold updatePadHolds
  split <;> rfl

theorem takeCameraAnchors_evolves : ∀ (published : Bool) (patches : List (RunningPatch Str V)),
    List.Forall₂ PatchEvolves patches (takeCameraAnchors published patches)
  | _, [] => .nil
  | published, p :: rest => by
    unfold takeCameraAnchors
    cases hactive : p.active with
    | none => exact .cons (.of_script rfl) (takeCameraAnchors_evolves published rest)
    | some s =>
      have htaken : ∀ p' : RunningPatch Str V, p'.script = some { s with cameraAnchor := false } →
          PatchEvolves p p' := by
        intro p' hp' s' hs'
        rw [hp'] at hs'
        obtain rfl := Option.some.inj hs'
        exact ⟨s, Tracks.active_eq_some hactive, rfl, Nat.le_refl _, fun _ => rfl, Nat.le_refl _,
          fun _ => rfl⟩
      dsimp only
      split
      · exact .cons (htaken _ rfl) (takeCameraAnchors_evolves true rest)
      · exact .cons (htaken _ rfl) (takeCameraAnchors_evolves published rest)

theorem holdsOn_takeCameraAnchors (t : Target) : ∀ (published : Bool)
    (patches : List (RunningPatch Str V)),
    holdsOn (takeCameraAnchors published patches) t = holdsOn patches t
  | _, [] => rfl
  | published, p :: rest => by
    unfold takeCameraAnchors
    cases hactive : p.active with
    | none =>
      rw [holdsOn_cons, holdsOn_cons, holdsOn_takeCameraAnchors t published rest]
    | some s =>
      have hrunning : p.state = .running := by
        by_contra hstate
        rw [RunningPatch.active, if_neg hstate] at hactive
        cases hactive
      have htaken : ∀ p' : RunningPatch Str V, p'.script = some { s with cameraAnchor := false } →
          p'.state = .running → p'.holdsOn t = p.holdsOn t := by
        intro p' hscript hstate
        simp only [RunningPatch.holdsOn, hactive]
        rw [RunningPatch.active, if_pos hstate, hscript]
      dsimp only
      split
      · rw [holdsOn_cons, holdsOn_cons, holdsOn_takeCameraAnchors t true rest]
        exact congrArg (· ++ holdsOn rest t) (htaken _ rfl hrunning)
      · rw [holdsOn_cons, holdsOn_cons, holdsOn_takeCameraAnchors t published rest]
        exact congrArg (· ++ holdsOn rest t) (htaken _ rfl hrunning)

theorem OutputsInvariant.refreshHolds {m : Manager Str V} (h : OutputsInvariant m)
    (r : RefreshInput) : OutputsInvariant (refreshHolds flagFor r m) := by
  unfold VRPatch.refreshHolds
  have hupdated := h.updatePadHolds r.attachable
  dsimp only
  split
  · exact ⟨hupdated.padTracks.evolve (takeCameraAnchors_evolves false _),
      hupdated.flagsTracks.evolve (takeCameraAnchors_evolves false _), hupdated.padHolds,
      hupdated.held, hupdated.heldNothing, hupdated.published⟩
  · exact hupdated

theorem refreshHolds_held {m : Manager Str V} (h : OutputsInvariant m) {r : RefreshInput}
    (hdistinguished : PadDistinguished r m) {t : Target} (ht : r.attachable t = true) :
    (refreshHolds flagFor r m).held t = holdsOn (refreshHolds flagFor r m).patches t := by
  have hheld := updatePadHolds_held h hdistinguished ht
  unfold refreshHolds
  dsimp only
  split
  · unfold updateCameraAnchorSource
    dsimp only
    rw [holdsOn_takeCameraAnchors, updatePadHolds_patches]
    exact hheld
  · rw [updatePadHolds_patches]
    exact hheld

theorem OutputsInvariant.updatePatchFlags {m : Manager Str V} (h : OutputsInvariant m) :
    OutputsInvariant (updatePatchFlags hash m) := by
  unfold VRPatch.updatePatchFlags
  split
  · exact h
  · exact ⟨h.padTracks, h.flagsTracks.self, h.padHolds, h.held, h.heldNothing, rfl⟩

theorem updatePatchFlags_published {m : Manager Str V} (h : OutputsInvariant m)
    (hdistinguished : FlagsDistinguished hash m) :
    (updatePatchFlags hash m).published = allFlags m.patches m.anchorFlags := by
  unfold updatePatchFlags
  split
  case isTrue hsignature =>
    obtain ⟨hkeys, hanchors⟩ := hdistinguished hsignature
    rw [h.published, ← hanchors, h.flagsTracks.allFlags_eq hkeys]
  case isFalse hsignature => rfl

theorem updatePatchFlags_same (hash : Str → Nat) (m : Manager Str V) :
    (updatePatchFlags hash m).patches = m.patches ∧ (updatePatchFlags hash m).held = m.held ∧
      (updatePatchFlags hash m).anchorFlags = m.anchorFlags := by
  unfold updatePatchFlags
  split <;> exact ⟨rfl, rfl, rfl⟩

/-! ### Every run -/

theorem initialManager_invariant : OutputsInvariant (initialManager : Manager Str V) where
  padTracks := Tracks.nil 0
  flagsTracks := Tracks.nil 0
  padHolds := rfl
  held _ _ := rfl
  heldNothing _ _ := rfl
  published := rfl

theorem OutputsInvariant.step {m : Manager Str V} (h : OutputsInvariant m) (a : Action Str V) :
    OutputsInvariant (step same hash flagFor m a) := by
  unfold VRPatch.step
  split
  · exact h.prepare a
  · exact ((h.prepare a).refreshHolds _).updatePatchFlags

theorem reachable_invariant {m : Manager Str V}
    (h : (patchSystem same hash flagFor).Reachable m) : OutputsInvariant m := by
  refine h.invariant (fun s hs => ?_) fun s a s' _ hs hstep => ?_
  · rw [hs]
    exact initialManager_invariant
  · obtain rfl := Option.some.inj hstep
    exact hs.step a

/-- After every run, the hooks of a frame leave the outputs of the running patches, if their
    refresh does not take new outputs for those it has seen. -/
theorem runHooks_outputs {m : Manager Str V} (h : (patchSystem same hash flagFor).Reachable m)
    (f : HooksInput Str V) (hdistinguished : Distinguished same hash flagFor m (.runHooks f)) :
    (∀ t, f.attachable t = true →
      (step same hash flagFor m (.runHooks f)).held t =
        holdsOn (step same hash flagFor m (.runHooks f)).patches t) ∧
    (step same hash flagFor m (.runHooks f)).published =
      allFlags (step same hash flagFor m (.runHooks f)).patches
        (step same hash flagFor m (.runHooks f)).anchorFlags := by
  have hprepared : OutputsInvariant (prepare same m (.runHooks f)) :=
    (reachable_invariant h).prepare (.runHooks f)
  obtain ⟨hpad, hflags⟩ := hdistinguished f.toRefreshInput rfl
  have hstep : step same hash flagFor m (.runHooks f) =
      updatePatchFlags hash (refreshHolds flagFor f.toRefreshInput
        (prepare same m (.runHooks f))) := rfl
  obtain ⟨hpatches, hheld, hanchors⟩ := updatePatchFlags_same hash
    (refreshHolds flagFor f.toRefreshInput (prepare same m (.runHooks f)))
  rw [hstep, hpatches, hheld, hanchors]
  exact ⟨fun t ht => refreshHolds_held hprepared hpad ht,
    updatePatchFlags_published (hprepared.refreshHolds f.toRefreshInput) hflags⟩

end Outputs

/-! ### Frames of one patch -/

section Frames
variable {Str V : Type} [LinearOrder Str]

theorem reachable_foldl {same : V → V → Bool} {hash : Str → Nat} {flagFor : Str → Str}
    (actions : List (Action Str V)) {m : Manager Str V}
    (h : (patchSystem same hash flagFor).Reachable m) :
    (patchSystem same hash flagFor).Reachable (actions.foldl (step same hash flagFor) m) := by
  induction actions generalizing m with
  | nil => exact h
  | cons a rest ih => exact ih (h.step rfl)

end Frames

def sameHold (a b : Nat) : Bool := decide (a = b)

/-- A script whose `on_frame` is all it has. -/
def frameScript : LoadedScript Nat Nat := ⟨fun h => decide (h = .onFrame), false, []⟩

/-- A frame in which each patch holds a control of the first GameCube controller. -/
def holdFrame (control : Nat) : HooksInput Nat Nat :=
  ⟨⟨true, fun _ => true, false⟩, false,
    fun _ _ => ([.setHold (.gcPad, 0) [(0, control)] false 1 0 false], true)⟩

def startedManager : Manager Nat Nat :=
  [.sync 7 false ⟨true, 0⟩ (some frameScript), .runHooks (holdFrame 1)].foldl
    (step sameHold id id) initialManager

theorem startedManager_reachable : (patchSystem sameHold id id).Reachable startedManager :=
  reachable_foldl _ (.init rfl)

theorem startedManager_distinguished :
    Distinguished sameHold id id startedManager (.runHooks (holdFrame 2)) := by
  intro r hr
  obtain rfl := Option.some.inj hr
  refine ⟨fun hsignature => ?_, fun _ => ?_⟩
  · exact absurd hsignature (by decide +kernel)
  · exact ⟨by decide +kernel, by decide +kernel⟩

/-- When it holds the second control as well, its generation is a new one. -/
theorem startedManager_outputs :
    (∀ t, (holdFrame 2).attachable t = true →
      (step sameHold id id startedManager (.runHooks (holdFrame 2))).held t =
        holdsOn (step sameHold id id startedManager (.runHooks (holdFrame 2))).patches t) ∧
    (step sameHold id id startedManager (.runHooks (holdFrame 2))).published =
      allFlags (step sameHold id id startedManager (.runHooks (holdFrame 2))).patches
        (step sameHold id id startedManager (.runHooks (holdFrame 2))).anchorFlags :=
  runHooks_outputs startedManager_reachable (holdFrame 2) startedManager_distinguished

def reloadedManager : Manager Nat Nat :=
  step sameHold id id startedManager (.sync 7 true ⟨true, 1⟩ (some frameScript))

/-- The new object begins its generations again, so that the signature is the same, and the
    control that the old source has held stays held. -/
theorem reloadedManager_keeps_hold :
    (patchSystem sameHold id id).Reachable reloadedManager ∧
      (holdFrame 2).attachable (.gcPad, 0) = true ∧
      (step sameHold id id reloadedManager (.runHooks (holdFrame 2))).held (.gcPad, 0) =
        [((0, 1), 1)] ∧
      holdsOn (step sameHold id id reloadedManager (.runHooks (holdFrame 2))).patches (.gcPad, 0) =
        [((0, 2), 1)] :=
  ⟨startedManager_reachable.step rfl, rfl, by decide +kernel, by decide +kernel⟩

end DolphinXR.VRPatch
