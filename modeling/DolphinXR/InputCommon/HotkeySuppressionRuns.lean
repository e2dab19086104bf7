import DolphinXR.InputCommon.HotkeySuppressions
import Mathlib.Data.List.Perm.Basic
import Mathlib.Algebra.GroupWithZero.Nat

/- The counts of the suppressions over whole runs. A hotkey holds the pairs that it suppresses, with
   the inputs it has now; every function but one takes from the map what the hotkey held and adds
   what it holds, so that the map has the sum over the hotkeys. The exception is `UpdateReferences`
   of a hotkey that suppresses: the old suppressor takes away the new inputs, and the map keeps the
   old ones, unless they are the same. -/
namespace DolphinXR.ExpressionParser
open Lib

section
variable {ρ ι : Type} [DecidableEq ι]

namespace Hotkey

def suppressed (h : Hotkey ρ ι) : List (Suppression ι) := h.pairs.filter Suppression.isComplete

def held (h : Hotkey ρ ι) : List (Suppression ι) := if h.suppressing then h.suppressed else []

/-- No count leaves 16 bits when a suppressor is made. -/
def Fits (m : Suppressions ι) (h : Hotkey ρ ι) : Prop :=
  ∀ k, m.level k + h.suppressed.count k < 2 ^ 16

omit [DecidableEq ι] in
theorem held_of_suppressing {h : Hotkey ρ ι} (hs : h.suppressing = true) : h.held = h.suppressed :=
  if_pos hs

omit [DecidableEq ι] in
theorem held_of_not_suppressing {h : Hotkey ρ ι} (hs : h.suppressing = false) : h.held = [] :=
  if_neg (Bool.eq_false_iff.1 hs)

end Hotkey

def total (s : State ρ ι) (k : Suppression ι) : Nat := (s.hotkeys.map fun h => h.held.count k).sum

/-- What is true of the map and the hotkeys as long as no count is lost. -/
structure Balanced (s : State ρ ι) : Prop where
  /-- Every pair has the count of the modifiers that suppress it. -/
  level : ∀ k, s.suppressions.level k = total s k
  /-- Where no hotkey has two modifiers on one input, that is the number of hotkeys. -/
  level_eq_hotkeys : (∀ h ∈ s.hotkeys, h.suppressed.Nodup) →
    ∀ k, s.suppressions.level k = s.hotkeys.countP fun h => h.held.contains k
  /-- A suppressed input is the final input of a hotkey whose modifiers were pressed. -/
  suppressed : ∀ input, isSuppressed s.suppressions input = true →
    ∃ h ∈ s.hotkeys, h.finalInput.input = input ∧ h.suppressing = true ∧ h.pressed = true
  empty : (∀ h ∈ s.hotkeys, h.suppressing = false) → s.suppressions.entries = []

/-- The condition on a step: no count leaves 16 bits, and `UpdateReferences` of a hotkey that
    suppresses finds the inputs again that it had. -/
def Keeps (s : State ρ ι) : Action ρ ι → Prop
  | .getValue index _ => ∀ h, s.hotkeys[index]? = some h → h.suppressing = false →
      h.Fits s.suppressions
  | .updateReferences index env => ∀ h, s.hotkeys[index]? = some h → h.suppressing = true →
      (h.updateReferences env).Fits s.suppressions ∧
      (h.updateReferences env).suppressed.Perm h.suppressed
  | _ => True

def NoneMissing (n : Suppression ι → Nat) : Prop :=
  ∀ k : Suppression ι, k.isComplete = false → n k = 0

theorem count_suppressed_of_missing (h : Hotkey ρ ι) :
    NoneMissing fun k => h.suppressed.count k := by
  intro k hk
  refine List.count_eq_zero.2 fun hmem => ?_
  rw [(List.mem_filter.1 hmem).2] at hk
  cases hk

theorem count_held_le (h : Hotkey ρ ι) (k : Suppression ι) :
    h.held.count k ≤ h.suppressed.count k := by
  unfold Hotkey.held
  split
  · exact Nat.le_refl _
  · exact Nat.zero_le _

variable {m : Suppressions ι} {n : Suppression ι → Nat}

theorem represents_makeSuppressor (hm : m.Represents n) {h : Hotkey ρ ι} (hfits : h.Fits m) :
    (h.makeSuppressor m).Represents fun k => n k + h.suppressed.count k := by
  have hroom : ∀ k, n k + h.suppressed.count k < 2 ^ 16 := fun k => hm.level_eq k ▸ hfits k
  have hfold : h.makeSuppressor m = h.suppressed.foldl CountMap.add m := by
    rw [Hotkey.suppressed, List.foldl_filter]
    rfl
  rw [hfold]
  exact hm.addAll hroom

theorem represents_dropSuppressor (hm : m.Represents n) (hn : NoneMissing n) (h : Hotkey ρ ι) :
    (h.dropSuppressor m).Represents fun k => n k - h.suppressed.count k := by
  refine (hm.removeAll h.pairs).congr fun k => ?_
  cases hk : k.isComplete with
  | true => rw [Hotkey.suppressed, List.count_filter hk]
  | false => rw [hn k hk, Nat.zero_sub, Nat.zero_sub]

/-! ### What a function does to the counts -/

def Exchanges (h : Hotkey ρ ι) (m : Suppressions ι) (r : Hotkey ρ ι × Suppressions ι) : Prop :=
  ∀ n, m.Represents n → NoneMissing n → (∀ k, h.held.count k ≤ n k) →
    r.2.Represents fun k => n k - h.held.count k + r.1.held.count k

theorem exchanges_of_held_eq {h h' : Hotkey ρ ι} (hheld : h'.held = h.held) :
    Exchanges h m (h', m) := by
  intro n hm _ hle
  refine hm.congr fun k => ?_
  rw [hheld]
  exact Nat.sub_add_cancel (hle k)

theorem exchanges_enableSuppression {h : Hotkey ρ ι}
    (hfits : h.suppressing = false → h.Fits m) :
    Exchanges h m (h.enableSuppression false m) := by
  unfold Hotkey.enableSuppression
  cases hs : h.suppressing with
  | true => exact exchanges_of_held_eq rfl
  | false =>
    intro n hm _ _
    refine (represents_makeSuppressor hm (hfits hs)).congr fun k => ?_
    rw [Hotkey.held_of_not_suppressing hs, List.count_nil, Nat.sub_zero]
    rfl

theorem exchanges_disableSuppression (h : Hotkey ρ ι) :
    Exchanges h m (h.disableSuppression m) := by
  unfold Hotkey.disableSuppression
  cases hs : h.suppressing with
  | true =>
    intro n hm hn _
    refine (represents_dropSuppressor hm hn h).congr fun k => ?_
    rw [Hotkey.held_of_suppressing hs]
    rfl
  | false =>
    refine exchanges_of_held_eq ?_
    rw [Hotkey.held_of_not_suppressing hs]
    rfl

theorem exchanges_getValue (isChild : ι → ι → Bool) (reading : ι → Rat) {h : Hotkey ρ ι}
    (hfits : h.suppressing = false → h.Fits m) :
    Exchanges h m (h.getValue isChild reading m).2 := by
  unfold Hotkey.getValue
  dsimp only
  split
  case isTrue =>
    split
    case isTrue => exact exchanges_of_held_eq rfl
    case isFalse =>
      exact @exchanges_enableSuppression _ _ _ m
        { h with isBlocked := h.blockedWhenPressed isChild reading m, pressed := true } hfits
  case isFalse => exact exchanges_disableSuppression h

theorem represents_updateReferences (hm : m.Represents n) (hn : NoneMissing n) {h : Hotkey ρ ι}
    (hfits : h.Fits m) (hs : h.suppressing = true) :
    (h.enableSuppression true m).2.Represents n := by
  have hmade := represents_makeSuppressor hm hfits
  have hnone : NoneMissing fun k => n k + h.suppressed.count k := by
    intro k hk
    have hcount := count_suppressed_of_missing h k hk
    dsimp only at hcount ⊢
    rw [hn k hk, hcount]
  have hdropped := represents_dropSuppressor hmade hnone h
  unfold Hotkey.enableSuppression
  rw [Bool.or_true, if_pos rfl]
  dsimp only
  rw [if_pos hs]
  exact hdropped.congr fun k => (Nat.add_sub_cancel ..).symm

theorem exchanges_updateReferences {h : Hotkey ρ ι} (env : ρ → Option ι)
    (hkeeps : h.suppressing = true → (h.updateReferences env).Fits m ∧
      (h.updateReferences env).suppressed.Perm h.suppressed) :
    Exchanges h m
      (if (h.updateReferences env).suppressing then (h.updateReferences env).enableSuppression true m
        else (h.updateReferences env, m)) := by
  cases hs : h.suppressing with
  | true =>
    have hs' : (h.updateReferences env).suppressing = true := hs
    obtain ⟨hfits, hperm⟩ := hkeeps hs
    rw [if_pos hs']
    intro n hm hn hle
    refine (represents_updateReferences hm hn hfits hs').congr fun k => ?_
    have hheld : ((h.updateReferences env).enableSuppression true m).1.held =
        (h.updateReferences env).suppressed := by
      unfold Hotkey.enableSuppression
      rw [Bool.or_true, if_pos rfl]
      rfl
    have hle' := hle k
    rw [Hotkey.held_of_suppressing hs] at hle' ⊢
    rw [hheld, hperm.count_eq k]
    exact Nat.sub_add_cancel hle'
  | false =>
    have hs' : (h.updateReferences env).suppressing = false := hs
    rw [if_neg (Bool.eq_false_iff.1 hs')]
    refine exchanges_of_held_eq ?_
    rw [Hotkey.held_of_not_suppressing hs, Hotkey.held_of_not_suppressing hs']

omit [DecidableEq ι] in
theorem sum_map_set {l : List (Hotkey ρ ι)} {i : Nat} {h : Hotkey ρ ι} (hget : l[i]? = some h)
    (h' : Hotkey ρ ι) (f : Hotkey ρ ι → Nat) :
    f h ≤ (l.map f).sum ∧ ((l.set i h').map f).sum = (l.map f).sum - f h + f h' := by
  induction l generalizing i with
  | nil => cases hget
  | cons g l ih =>
    cases i with
    | zero =>
      cases hget
      simp only [List.set_cons_zero, List.map_cons, List.sum_cons]
      omega
    | succ i =>
      obtain ⟨hle, hsum⟩ := ih hget
      simp only [List.set_cons_succ, List.map_cons, List.sum_cons, hsum]
      omega

omit [DecidableEq ι] in
theorem sum_map_eraseIdx {l : List (Hotkey ρ ι)} {i : Nat} {h : Hotkey ρ ι}
    (hget : l[i]? = some h) (f : Hotkey ρ ι → Nat) :
    ((l.eraseIdx i).map f).sum = (l.map f).sum - f h := by
  induction l generalizing i with
  | nil => cases hget
  | cons g l ih =>
    cases i with
    | zero =>
      cases hget
      simp
    | succ i =>
      have hle := (sum_map_set (i := i) hget h f).1
      simp only [List.eraseIdx_cons_succ, List.map_cons, List.sum_cons, ih hget]
      omega

theorem total_eq_zero {s : State ρ ι} {k : Suppression ι} :
    total s k = 0 ↔ ∀ h ∈ s.hotkeys, h.held.count k = 0 := by
  rw [total, List.sum_eq_zero_iff_forall_eq_nat, List.forall_mem_map]

theorem noneMissing_total (s : State ρ ι) : NoneMissing (total s) := by
  intro k hk
  refine total_eq_zero.2 fun h _ => ?_
  have hcount := count_suppressed_of_missing h k hk
  exact Nat.le_zero.1 (hcount ▸ count_held_le h k)

/-! ### Steps and runs -/

structure Counted (s : State ρ ι) : Prop where
  represents : s.suppressions.Represents (total s)
  pressed : ∀ h ∈ s.hotkeys, h.suppressing = true → h.pressed = true

theorem Counted.onHotkey {s s' : State ρ ι} {index : Nat}
    {f : Hotkey ρ ι → Suppressions ι → Hotkey ρ ι × Suppressions ι} (hs : Counted s)
    (hstep : s.onHotkey index f = some s')
    (hexchanges : ∀ h, s.hotkeys[index]? = some h → Exchanges h s.suppressions (f h s.suppressions))
    (hpressed : ∀ h, s.hotkeys[index]? = some h → (h.suppressing = true → h.pressed = true) →
      (f h s.suppressions).1.suppressing = true → (f h s.suppressions).1.pressed = true) :
    Counted s' := by
  obtain ⟨h, hget, rfl⟩ := Option.map_eq_some_iff.1 hstep
  constructor
  · have hle : ∀ k, h.held.count k ≤ total s k := fun k =>
      (sum_map_set hget h fun h => h.held.count k).1
    refine (hexchanges h hget _ hs.represents (noneMissing_total s) hle).congr fun k => ?_
    exact (sum_map_set hget _ fun h => h.held.count k).2
  · intro g hg
    rcases List.mem_or_eq_of_mem_set hg with hg | rfl
    · exact hs.pressed g hg
    · exact hpressed h hget (hs.pressed h (List.mem_of_getElem? hget))

theorem getValue_pressed (isChild : ι → ι → Bool) (reading : ι → Rat) (h : Hotkey ρ ι)
    (hs : (h.getValue isChild reading m).2.1.suppressing = true) :
    (h.getValue isChild reading m).2.1.pressed = true := by
  unfold Hotkey.getValue at hs ⊢
  dsimp only at hs ⊢
  split
  case isTrue =>
    split
    case isTrue => rfl
    case isFalse =>
      unfold Hotkey.enableSuppression
      split
      · rfl
      · rfl
  case isFalse hnot =>
    rw [if_neg hnot] at hs
    cases hs

theorem counted_step {isChild : ι → ι → Bool} {s s' : State ρ ι} {a : Action ρ ι} (hs : Counted s)
    (hkeeps : Keeps s a) (hstep : step isChild s a = some s') : Counted s' := by
  cases a with
  | create modifiers finalInput =>
    cases hstep
    constructor
    · refine hs.represents.congr fun k => ?_
      simp [total, Hotkey.held]
    · intro h hh
      rcases List.mem_append.1 hh with hh | hh
      · exact hs.pressed h hh
      · rw [List.mem_singleton.1 hh]
        exact nofun
  | getValue index reading =>
    have hhotkey : s.onHotkey index (fun h m => (h.getValue isChild reading m).2) = some s' := hstep
    refine hs.onHotkey hhotkey (fun h hget => ?_) fun h _ _ => getValue_pressed isChild reading h
    exact exchanges_getValue isChild reading (hkeeps h hget)
  | updateReferences index env =>
    have hhotkey : s.onHotkey index (fun h m =>
        if (h.updateReferences env).suppressing then
          (h.updateReferences env).enableSuppression true m
        else (h.updateReferences env, m)) = some s' := hstep
    refine hs.onHotkey hhotkey (fun h hget => ?_) fun h _ hpressed => ?_
    · exact exchanges_updateReferences env (hkeeps h hget)
    · split
      case isTrue hsuppressing =>
        intro _
        unfold Hotkey.enableSuppression
        rw [Bool.or_true, if_pos rfl]
        exact hpressed hsuppressing
      case isFalse hnot => exact fun hsuppressing => absurd hsuppressing hnot
  | destroy index =>
    obtain ⟨h, hget, rfl⟩ := Option.map_eq_some_iff.1 hstep
    constructor
    · have hle : ∀ k, h.held.count k ≤ total s k := fun k =>
        (sum_map_set hget h fun h => h.held.count k).1
      have hdisabled := exchanges_disableSuppression h _ hs.represents (noneMissing_total s) hle
      refine hdisabled.congr fun k => ?_
      exact sum_map_eraseIdx hget fun h => h.held.count k
    · exact fun g hg => hs.pressed g (List.mem_of_mem_eraseIdx hg)

theorem counted_of_reachableBy {isChild : ι → ι → Bool} {s : State ρ ι}
    (h : (system isChild).ReachableBy Keeps s) : Counted s := by
  refine h.invariant ?_ fun s a s' hs hkeeps hstep => counted_step hs hkeeps hstep
  rintro s rfl
  exact ⟨CountMap.represents_empty, nofun⟩

theorem countP_held {l : List (Hotkey ρ ι)} (hnodup : ∀ h ∈ l, h.suppressed.Nodup)
    (k : Suppression ι) :
    (l.map fun h => h.held.count k).sum = l.countP fun h => h.held.contains k := by
  induction l with
  | nil => rfl
  | cons h l ih =>
    have hle : h.held.count k ≤ 1 := by
      have hone := List.nodup_iff_count_le_one.1 (hnodup h (List.mem_cons_self ..)) k
      exact Nat.le_trans (count_held_le h k) hone
    have hone : h.held.count k = if h.held.contains k then 1 else 0 := by
      by_cases hmem : k ∈ h.held
      · have hpos := List.count_pos_iff.2 hmem
        rw [if_pos (List.contains_iff_mem.2 hmem)]
        omega
      · rw [if_neg (mt List.contains_iff_mem.1 hmem)]
        exact List.count_eq_zero.2 hmem
    rw [List.map_cons, List.sum_cons, List.countP_cons, ih fun g hg =>
      hnodup g (List.mem_cons_of_mem _ hg), hone, Nat.add_comm]

theorem Counted.balanced {s : State ρ ι} (hs : Counted s) : Balanced s where
  level := hs.represents.level_eq
  level_eq_hotkeys := fun hnodup k => (hs.represents.level_eq k).trans (countP_held hnodup k)
  suppressed := by
    intro input hinput
    have hany := (hs.represents.any_iff fun k => decide (k.finalInput = input)).1 hinput
    obtain ⟨k, hpos, hk⟩ := hany
    obtain ⟨c, hc, hcount⟩ := List.sum_pos_iff_exists_pos_nat.1 hpos
    obtain ⟨h, hh, rfl⟩ := List.mem_map.1 hc
    have hmem : k ∈ h.held := List.count_pos_iff.1 hcount
    have hsuppressing : h.suppressing = true := by
      by_contra hnot
      rw [Hotkey.held_of_not_suppressing (Bool.not_eq_true _ ▸ hnot)] at hmem
      exact List.not_mem_nil hmem
    rw [Hotkey.held_of_suppressing hsuppressing] at hmem
    obtain ⟨c, -, rfl⟩ := List.mem_map.1 (List.mem_filter.1 hmem).1
    exact ⟨h, hh, of_decide_eq_true hk, hsuppressing, hs.pressed h hh hsuppressing⟩
  empty := by
    intro hnone
    refine hs.represents.entries_eq_nil fun k => total_eq_zero.2 fun h hh => ?_
    rw [Hotkey.held_of_not_suppressing (hnone h hh)]
    rfl

theorem perm_of_balanced {isChild : ι → ι → Bool} {s s' : State ρ ι} (hs : Counted s) {index : Nat}
    {h : Hotkey ρ ι} (hget : s.hotkeys[index]? = some h) (hsuppressing : h.suppressing = true)
    {env : ρ → Option ι} (hfits : (h.updateReferences env).Fits s.suppressions)
    (hstep : step isChild s (.updateReferences index env) = some s') (hbalanced : Balanced s') :
    (h.updateReferences env).suppressed.Perm h.suppressed := by
  have hsuppressing' : (h.updateReferences env).suppressing = true := hsuppressing
  rw [step, State.onHotkey, hget] at hstep
  cases hstep
  dsimp only at hbalanced
  rw [if_pos hsuppressing'] at hbalanced
  have hmap := represents_updateReferences hs.represents (noneMissing_total s) hfits hsuppressing'
  have hheld : ((h.updateReferences env).enableSuppression true s.suppressions).1.held =
      (h.updateReferences env).suppressed := by
    unfold Hotkey.enableSuppression
    rw [Bool.or_true, if_pos rfl]
    rfl
  refine List.perm_iff_count.2 fun k => ?_
  obtain ⟨hle, hsum⟩ := sum_map_set hget
    ((h.updateReferences env).enableSuppression true s.suppressions).1 fun h => h.held.count k
  have hlevel := (hmap.level_eq k).symm.trans (hbalanced.level k)
  rw [total, total] at hlevel
  dsimp only at hle hsum hlevel
  rw [hsum, hheld, Hotkey.held_of_suppressing hsuppressing] at hlevel
  rw [Hotkey.held_of_suppressing hsuppressing] at hle
  omega

/-- In every run whose updates find the inputs of the suppressing hotkeys again, the map has exactly
    the suppressions of the live hotkeys. An update that finds others breaks this. -/
theorem suppressions_balanced {isChild : ι → ι → Bool} {s : State ρ ι}
    (hs : (system isChild).ReachableBy Keeps s) :
    Balanced s ∧
    ∀ index env s', ∀ h ∈ s.hotkeys[index]?, h.suppressing = true →
      (h.updateReferences env).Fits s.suppressions →
      step isChild s (.updateReferences index env) = some s' →
      (Balanced s' ↔ (h.updateReferences env).suppressed.Perm h.suppressed) := by
  have hcounted := counted_of_reachableBy hs
  refine ⟨hcounted.balanced, fun index env s' h hget hsuppressing hfits hstep => ⟨?_, ?_⟩⟩
  · exact perm_of_balanced hcounted hget hsuppressing hfits hstep
  · intro hperm
    have hkeeps : Keeps s (.updateReferences index env) := by
      intro g hg _
      rw [Option.mem_def.1 hget] at hg
      cases hg
      exact ⟨hfits, hperm⟩
    exact (counted_step hcounted hkeeps hstep).balanced

end

/-! ### Runs -/

def createHotkey : Action Nat Nat := .create [{ qualifier := 0 }] { qualifier := 1 }

def bothPressed : Nat → Rat := fun _ => 1

def nonePressed : Nat → Rat := fun _ => 0

def newState : State Nat Nat := { suppressions := CountMap.empty, hotkeys := [] }

def createdState : State Nat Nat :=
  { newState with hotkeys := [{ modifiers := [{ qualifier := 0 }], finalInput := { qualifier := 1 } }] }

def resolvedState : State Nat Nat :=
  { newState with hotkeys := createdState.hotkeys.map (·.updateReferences some) }

def activeState : State Nat Nat where
  suppressions := ⟨[(⟨some 1, some 0⟩, 1#16)], List.nodup_singleton _⟩
  hotkeys := resolvedState.hotkeys.map fun h => { h with suppressing := true, pressed := true }

theorem suppressions_balanced_active :
    Balanced activeState ∧
    ∀ index env s', ∀ h ∈ activeState.hotkeys[index]?, h.suppressing = true →
      (h.updateReferences env).Fits activeState.suppressions →
      step (fun _ _ => false) activeState (.updateReferences index env) = some s' →
      (Balanced s' ↔ (h.updateReferences env).suppressed.Perm h.suppressed) := by
  have hresolves : Keeps createdState (.updateReferences 0 some) := by
    intro h hget hsuppressing
    cases hget
    cases hsuppressing
  have hfits : Keeps resolvedState (.getValue 0 bothPressed) := by
    intro h hget _ k
    cases hget
    have hcount : [(⟨some 1, some 0⟩ : Suppression Nat)].count k ≤ 1 := List.count_le_length
    exact Nat.lt_of_le_of_lt (Nat.add_le_add (Nat.le_refl 0) hcount) (by decide)
  have hcreated : (system fun _ _ => false).ReachableBy Keeps createdState :=
    .step (s := newState) (a := createHotkey) (.init rfl) trivial rfl
  have hresolved : (system fun _ _ => false).ReachableBy Keeps resolvedState :=
    hcreated.step hresolves rfl
  exact suppressions_balanced (hresolved.step hfits rfl)

/-- The inputs are replaced while the hotkey suppresses, and then released: a suppression stays. -/
theorem suppressions_balanced_fails :
    ∃ s : State Nat Nat,
      (system fun _ _ => false).run newState
        [createHotkey, .updateReferences 0 some, .getValue 0 bothPressed,
          .updateReferences 0 fun q => some (q + 2), .getValue 0 nonePressed] = some s ∧
      (∀ h ∈ s.hotkeys, h.suppressing = false) ∧
      isSuppressed s.suppressions (some 1) = true ∧ ¬ Balanced s := by
  refine ⟨_, rfl, by decide, by decide, fun h => ?_⟩
  exact absurd (h.empty (by decide)) (List.cons_ne_nil _ _)

end DolphinXR.ExpressionParser
