/- Transition systems whose steps are labelled and computed: `step s a` is the
   state after the action `a`, or `none` where the action is not enabled. An
   invariant is proved once for the initial states and once for a step; `run`
   executes a list of actions, so that a state can be shown to be reachable by
   naming the actions that lead to it. -/
namespace DolphinXR.Lib

structure System (σ α : Type) where
  init : σ → Prop
  step : σ → α → Option σ

namespace System
variable {σ α : Type} (sys : System σ α)

inductive Reachable : σ → Prop where
  | init {s : σ} : sys.init s → Reachable s
  | step {s s' : σ} {a : α} : Reachable s → sys.step s a = some s' → Reachable s'

/-- What is reached by steps that meet a condition on the state before them and the action. -/
inductive ReachableBy (ok : σ → α → Prop) : σ → Prop where
  | init {s : σ} : sys.init s → ReachableBy ok s
  | step {s s' : σ} {a : α} : ReachableBy ok s → ok s a → sys.step s a = some s' →
    ReachableBy ok s'

def Stuck (s : σ) : Prop := ∀ a, sys.step s a = none

def run : σ → List α → Option σ
  | s, [] => some s
  | s, a :: rest => (sys.step s a).bind fun s' => run s' rest

/-- The same, as far as the actions pass a check. -/
def runIf (check : σ → α → Bool) : σ → List α → Option σ
  | s, [] => some s
  | s, a :: rest =>
    if check s a then (sys.step s a).bind fun s' => runIf check s' rest else none

variable {sys}

theorem Reachable.invariant {P : σ → Prop} (hinit : ∀ s, sys.init s → P s)
    (hstep : ∀ s a s', sys.Reachable s → P s → sys.step s a = some s' → P s') {s : σ}
    (h : sys.Reachable s) : P s := by
  induction h with
  | init h => exact hinit _ h
  | step hs hstep' ih => exact hstep _ _ _ hs ih hstep'

theorem ReachableBy.invariant {ok : σ → α → Prop} {P : σ → Prop} (hinit : ∀ s, sys.init s → P s)
    (hstep : ∀ s a s', P s → ok s a → sys.step s a = some s' → P s') {s : σ}
    (h : sys.ReachableBy ok s) : P s := by
  induction h with
  | init h => exact hinit _ h
  | step hs hok hstep' ih => exact hstep _ _ _ ih hok hstep'

theorem ReachableBy.mono {ok ok' : σ → α → Prop} {s : σ} (h : sys.ReachableBy ok s)
    (himp : ∀ s a, ok s a → ok' s a) : sys.ReachableBy ok' s := by
  induction h with
  | init h => exact .init h
  | step _ hok hstep ih => exact ih.step (himp _ _ hok) hstep

theorem ReachableBy.reachable {ok : σ → α → Prop} {s : σ} (h : sys.ReachableBy ok s) :
    sys.Reachable s := by
  induction h with
  | init h => exact .init h
  | step _ _ hstep ih => exact ih.step hstep

theorem Reachable.run {s s' : σ} {actions : List α} (h : sys.Reachable s)
    (hrun : sys.run s actions = some s') : sys.Reachable s' := by
  induction actions generalizing s with
  | nil => cases hrun; exact h
  | cons a rest ih =>
    obtain ⟨t, hstep, hrest⟩ := Option.bind_eq_some_iff.1 hrun
    exact ih (h.step hstep) hrest

theorem ReachableBy.run {ok : σ → α → Prop} {s s' : σ} {actions : List α}
    (h : sys.ReachableBy ok s) (hok : ∀ a ∈ actions, ∀ s, ok s a)
    (hrun : sys.run s actions = some s') : sys.ReachableBy ok s' := by
  induction actions generalizing s with
  | nil => cases hrun; exact h
  | cons a rest ih =>
    obtain ⟨t, hstep, hrest⟩ := Option.bind_eq_some_iff.1 hrun
    exact ih (h.step (hok a (List.mem_cons_self ..) s) hstep)
      (fun b hb => hok b (List.mem_cons_of_mem _ hb)) hrest

theorem ReachableBy.runIf_keeping {ok : σ → α → Prop} {check : σ → α → Bool} {P : σ → Prop}
    {s s' : σ} {actions : List α} (h : sys.ReachableBy ok s) (hs : P s)
    (hcheck : ∀ s a, P s → check s a = true → ok s a)
    (hstep : ∀ s a s', P s → check s a = true → sys.step s a = some s' → P s')
    (hrun : sys.runIf check s actions = some s') : sys.ReachableBy ok s' ∧ P s' := by
  induction actions generalizing s with
  | nil => cases hrun; exact ⟨h, hs⟩
  | cons a rest ih =>
    rw [System.runIf, Option.ite_none_right_eq_some] at hrun
    obtain ⟨t, ha, hrest⟩ := Option.bind_eq_some_iff.1 hrun.2
    exact ih (h.step (hcheck s a hs hrun.1) ha) (hstep s a t hs hrun.1 ha) hrest

theorem ReachableBy.runIf {ok : σ → α → Prop} {check : σ → α → Bool} {s s' : σ}
    {actions : List α} (h : sys.ReachableBy ok s) (hcheck : ∀ s a, check s a = true → ok s a)
    (hrun : sys.runIf check s actions = some s') : sys.ReachableBy ok s' :=
  (h.runIf_keeping (P := fun _ => True) trivial (fun s a _ => hcheck s a)
    (fun _ _ _ _ _ _ => trivial) hrun).1

theorem run_frame {β : Type} {s s' : σ} {actions : List α} (f : σ → β)
    (hrun : sys.run s actions = some s')
    (hstep : ∀ a ∈ actions, ∀ t t', sys.step t a = some t' → f t' = f t) : f s' = f s := by
  induction actions generalizing s with
  | nil => cases hrun; rfl
  | cons a rest ih =>
    obtain ⟨t, ha, hrest⟩ := Option.bind_eq_some_iff.1 hrun
    calc f s' = f t := ih hrest fun b hb => hstep b (List.mem_cons_of_mem _ hb)
      _ = f s := hstep a (List.mem_cons_self ..) s t ha

theorem run_eval {β : Type} {s s' : σ} {actions : List α} (hrun : sys.run s actions = some s')
    (f : σ → β) {b : β} (h : (sys.run s actions).map f = some b) : f s' = b := by
  rw [hrun] at h
  exact Option.some.inj h

end System
end DolphinXR.Lib
