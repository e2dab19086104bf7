import Mathlib.Data.Set.Insert
import Mathlib.Tactic.Tauto
import DolphinXR.Lib.Transition

/- Tasks that run side by side on a shared memory and wait for one another, as
   functions given to `std::async` do. A task is a list of instructions, each a write
   of one location or a wait for another task, and one thread launches the tasks in
   order. `Computes` is a rule for the body of a task in the manner of Hoare: the
   writes give the values of a fixed valuation, if what they read has them, and a
   wait brings what the other task is known to have written. From it the memory is
   the same for every order of the steps, and where a task waits only for earlier
   ones, no run gets stuck. -/
namespace DolphinXR.Lib

inductive Instr (Loc V : Type) where
  | write (l : Loc) (f : (Loc → V) → V)
  | wait (task : Nat)

structure TaskState (Loc V : Type) where
  mem : Loc → V
  /-- What each task has yet to do. -/
  rest : Nat → List (Instr Loc V)
  launched : Nat

inductive TaskAction where
  | launch
  | step (task : Nat)

namespace Tasks
variable {Loc V : Type}

def Finished (s : TaskState Loc V) (i : Nat) : Prop := i < s.launched ∧ s.rest i = []

instance (s : TaskState Loc V) (i : Nat) : Decidable (Finished s i) :=
  inferInstanceAs (Decidable (i < s.launched ∧ s.rest i = []))

section Steps
variable [DecidableEq Loc]

/-- The next instruction of a task, of which `rest` is left behind it. -/
def execute (s : TaskState Loc V) (i : Nat) (rest : List (Instr Loc V)) :
    Instr Loc V → Option (TaskState Loc V)
  | .write l f =>
    some { s with mem := Function.update s.mem l (f s.mem), rest := Function.update s.rest i rest }
  | .wait j => if Finished s j then some { s with rest := Function.update s.rest i rest } else none

def stepTask (s : TaskState Loc V) (i : Nat) : Option (TaskState Loc V) :=
  match s.rest i with
  | [] => none
  | instr :: rest => execute s i rest instr

def step (n : Nat) (s : TaskState Loc V) : TaskAction → Option (TaskState Loc V)
  | .launch => if s.launched < n then some { s with launched := s.launched + 1 } else none
  | .step i => if i < s.launched then stepTask s i else none

/-- `n` tasks, on a memory with the given first content. -/
def system (n : Nat) (prog : Nat → List (Instr Loc V)) (mem : Loc → V) :
    System (TaskState Loc V) TaskAction where
  init s := s = ⟨mem, prog, 0⟩
  step := step n

variable {n : Nat} {s s' : TaskState Loc V}

theorem step_cases {a : TaskAction} (h : step n s a = some s') :
    (s.launched < n ∧ s' = { s with launched := s.launched + 1 }) ∨
      ∃ i rest, s'.launched = s.launched ∧ s'.rest = Function.update s.rest i rest ∧
        ((∃ l f, s.rest i = .write l f :: rest ∧ s'.mem = Function.update s.mem l (f s.mem)) ∨
          ∃ j, s.rest i = .wait j :: rest ∧ s'.mem = s.mem ∧ Finished s j) := by
  cases a with
  | launch =>
    simp only [step] at h
    split at h
    case isTrue hlt => exact .inl ⟨hlt, (Option.some.inj h).symm⟩
    case isFalse => cases h
  | step i =>
    simp only [step] at h
    split at h
    · unfold stepTask at h
      cases hrest : s.rest i with
      | nil => simp [hrest] at h
      | cons instr rest =>
        simp only [hrest] at h
        cases instr with
        | write l f =>
          obtain rfl := Option.some.inj h
          exact .inr ⟨i, rest, rfl, rfl, .inl ⟨l, f, hrest, rfl⟩⟩
        | wait j =>
          simp only [execute] at h
          split at h
          case isTrue hfinished =>
            obtain rfl := Option.some.inj h
            exact .inr ⟨i, rest, rfl, rfl, .inr ⟨j, hrest, rfl, hfinished⟩⟩
          case isFalse => cases h
    · cases h

end Steps

/-! ### What the tasks write -/

section Values
variable (val : Loc → V) (post : Nat → Set Loc)

/-- The memory has the values of `val` at the locations. -/
def AgreesOn (settled : Set Loc) (m : Loc → V) : Prop := ∀ l ∈ settled, m l = val l

/-- With `settled` written, the instructions write values of `val`, and at their end `done`
    is written. -/
def Computes (done : Set Loc) : Set Loc → List (Instr Loc V) → Prop
  | settled, [] => done ⊆ settled
  | settled, .write l f :: rest =>
    (∀ m, AgreesOn val settled m → f m = val l) ∧ Computes done (insert l settled) rest
  | settled, .wait j :: rest => Computes done (settled ∪ post j) rest

variable {val post} {done : Set Loc}

theorem Computes.writes {ι : Type} {loc : ι → Loc} {f : ι → (Loc → V) → V}
    {rest : List (Instr Loc V)} : ∀ {xs : List ι} {settled : Set Loc},
    (∀ x ∈ xs, ∀ m, AgreesOn val settled m → f x m = val (loc x)) →
    Computes val post done (settled ∪ {l | ∃ x ∈ xs, l = loc x}) rest →
    Computes val post done settled (xs.map (fun x => .write (loc x) (f x)) ++ rest)
  | [], settled, _, hrest => by simpa using hrest
  | x :: xs, settled, hf, hrest => by
    refine ⟨hf x (List.mem_cons_self ..), Computes.writes (fun y hy m hm => ?_) ?_⟩
    · exact hf y (List.mem_cons_of_mem _ hy) m fun l hl => hm l (.inr hl)
    · have hset : settled ∪ {l | ∃ y ∈ x :: xs, l = loc y} =
          insert (loc x) settled ∪ {l | ∃ y ∈ xs, l = loc y} := by
        apply Set.ext
        intro l
        simp only [Set.mem_union, Set.mem_insert_iff, Set.mem_ofPred_eq, List.mem_cons, exists_eq_or_imp]
        tauto
      rwa [hset] at hrest

theorem Computes.mono : ∀ {l : List (Instr Loc V)} {settled settled' : Set Loc},
    settled ⊆ settled' → Computes val post done settled l → Computes val post done settled' l
  | [], _, _, hsub, h => h.trans hsub
  | .write _ _ :: _, _, _, hsub, h =>
    ⟨fun m hm => h.1 m fun l hl => hm l (hsub hl), h.2.mono (Set.insert_subset_insert hsub)⟩
  | .wait _ :: rest, _, _, hsub, h => Computes.mono (l := rest) (Set.union_subset_union_left _ hsub) h

theorem Computes.waits {rest : List (Instr Loc V)} : ∀ {xs : List Nat} {settled : Set Loc},
    Computes val post done (settled ∪ {l | ∃ j ∈ xs, l ∈ post j}) rest →
    Computes val post done settled (xs.map .wait ++ rest)
  | [], settled, hrest => by simpa using hrest
  | j :: xs, settled, hrest => by
    have hset : settled ∪ {l | ∃ k ∈ j :: xs, l ∈ post k} =
        settled ∪ post j ∪ {l | ∃ k ∈ xs, l ∈ post k} := by
      apply Set.ext
      intro l
      simp only [Set.mem_union, Set.mem_ofPred_eq, List.mem_cons, exists_eq_or_imp]
      tauto
    rw [hset] at hrest
    have htail : Computes val post done (settled ∪ post j) (xs.map .wait ++ rest) :=
      Computes.waits hrest
    exact htail

variable {prog : Nat → List (Instr Loc V)} {mem : Loc → V} {s : TaskState Loc V}

/-- What is known in the middle of a run: each task has written some locations, and with
    these the rest of it computes what it is for. A location holds its value or what it
    held at first. -/
structure Inv (val : Loc → V) (post : Nat → Set Loc) (mem : Loc → V) (s : TaskState Loc V) :
    Prop where
  computes : ∀ i, ∃ settled, AgreesOn val settled s.mem ∧
    Computes val post (post i) settled (s.rest i)
  mem_or : ∀ l, s.mem l = val l ∨ s.mem l = mem l

theorem Inv.finished {i : Nat} (h : Inv val post mem s) (hfinished : Finished s i) :
    AgreesOn val (post i) s.mem := by
  obtain ⟨settled, hagrees, hcomputes⟩ := h.computes i
  rw [hfinished.2] at hcomputes
  exact fun l hl => hagrees l (hcomputes hl)

variable [DecidableEq Loc] {n : Nat} {s' : TaskState Loc V}

theorem AgreesOn.update {settled : Set Loc} {m : Loc → V} (h : AgreesOn val settled m) {l : Loc}
    {v : V} (hv : v = val l) : AgreesOn val settled (Function.update m l v) := by
  intro l' hl'
  by_cases heq : l' = l
  · rw [heq, Function.update_self, hv]
  · rw [Function.update_of_ne heq]
    exact h l' hl'

theorem Inv.step {a : TaskAction} (h : Inv val post mem s) (hstep : step n s a = some s') :
    Inv val post mem s' := by
  rcases step_cases hstep with ⟨-, rfl⟩ | ⟨i, rest, -, hrest, ⟨l, f, hi, hmem⟩ | ⟨j, hi, hmem, hj⟩⟩
  · exact ⟨h.computes, h.mem_or⟩
  · obtain ⟨settled, hagrees, hcomputes⟩ := h.computes i
    rw [hi] at hcomputes
    obtain ⟨hvalue, hcomputes⟩ := hcomputes
    have hv := hvalue s.mem hagrees
    refine ⟨fun k => ?_, fun l' => ?_⟩
    · by_cases hk : k = i
      · refine ⟨insert l settled, ?_, ?_⟩
        · rw [hmem]
          rintro l' (rfl | hl')
          · rw [Function.update_self, hv]
          · exact hagrees.update hv l' hl'
        · rw [hrest, hk, Function.update_self]
          exact hcomputes
      · obtain ⟨settled, hagrees, hcomputes⟩ := h.computes k
        refine ⟨settled, ?_, ?_⟩
        · rw [hmem]
          exact hagrees.update hv
        · rw [hrest, Function.update_of_ne hk]
          exact hcomputes
    · rw [hmem]
      by_cases hl : l' = l
      · rw [hl, Function.update_self]
        exact .inl hv
      · rw [Function.update_of_ne hl]
        exact h.mem_or l'
  · refine ⟨fun k => ?_, by rw [hmem]; exact h.mem_or⟩
    rw [hmem, hrest]
    by_cases hk : k = i
    · obtain ⟨settled, hagrees, hcomputes⟩ := h.computes i
      rw [hi] at hcomputes
      refine ⟨settled ∪ post j, ?_, ?_⟩
      · rintro l (hl | hl)
        · exact hagrees l hl
        · exact h.finished hj l hl
      · rw [hk, Function.update_self]
        exact hcomputes
    · rw [Function.update_of_ne hk]
      exact h.computes k

variable (hprog : ∀ i, Computes val post (post i) ∅ (prog i))
include hprog

theorem Reachable.inv (h : (system n prog mem).Reachable s) : Inv val post mem s := by
  refine h.invariant ?_ fun s a s' _ hinv hstep => hinv.step hstep
  rintro s rfl
  exact ⟨fun i => ⟨∅, fun l hl => hl.elim, hprog i⟩, fun l => .inr rfl⟩

theorem Reachable.mem_of_finished (h : (system n prog mem).Reachable s) {i : Nat}
    (hfinished : Finished s i) {l : Loc} (hl : l ∈ post i) : s.mem l = val l :=
  (Reachable.inv hprog h).finished hfinished l hl

theorem Reachable.mem_or (h : (system n prog mem).Reachable s) (l : Loc) :
    s.mem l = val l ∨ s.mem l = mem l :=
  (Reachable.inv hprog h).mem_or l

end Values

/-! ### Every run can be completed -/

section Progress
variable [DecidableEq Loc] {n : Nat} {prog : Nat → List (Instr Loc V)} {mem : Loc → V}
variable {s s' : TaskState Loc V}

/-- The waits of task `i` are for tasks of smaller number. -/
def WaitsBack (i : Nat) (instrs : List (Instr Loc V)) : Prop :=
  ∀ j, Instr.wait j ∈ instrs → j < i

theorem Reachable.waitsBack (hback : ∀ i, WaitsBack i (prog i))
    (h : (system n prog mem).Reachable s) : s.launched ≤ n ∧ ∀ i, WaitsBack i (s.rest i) := by
  refine h.invariant (P := fun s => s.launched ≤ n ∧ ∀ i, WaitsBack i (s.rest i)) ?_ ?_
  · rintro s rfl
    exact ⟨Nat.zero_le _, hback⟩
  · rintro s a s' - ⟨hle, hwaits⟩ hstep
    -- What is left of a task has no waits but those it had before.
    have hrest : ∀ i instr rest, s.rest i = instr :: rest →
        ∀ k, WaitsBack k (Function.update s.rest i rest k) := by
      intro i instr rest hi k
      by_cases hk : k = i
      · subst hk
        rw [Function.update_self]
        exact fun j hj => hwaits k j (hi ▸ List.mem_cons_of_mem _ hj)
      · rw [Function.update_of_ne hk]
        exact hwaits k
    rcases step_cases hstep with
      ⟨hlt, rfl⟩ | ⟨i, rest, hlaunched, hrest', ⟨l, f, hi, -⟩ | ⟨j, hi, -, -⟩⟩
    · exact ⟨hlt, hwaits⟩
    · rw [hlaunched, hrest']
      exact ⟨hle, hrest i _ rest hi⟩
    · rw [hlaunched, hrest']
      exact ⟨hle, hrest i _ rest hi⟩

theorem Reachable.launch_all : ∀ (left : Nat) {s : TaskState Loc V}, s.launched + left = n →
    (system n prog mem).Reachable s →
    ∃ s', (system n prog mem).Reachable s' ∧ s'.launched = n ∧ s'.rest = s.rest
  | 0, s, hleft, h => ⟨s, h, hleft, rfl⟩
  | left + 1, s, hleft, h => by
    obtain ⟨s', h', hlaunched, hrest⟩ := Reachable.launch_all left
      (s := { s with launched := s.launched + 1 }) (by simp only; omega)
      (h.step (a := .launch) (if_pos (by omega)))
    exact ⟨s', h', hlaunched, hrest⟩

theorem Reachable.run_task {i : Nat} : ∀ (instrs : List (Instr Loc V)) {s : TaskState Loc V},
    s.rest i = instrs → i < s.launched → (∀ j, Instr.wait j ∈ instrs → j ≠ i ∧ Finished s j) →
    (system n prog mem).Reachable s →
    ∃ s', (system n prog mem).Reachable s' ∧ s'.launched = s.launched ∧
      s'.rest = Function.update s.rest i []
  | [], s, hi, _, _, h => ⟨s, h, rfl, by rw [← hi, Function.update_eq_self]⟩
  | instr :: rest, s, hi, hlt, hwaits, h => by
    obtain ⟨t, hstep, hlaunched, hrest⟩ : ∃ t, step n s (.step i) = some t ∧
        t.launched = s.launched ∧ t.rest = Function.update s.rest i rest := by
      simp only [step, if_pos hlt, stepTask, hi]
      cases instr with
      | write l f => exact ⟨_, rfl, rfl, rfl⟩
      | wait j =>
        have hj := (hwaits j (List.mem_cons_self ..)).2
        exact ⟨_, if_pos hj, rfl, rfl⟩
    have hfinished : ∀ j, Instr.wait j ∈ rest → j ≠ i ∧ Finished t j := by
      intro j hj
      obtain ⟨hne, hlaunchedj, hrestj⟩ := hwaits j (List.mem_cons_of_mem _ hj)
      refine ⟨hne, by omega, ?_⟩
      rw [hrest, Function.update_of_ne hne, hrestj]
    obtain ⟨s', h', hlaunched', hrest'⟩ := Reachable.run_task rest
      (by rw [hrest, Function.update_self]) (by omega) hfinished (h.step (a := .step i) hstep)
    exact ⟨s', h', hlaunched'.trans hlaunched, by rw [hrest', hrest, Function.update_idem]⟩

theorem Reachable.exists_finished (hback : ∀ i, WaitsBack i (prog i))
    (h : (system n prog mem).Reachable s) :
    ∃ s', (system n prog mem).Reachable s' ∧ ∀ i < n, Finished s' i := by
  obtain ⟨t, ht, hlaunched, -⟩ := Reachable.launch_all (n - s.launched)
    (by have := (Reachable.waitsBack hback h).1; omega) h
  -- One task after the other, in the order of their numbers.
  have hfirst : ∀ k ≤ n, ∃ s', (system n prog mem).Reachable s' ∧ s'.launched = n ∧
      ∀ i < k, Finished s' i := by
    intro k
    induction k with
    | zero => exact fun _ => ⟨t, ht, hlaunched, fun i hi => absurd hi (Nat.not_lt_zero i)⟩
    | succ k ih =>
      intro hk
      obtain ⟨u, hu, hlaunchedu, hfinished⟩ := ih (by omega)
      obtain ⟨s', h', hlaunched', hrest'⟩ := Reachable.run_task (u.rest k) rfl (by omega)
        (fun j hj => by
          have hlt := (Reachable.waitsBack hback hu).2 k j hj
          exact ⟨by omega, hfinished j hlt⟩) hu
      refine ⟨s', h', by omega, fun i hi => ⟨by omega, ?_⟩⟩
      rw [hrest']
      by_cases hik : i = k
      · rw [hik, Function.update_self]
      · rw [Function.update_of_ne hik]
        exact (hfinished i (by omega)).2
  obtain ⟨s', h', -, hfinished⟩ := hfirst n (Nat.le_refl n)
  exact ⟨s', h', hfinished⟩

end Progress

end Tasks
end DolphinXR.Lib
