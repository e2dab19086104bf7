import DolphinXR.Core.MemoryPatchFrames

/- What the debugger's patches leave in memory. A one-time patch is an exchange of its bytes with
   memory, so that those enabled form a stack: taken off from the top they bring back the memory
   from before, and one further down only where no patch above it has one of its cells.

   What is proved: in a run whose one-time patches are disabled, removed and cleared in such an
   order, memory is as it was before the first when none is left; a run in which the patch engine's
   list stays right writes, at a frame, what the enabled frame patches cover. -/
namespace DolphinXR.Debug
open Lib

section
variable {κ : Type} [DecidableEq κ] (locate : Address → Option κ)

def locatedBytes : Bytes → Address → List (Option κ × UInt8)
  | [], _ => []
  | v :: rest, address => (locate address, v) :: locatedBytes rest (address + 1)

def MemoryPatch.located (p : MemoryPatch) : List (Option κ × UInt8) :=
  if hostIsRAMAddress locate p.address then locatedBytes locate p.value p.address else []

theorem applyBytes_eq (value : Bytes) (address : Address) (memory : κ → UInt8) :
    (applyBytes locate true value address memory).2 =
        (exchange 0 (locatedBytes locate value address) memory).2 ∧
      locatedBytes locate (applyBytes locate true value address memory).1 address =
        (exchange 0 (locatedBytes locate value address) memory).1 := by
  induction value generalizing address memory with
  | nil => exact ⟨rfl, rfl⟩
  | cons v rest ih =>
    cases hcell : locate address with
    | none =>
      have hread : hostRead locate address memory = 0 := by simp [hostRead, hcell]
      have hwrite : hostWrite locate v address memory = memory := by simp [hostWrite, hcell]
      obtain ⟨hmemory, hvalue⟩ := ih (address + 1) memory
      simp only [applyBytes, hread, hwrite, if_true, locatedBytes, hcell, exchange]
      by_cases hv : (0 : UInt8) = v
      · rw [if_neg (not_not_intro hv)]
        simp only [locatedBytes, hcell]
        exact ⟨hmemory, by rw [hvalue, ← hv]⟩
      · rw [if_pos hv]
        simp only [locatedBytes, hcell]
        exact ⟨hmemory, by rw [hvalue]⟩
    | some c =>
      have hread : hostRead locate address memory = memory c := by simp [hostRead, hcell]
      have hwrite : hostWrite locate v address memory = Function.update memory c v := by
        simp [hostWrite, hcell]
      obtain ⟨hmemory, hvalue⟩ := ih (address + 1) (Function.update memory c v)
      simp only [applyBytes, hread, hwrite, if_true, locatedBytes, hcell, exchange]
      by_cases hv : memory c = v
      · -- Where the bytes are equal nothing is written, and nothing would change.
        have hsame : Function.update memory c v = memory := by
          rw [← hv, Function.update_eq_self]
        rw [hsame] at hmemory hvalue
        rw [if_neg (not_not_intro hv)]
        simp only [locatedBytes, hcell, hsame]
        exact ⟨hmemory, by rw [hvalue, ← hv]⟩
      · rw [if_pos hv]
        simp only [locatedBytes, hcell]
        exact ⟨hmemory, by rw [hvalue]⟩

theorem applyMemoryPatch_eq (p : MemoryPatch) (memory : κ → UInt8) :
    let r := applyMemoryPatch locate p.value p.address true memory
    r.2 = (exchange 0 (p.located locate) memory).2 ∧
      ({ p with value := r.1 } : MemoryPatch).located locate =
        (exchange 0 (p.located locate) memory).1 := by
  obtain ⟨hmemory, hvalue⟩ := applyBytes_eq locate p.value p.address memory
  unfold applyMemoryPatch MemoryPatch.located
  cases hram : hostIsRAMAddress locate p.address with
  | false => simp [hram, exchange]
  | true =>
    cases hempty : p.value with
    | nil => simp [locatedBytes, exchange]
    | cons v rest =>
      rw [hempty] at hmemory hvalue
      simp [hram, hmemory, hvalue]

namespace Debugger

def exchangeAt (s : Debugger κ) (index : Nat) : List (Option κ × UInt8) :=
  ((s.patches[index]?).map (MemoryPatch.located locate)).getD []

/-- Of the enabled one-time patches, none that was enabled after the patch has one of its cells. -/
def OnTop (s : Debugger κ) (applied : List Nat) (index : Nat) : Prop :=
  ∀ above below, applied = above ++ index :: below → ∀ j ∈ above,
    List.Disjoint (cells (s.exchangeAt locate index)) (cells (s.exchangeAt locate j))

/-- The same of all patches that are enabled, when the first is disabled first. -/
def Clearable (s : Debugger κ) (applied : List Nat) : Prop :=
  applied.Pairwise fun j i => i < j →
    List.Disjoint (cells (s.exchangeAt locate i)) (cells (s.exchangeAt locate j))

/-- The enabled patches, the last one enabled first, undo to the memory `m₀`. -/
structure Undoable (m₀ : κ → UInt8) (s : Debugger κ) (applied : List Nat) : Prop where
  once : ∀ p ∈ s.patches, p.type = .once
  unlisted : s.onFrameMemory = []
  nodup : applied.Nodup
  mem : ∀ i, i ∈ applied ↔ (s.patches.map MemoryPatch.isEnabled)[i]? = some .enabled
  apart : ∀ i, (cells (s.exchangeAt locate i)).Nodup
  base : undone 0 (applied.map (s.exchangeAt locate)) s.memory = m₀

end Debugger

def dropIndex (index : Nat) (applied : List Nat) : List Nat :=
  (applied.filter (· ≠ index)).map fun j => if index < j then j - 1 else j

/-- A debugger, with the enabled one-time patches in the order in which they were enabled, the
    last first. -/
structure Session (κ : Type) where
  debugger : Debugger κ
  applied : List Nat := []

namespace Session

def unset (s : Session κ) (address : Address) : List Nat :=
  match s.debugger.find address with
  | none => s.applied
  | some index => dropIndex index s.applied

def appliedAfter (s : Session κ) : Action → List Nat
  | .setPatch _ _ => s.debugger.patches.length :: s.applied
  | .setPatchBytes address _ =>
    (s.debugger.unsetPatch locate address).patches.length :: s.unset address
  | .setFramePatch _ _ => s.applied
  | .setFramePatchBytes address _ => s.unset address
  | .unsetPatch address => s.unset address
  | .enablePatch index =>
    if (s.debugger.patches[index]?).any fun p => p.isEnabled = .disabled ∧ p.type = .once then
      index :: s.applied
    else s.applied
  | .disablePatch index => s.applied.filter (· ≠ index)
  | .removePatch index => dropIndex index s.applied
  | .clearPatches => []
  | .frame => s.applied

end Session

/-- The debugger from a memory that has no patches. -/
def session (m₀ : κ → UInt8) : System (Session κ) Action where
  init s := s = { debugger := { memory := m₀ } }
  step s a :=
    if a.Names s.debugger then some ⟨a.perform locate s.debugger, s.appliedAfter locate a⟩
    else none

/-- No patch has a cell twice, and patches are taken back in an order that undoes them. -/
def Action.OnceOk (s : Session κ) : Action → Prop
  | setPatch address value =>
    (cells (MemoryPatch.located locate { address, value := wordBytes value })).Nodup
  | setPatchBytes address value =>
    (cells (MemoryPatch.located locate { address, value })).Nodup ∧
      ∀ index, s.debugger.find address = some index → s.debugger.OnTop locate s.applied index
  | unsetPatch address =>
    ∀ index, s.debugger.find address = some index → s.debugger.OnTop locate s.applied index
  | disablePatch index => s.debugger.OnTop locate s.applied index
  | removePatch index => s.debugger.OnTop locate s.applied index
  | clearPatches => s.debugger.Clearable locate s.applied
  | _ => True

/-- The action sets no frame patch. -/
def Action.OneTime : Action → Prop
  | setFramePatch _ _ => False
  | setFramePatchBytes _ _ => False
  | _ => True

end

namespace Debugger
variable {κ : Type} {locate : Address → Option κ} {m₀ : κ → UInt8}

theorem exchangeAt_set {index : Nat} {s : Debugger κ} {p q : MemoryPatch}
    (h : s.patches[index]? = some p) (hq : q.located locate = p.located locate) (j : Nat) :
    exchangeAt locate { s with patches := s.patches.set index q } j = s.exchangeAt locate j := by
  obtain ⟨hlt, rfl⟩ := List.getElem?_eq_some_iff.1 h
  rcases eq_or_ne j index with rfl | hj
  · simp [exchangeAt, hlt, hq]
  · simp [exchangeAt, hj.symm]

theorem isEnabled_value (p : MemoryPatch) (value : Bytes) :
    ({ p with value } : MemoryPatch).isEnabled = p.isEnabled := rfl

theorem once_set {s : Debugger κ} (h : ∀ p ∈ s.patches, p.type = .once) {index : Nat}
    {q : MemoryPatch} (hq : q.type = .once) : ∀ p ∈ s.patches.set index q, p.type = .once := by
  intro p hp
  rcases List.mem_or_eq_of_mem_set hp with hmem | rfl
  · exact h p hmem
  · exact hq

theorem unPatch_once {s : Debugger κ} (h : ∀ p ∈ s.patches, p.type = .once) (index : Nat) :
    unPatch index s = s := by
  cases hp : s.patches[index]? with
  | none => simp only [unPatch, hp]
  | some p => simp only [unPatch, hp, h p (List.mem_of_getElem? hp)]

variable [DecidableEq κ]

/-! ### One patch -/

variable (locate) in
theorem exchangeAt_patch {index : Nat} {s : Debugger κ} {p : MemoryPatch}
    (h : s.patches[index]? = some p) (hp : p.type = .once) :
    (patch locate index s).memory = (exchange 0 (s.exchangeAt locate index) s.memory).2 ∧
      (patch locate index s).exchangeAt locate index =
        (exchange 0 (s.exchangeAt locate index) s.memory).1 ∧
      ∀ j, j ≠ index → (patch locate index s).exchangeAt locate j = s.exchangeAt locate j := by
  obtain ⟨hmemory, hvalue⟩ := applyMemoryPatch_eq locate p s.memory
  rw [patch_once h hp]
  obtain ⟨hlt, rfl⟩ := List.getElem?_eq_some_iff.1 h
  refine ⟨?_, ?_, fun j hj => ?_⟩
  · simpa [exchangeAt, hlt] using hmemory
  · simpa [exchangeAt, hlt] using hvalue
  · simp [exchangeAt, hj.symm]

theorem cells_patch {index : Nat} {s : Debugger κ} {p : MemoryPatch}
    (h : s.patches[index]? = some p) (hp : p.type = .once) (j : Nat) :
    cells ((patch locate index s).exchangeAt locate j) = cells (s.exchangeAt locate j) := by
  obtain ⟨-, hself, hother⟩ := exchangeAt_patch locate h hp
  rcases eq_or_ne j index with rfl | hj
  · rw [hself, cells_exchange]
  · rw [hother j hj]

theorem once_patch {index : Nat} {s : Debugger κ} (h : ∀ p ∈ s.patches, p.type = .once) :
    ∀ p ∈ (patch locate index s).patches, p.type = .once := by
  have htypes : ∀ t ∈ s.patches.map MemoryPatch.type, t = .once := by simpa using h
  rw [← map_patch locate type_value index s] at htypes
  simpa using htypes

theorem onFrameMemory_patch_once {index : Nat} {s : Debugger κ} {p : MemoryPatch}
    (h : s.patches[index]? = some p) (hp : p.type = .once) :
    (patch locate index s).onFrameMemory = s.onFrameMemory := by
  rw [onFrameMemory_patch h, if_neg (by simp [hp])]

theorem Undoable.push {index : Nat} {s : Debugger κ} {p : MemoryPatch} {applied : List Nat}
    (h : s.patches[index]? = some p) (once : ∀ p ∈ s.patches, p.type = .once)
    (unlisted : s.onFrameMemory = []) (nodup : (index :: applied).Nodup)
    (mem : ∀ i, i ∈ index :: applied ↔
      (s.patches.map MemoryPatch.isEnabled)[i]? = some .enabled)
    (apart : ∀ i, (cells (s.exchangeAt locate i)).Nodup)
    (base : undone 0 (applied.map (s.exchangeAt locate)) s.memory = m₀) :
    Undoable locate m₀ (patch locate index s) (index :: applied) := by
  have hp := once p (List.mem_of_getElem? h)
  obtain ⟨hmemory, hself, hother⟩ := exchangeAt_patch locate h hp
  have hrest : applied.map ((patch locate index s).exchangeAt locate) =
      applied.map (s.exchangeAt locate) :=
    List.map_congr_left fun j hj => hother j fun heq => (List.nodup_cons.1 nodup).1 (heq ▸ hj)
  refine ⟨once_patch once, (onFrameMemory_patch_once h hp).trans unlisted, nodup, ?_, ?_, ?_⟩
  · exact fun i => by rw [mem, map_patch locate isEnabled_value]
  · exact fun i => by rw [cells_patch h hp]; exact apart i
  · rw [List.map_cons, hself, hrest, hmemory, undone_push 0 (apart index), base]

theorem Undoable.pop {index : Nat} {s : Debugger κ} {p : MemoryPatch} {above below : List Nat}
    (h : s.patches[index]? = some p) (once : ∀ p ∈ s.patches, p.type = .once)
    (unlisted : s.onFrameMemory = []) (nodup : (above ++ index :: below).Nodup)
    (mem : ∀ i, i ∈ above ++ below ↔ (s.patches.map MemoryPatch.isEnabled)[i]? = some .enabled)
    (apart : ∀ i, (cells (s.exchangeAt locate i)).Nodup)
    (base : undone 0 ((above ++ index :: below).map (s.exchangeAt locate)) s.memory = m₀)
    (htop : ∀ j ∈ above,
      List.Disjoint (cells (s.exchangeAt locate index)) (cells (s.exchangeAt locate j))) :
    Undoable locate m₀ (patch locate index s) (above ++ below) := by
  have hp := once p (List.mem_of_getElem? h)
  obtain ⟨hmemory, -, hother⟩ := exchangeAt_patch locate h hp
  have hnodup := List.nodup_middle.1 nodup
  have hrest : (above ++ below).map ((patch locate index s).exchangeAt locate) =
      (above ++ below).map (s.exchangeAt locate) :=
    List.map_congr_left fun j hj => hother j fun heq => (List.nodup_cons.1 hnodup).1 (heq ▸ hj)
  refine ⟨once_patch once, (onFrameMemory_patch_once h hp).trans unlisted,
    (List.nodup_cons.1 hnodup).2, ?_, ?_, ?_⟩
  · exact fun i => by rw [mem, map_patch locate isEnabled_value]
  · exact fun i => by rw [cells_patch h hp]; exact apart i
  · rw [List.map_append, List.map_cons, undone_remove 0 (by simpa using htop)] at base
    rw [hrest, List.map_append, hmemory, base]

/-! ### Every operation -/

theorem Undoable.append {s : Debugger κ} {applied : List Nat} (h : Undoable locate m₀ s applied)
    {p : MemoryPatch} (hp : p.type = .once) (henabled : p.isEnabled = .enabled)
    (hcells : (cells (p.located locate)).Nodup) :
    Undoable locate m₀ (append locate p s) (s.patches.length :: applied) := by
  have hout : s.patches.length ∉ applied := by
    intro hmem
    have hat := (h.mem _).1 hmem
    simp at hat
  have hold : ∀ j, j < s.patches.length →
      exchangeAt locate { s with patches := s.patches ++ [p] } j = s.exchangeAt locate j := by
    intro j hj
    simp only [exchangeAt, List.getElem?_append_left hj]
  have hlt : ∀ j ∈ applied, j < s.patches.length := by
    intro j hj
    have hat := (List.getElem?_eq_some_iff.1 ((h.mem j).1 hj)).1
    simpa using hat
  refine Undoable.push (p := p) (by simp) ?_ h.unlisted ?_ ?_ ?_ ?_
  · simpa [or_imp, forall_and, hp] using h.once
  · exact List.nodup_cons.2 ⟨hout, h.nodup⟩
  · intro i
    have hmem := h.mem i
    rw [List.mem_cons, hmem, List.map_append, List.getElem?_append]
    split
    · next hi =>
      have hne : i ≠ s.patches.length := by simpa using Nat.ne_of_lt hi
      simp [hne]
    · next hi =>
      have hle : s.patches.length ≤ i := by simpa using hi
      have hnone : s.patches[i]? = none := List.getElem?_eq_none hle
      simp [hnone, List.getElem?_singleton, henabled]
      omega
  · intro i
    rcases Nat.lt_trichotomy i s.patches.length with hi | rfl | hi
    · rw [hold i hi]
      exact h.apart i
    · simpa [exchangeAt] using hcells
    · have hnone : (s.patches ++ [p])[i]? = none := List.getElem?_eq_none (by simp; omega)
      simp [exchangeAt, hnone, cells]
  · rw [List.map_congr_left fun j hj => hold j (hlt j hj)]
    exact h.base

theorem Undoable.isEnabled_of_not_mem {s : Debugger κ} {applied : List Nat}
    (h : Undoable locate m₀ s applied) {index : Nat} (hout : index ∉ applied) {p : MemoryPatch}
    (hp : s.patches[index]? = some p) : p.isEnabled = .disabled := by
  cases hs : p.isEnabled with
  | disabled => rfl
  | enabled => exact absurd ((h.mem index).2 (by simp [hp, hs])) hout

theorem Undoable.enablePatch {s : Debugger κ} {applied : List Nat}
    (h : Undoable locate m₀ s applied) {index : Nat} {p : MemoryPatch}
    (hp : s.patches[index]? = some p) (hdisabled : p.isEnabled = .disabled) :
    Undoable locate m₀ (enablePatch locate index s) (index :: applied) := by
  have hlt := (List.getElem?_eq_some_iff.1 hp).1
  have hout : index ∉ applied := by
    intro hmem
    have hat := (h.mem index).1 hmem
    simp [hp, hdisabled] at hat
  simp only [Debugger.enablePatch, switchTo, hp, hdisabled, reduceCtorEq, if_false]
  refine Undoable.push (p := { p with isEnabled := .enabled }) (by simp [hlt]) ?_ h.unlisted
    (List.nodup_cons.2 ⟨hout, h.nodup⟩) ?_ ?_ ?_
  · exact once_set h.once (h.once p (List.mem_of_getElem? hp))
  · intro i
    rw [List.mem_cons, h.mem, List.map_set, List.getElem?_set]
    rcases eq_or_ne i index with rfl | hi
    · simp [hlt]
    · simp [hi, hi.symm]
  · exact fun i => by rw [exchangeAt_set hp (by rfl)]; exact h.apart i
  · rw [List.map_congr_left fun j _ => exchangeAt_set hp (by rfl) j]
    exact h.base

theorem Undoable.disablePatch {s : Debugger κ} {applied : List Nat}
    (h : Undoable locate m₀ s applied) {index : Nat} (hlt : index < s.patches.length)
    (htop : s.OnTop locate applied index) :
    Undoable locate m₀ (disablePatch locate index s) (applied.filter (· ≠ index)) := by
  have hp : s.patches[index]? = some s.patches[index] := List.getElem?_eq_getElem hlt
  by_cases hmem : index ∈ applied
  · obtain ⟨above, below, rfl⟩ := List.append_of_mem hmem
    have hnodup := List.nodup_middle.1 h.nodup
    have hfilter : (above ++ index :: below).filter (· ≠ index) = above ++ below := by
      have hself : (above ++ below).filter (· ≠ index) = above ++ below := by
        rw [List.filter_eq_self]
        intro j hj
        simpa using fun heq : j = index => (List.nodup_cons.1 hnodup).1 (heq ▸ hj)
      rw [← hself]
      simp
    have henabled : s.patches[index].isEnabled = .enabled := by
      have hat := (h.mem index).1 hmem
      simpa [hp] using hat
    rw [hfilter]
    simp only [Debugger.disablePatch, switchTo, hp, henabled, reduceCtorEq, if_false]
    refine Undoable.pop (p := { s.patches[index] with isEnabled := .disabled }) (by simp [hlt]) ?_
      h.unlisted h.nodup ?_ ?_ ?_ ?_
    · exact once_set h.once (h.once s.patches[index] (List.mem_of_getElem? hp))
    · intro i
      have hi := h.mem i
      rw [List.mem_append, List.mem_cons] at hi
      rw [List.mem_append, List.map_set, List.getElem?_set]
      rcases eq_or_ne i index with rfl | hne
      · rw [List.nodup_cons, List.mem_append] at hnodup
        simp [hlt, hnodup.1]
      · simpa [hne, hne.symm] using hi
    · exact fun i => by rw [exchangeAt_set hp (by rfl)]; exact h.apart i
    · rw [List.map_congr_left fun j _ => exchangeAt_set hp (by rfl) j]
      exact h.base
    · intro j hj
      rw [exchangeAt_set hp (by rfl), exchangeAt_set hp (by rfl)]
      exact htop above below rfl j hj
  · have hfilter : applied.filter (· ≠ index) = applied := by
      rw [List.filter_eq_self]
      intro j hj
      simpa using fun heq : j = index => hmem (heq ▸ hj)
    rw [hfilter, Debugger.disablePatch, switchTo_same fun p hsome => h.isEnabled_of_not_mem hmem hsome]
    exact h

theorem Undoable.erase {s : Debugger κ} {applied : List Nat} (h : Undoable locate m₀ s applied)
    {index : Nat} (hout : index ∉ applied) :
    Undoable locate m₀ { s with patches := s.patches.eraseIdx index }
      (applied.map fun j => if index < j then j - 1 else j) := by
  have hback : ∀ j ∈ applied, (s.patches.eraseIdx index)[if index < j then j - 1 else j]? =
      s.patches[j]? := by
    intro j hj
    have hne : j ≠ index := fun heq => hout (heq ▸ hj)
    rw [List.getElem?_eraseIdx]
    split
    · next hlt => rw [if_neg (by omega), Nat.sub_add_cancel (by omega)]
    · next hle => rw [if_pos (by omega)]
  refine ⟨fun p hp => h.once p (List.mem_of_mem_eraseIdx hp), h.unlisted, ?_, fun i => ?_, ?_, ?_⟩
  · refine h.nodup.map_on fun j hj k hk heq => ?_
    have hj' : j ≠ index := fun heq => hout (heq ▸ hj)
    have hk' : k ≠ index := fun heq => hout (heq ▸ hk)
    split at heq <;> split at heq <;> omega
  · have hmem := h.mem (if i < index then i else i + 1)
    have hget : ((s.patches.eraseIdx index).map MemoryPatch.isEnabled)[i]? =
        (s.patches.map MemoryPatch.isEnabled)[if i < index then i else i + 1]? := by
      rw [List.getElem?_map, List.getElem?_map, List.getElem?_eraseIdx]
      split <;> rfl
    rw [hget, ← hmem, List.mem_map]
    constructor
    · rintro ⟨j, hj, rfl⟩
      have hne : j ≠ index := fun heq => hout (heq ▸ hj)
      have hj' : (if (if index < j then j - 1 else j) < index then (if index < j then j - 1 else j)
          else (if index < j then j - 1 else j) + 1) = j := by
        split <;> split <;> omega
      rwa [hj']
    · intro hi
      refine ⟨_, hi, ?_⟩
      split <;> split <;> omega
  · intro i
    have hget : exchangeAt locate { s with patches := s.patches.eraseIdx index } i =
        s.exchangeAt locate (if i < index then i else i + 1) := by
      simp only [exchangeAt, List.getElem?_eraseIdx]
      split <;> rfl
    rw [hget]
    exact h.apart _
  · have hsame : (applied.map fun j => if index < j then j - 1 else j).map
        (exchangeAt locate { s with patches := s.patches.eraseIdx index }) =
        applied.map (s.exchangeAt locate) := by
      rw [List.map_map]
      refine List.map_congr_left fun j hj => ?_
      simp only [Function.comp_apply, exchangeAt, hback j hj]
    rw [hsame]
    exact h.base

theorem Undoable.removePatch {s : Debugger κ} {applied : List Nat}
    (h : Undoable locate m₀ s applied) {index : Nat} (hlt : index < s.patches.length)
    (htop : s.OnTop locate applied index) :
    Undoable locate m₀ (removePatch locate index s) (dropIndex index applied) := by
  have hdisabled := h.disablePatch hlt htop
  simp only [Debugger.removePatch]
  rw [unPatch_once hdisabled.once]
  exact hdisabled.erase (by simp)

theorem Undoable.unsetPatch {s : Session κ} (h : Undoable locate m₀ s.debugger s.applied)
    {address : Address} (htop : ∀ index, s.debugger.find address = some index →
      s.debugger.OnTop locate s.applied index) :
    Undoable locate m₀ (unsetPatch locate address s.debugger) (s.unset address) := by
  cases hfind : s.debugger.find address with
  | none => simpa only [Debugger.unsetPatch, Session.unset, hfind] using h
  | some index =>
    simp only [Debugger.unsetPatch, Session.unset, hfind]
    exact h.removePatch (find_lt hfind) (htop index hfind)

theorem length_disablePatch (index : Nat) (s : Debugger κ) :
    (disablePatch locate index s).patches.length = s.patches.length := by
  have htypes := congrArg List.length (types_switchTo locate .disabled index s)
  simpa [types, Debugger.disablePatch] using htypes

theorem cells_disablePatch {index : Nat} {s : Debugger κ} (h : ∀ p ∈ s.patches, p.type = .once)
    (j : Nat) : cells ((disablePatch locate index s).exchangeAt locate j) =
      cells (s.exchangeAt locate j) := by
  cases hp : s.patches[index]? with
  | none => simp only [Debugger.disablePatch, switchTo, hp]
  | some p =>
    simp only [Debugger.disablePatch, switchTo, hp]
    split
    · rfl
    · have hlt := (List.getElem?_eq_some_iff.1 hp).1
      have honce := h p (List.mem_of_getElem? hp)
      rw [cells_patch (p := { p with isEnabled := .disabled }) (by simp [hlt]) honce,
        exchangeAt_set hp (by rfl)]

theorem Undoable.disableFirst {s : Debugger κ} {applied : List Nat}
    (h : Undoable locate m₀ s applied) (hclear : s.Clearable locate applied) {k : Nat}
    (hk : k ≤ s.patches.length) :
    let r := (List.range k).foldl
      (fun s index => unPatch index (Debugger.disablePatch locate index s)) s
    Undoable locate m₀ r (applied.filter (k ≤ ·)) ∧ r.patches.length = s.patches.length ∧
      ∀ j, cells (r.exchangeAt locate j) = cells (s.exchangeAt locate j) := by
  induction k with
  | zero => simpa using h
  | succ k ih =>
    obtain ⟨hundo, hlength, hcells⟩ := ih (by omega)
    rw [List.range_succ, List.foldl_append, List.foldl_cons, List.foldl_nil]
    generalize (List.range k).foldl
      (fun s index => unPatch index (Debugger.disablePatch locate index s)) s = t at *
    have htop : t.OnTop locate (applied.filter (k ≤ ·)) k := by
      intro above below happlied j hj
      rw [hcells, hcells]
      have hsplit := hclear.filter (k ≤ ·)
      have hnodup := hundo.nodup
      rw [happlied] at hsplit hnodup
      have hne : j ≠ k := fun heq => (List.nodup_append.1 hnodup).2.2 j hj k (by simp) heq
      have hle : j ∈ applied.filter (k ≤ ·) := happlied ▸ List.mem_append_left _ hj
      have hkj : k ≤ j := by simpa using (List.mem_filter.1 hle).2
      exact (List.pairwise_append.1 hsplit).2.2 j hj k (by simp) (by omega)
    have hlt : k < t.patches.length := by omega
    have hnext := hundo.disablePatch hlt htop
    have hfilter : (applied.filter (k ≤ ·)).filter (· ≠ k) = applied.filter (k + 1 ≤ ·) := by
      rw [List.filter_filter]
      refine List.filter_congr fun j _ => ?_
      simp only [← Bool.decide_and]
      exact decide_eq_decide.2 (by omega)
    rw [hfilter] at hnext
    simp only []
    rw [unPatch_once hnext.once]
    exact ⟨hnext, (length_disablePatch k t).trans hlength,
      fun j => (cells_disablePatch hundo.once j).trans (hcells j)⟩

theorem Undoable.clearPatches {s : Debugger κ} {applied : List Nat}
    (h : Undoable locate m₀ s applied) (hclear : s.Clearable locate applied) :
    Undoable locate m₀ (clearPatches locate s) [] := by
  obtain ⟨hundo, -, -⟩ := h.disableFirst hclear le_rfl
  have hnone : applied.filter (s.patches.length ≤ ·) = [] := by
    rw [List.filter_eq_nil_iff]
    intro j hj
    have hlt := (List.getElem?_eq_some_iff.1 ((h.mem j).1 hj)).1
    simpa using hlt
  rw [hnone] at hundo
  exact ⟨by simp [Debugger.clearPatches], hundo.unlisted, List.nodup_nil,
    by simp [Debugger.clearPatches], by simp [Debugger.clearPatches, exchangeAt, cells],
    hundo.base⟩

theorem Undoable.perform {s : Session κ} (h : Undoable locate m₀ s.debugger s.applied)
    {a : Action} (hnames : a.Names s.debugger) (htype : a.OneTime) (hok : a.OnceOk locate s) :
    Undoable locate m₀ (a.perform locate s.debugger) (s.appliedAfter locate a) := by
  cases a with
  | setPatch address value => exact h.append rfl rfl hok
  | setPatchBytes address value => exact (h.unsetPatch hok.2).append rfl rfl hok.1
  | setFramePatch address value => exact absurd htype id
  | setFramePatchBytes address value => exact absurd htype id
  | unsetPatch address => exact h.unsetPatch hok
  | enablePatch index =>
    have hp : s.debugger.patches[index]? = some s.debugger.patches[index] :=
      List.getElem?_eq_getElem hnames
    have honce := h.once _ (List.mem_of_getElem? hp)
    cases hstate : s.debugger.patches[index].isEnabled with
    | disabled =>
      have happlied : s.appliedAfter locate (.enablePatch index) = index :: s.applied := by
        simp [Session.appliedAfter, hp, hstate, honce]
      rw [happlied]
      exact h.enablePatch hp hstate
    | enabled =>
      have happlied : s.appliedAfter locate (.enablePatch index) = s.applied := by
        simp [Session.appliedAfter, hp, hstate]
      rw [happlied]
      have hsame : (Action.enablePatch index).perform locate s.debugger = s.debugger :=
        switchTo_same fun p hsome => by rwa [← Option.some.inj (hp.symm.trans hsome)]
      rw [hsame]
      exact h
  | disablePatch index => exact h.disablePatch hnames hok
  | removePatch index => exact h.removePatch hnames hok
  | clearPatches => exact h.clearPatches hok
  | frame =>
    -- No patch is in the list.
    have hsame : Action.frame.perform locate s.debugger = s.debugger := by
      simp only [Action.perform, applyMemoryPatches, h.unlisted, List.foldl_nil]
    rw [hsame]
    exact h

/-! ### What a frame writes -/

theorem applyBytes_false (value : Bytes) (address : Address) (memory : κ → UInt8) :
    applyBytes locate false value address memory =
      (value, (applyBytes locate true value address memory).2) := by
  induction value generalizing address memory with
  | nil => rfl
  | cons v rest ih =>
    simp only [applyBytes, ih, Bool.false_eq_true, if_false]
    split <;> rfl

theorem applyExistingPatch_eq (index : Nat) (s : Debugger κ) :
    applyExistingPatch locate index s =
      { s with memory := (exchange 0 (s.exchangeAt locate index) s.memory).2 } := by
  cases hp : s.patches[index]? with
  | none => simp only [applyExistingPatch, exchangeAt, hp]; rfl
  | some p =>
    have hwritten : applyMemoryPatch locate p.value p.address false s.memory =
        (p.value, (exchange 0 (p.located locate) s.memory).2) := by
      rw [← (applyMemoryPatch_eq locate p s.memory).1]
      unfold applyMemoryPatch
      split
      · rfl
      · split
        · rfl
        · exact applyBytes_false ..
    obtain ⟨hlt, rfl⟩ := List.getElem?_eq_some_iff.1 hp
    simp only [applyExistingPatch, exchangeAt, hp, hwritten, Option.map_some, Option.getD_some]
    congr 1
    exact List.set_getElem_self hlt

theorem Listed.applyMemoryPatches_kept {s : Debugger κ} (h : Listed s) {c : κ}
    (hout : ∀ i, s.LiveAt i → c ∉ cells (s.exchangeAt locate i)) :
    (applyMemoryPatches locate s).memory c = s.memory c := by
  have hfold : ∀ (l : List Nat) (t : Debugger κ), t.patches = s.patches → (∀ i ∈ l, s.LiveAt i) →
      (l.foldl (fun t index => applyExistingPatch locate index t) t).memory c = t.memory c := by
    intro l
    induction l with
    | nil => exact fun t _ _ => rfl
    | cons i rest ih =>
      intro t hpatches hlive
      have hsame : t.exchangeAt locate i = s.exchangeAt locate i := by
        simp only [exchangeAt, hpatches]
      rw [List.foldl_cons, applyExistingPatch_eq, hsame]
      calc _ = (exchange 0 (s.exchangeAt locate i) t.memory).2 c :=
            ih { t with memory := (exchange 0 (s.exchangeAt locate i) t.memory).2 } hpatches
              fun j hj => hlive j (List.mem_cons_of_mem _ hj)
        _ = t.memory c := exchange_of_not_mem 0 (hout i (hlive i List.mem_cons_self)) t.memory
  exact hfold s.onFrameMemory s rfl fun i hi => (h.mem i).1 hi

end Debugger

/-! ### Runs -/

section
variable {κ : Type} [DecidableEq κ] (locate : Address → Option κ) (m₀ : κ → UInt8)
open Debugger

theorem session_step {s s' : Session κ} {a : Action}
    (h : (session locate m₀).step s a = some s') :
    a.Names s.debugger ∧ s' = ⟨a.perform locate s.debugger, s.appliedAfter locate a⟩ := by
  simp only [session, Option.ite_none_right_eq_some, Option.some.injEq] at h
  exact ⟨h.1, h.2.symm⟩

theorem listed_run {s : Session κ}
    (h : (session locate m₀).ReachableBy (fun s a => a.FrameOk s.debugger) s) :
    Listed s.debugger := by
  refine h.invariant (P := fun s => Listed s.debugger) ?_ ?_
  · rintro _ rfl
    exact ⟨List.nodup_nil, by simp [LiveAt]⟩
  · intro s a s' hlisted hok hstep
    obtain ⟨hnames, rfl⟩ := session_step locate m₀ hstep
    exact (listed_perform_iff hlisted hnames).2 hok

theorem undoable_run {s : Session κ}
    (h : (session locate m₀).ReachableBy (fun s a => a.OneTime ∧ a.OnceOk locate s) s) :
    Undoable locate m₀ s.debugger s.applied := by
  refine h.invariant (P := fun s => Undoable locate m₀ s.debugger s.applied) ?_ ?_
  · rintro _ rfl
    exact ⟨by simp, rfl, List.nodup_nil, by simp, by simp [exchangeAt, cells], rfl⟩
  · intro s a s' hundo hok hstep
    obtain ⟨hnames, rfl⟩ := session_step locate m₀ hstep
    exact hundo.perform hnames hok.1 hok.2

/-- The list stays right just as long as no enabled frame patch is disabled and none is behind a
    patch that is removed, and then a frame writes what the enabled frame patches cover; one-time
    patches that are taken back in an order that undoes them leave the memory from before. -/
theorem patches_undone :
    (∀ s : Debugger κ, Listed s → ∀ a : Action, a.Names s →
      (Listed (a.perform locate s) ↔ a.FrameOk s)) ∧
    (∀ s, (session locate m₀).ReachableBy (fun s a => a.FrameOk s.debugger) s →
      Listed s.debugger ∧
      ∀ c, (∀ i, s.debugger.LiveAt i → c ∉ cells (s.debugger.exchangeAt locate i)) →
        (applyMemoryPatches locate s.debugger).memory c = s.debugger.memory c) ∧
    ∀ s, (session locate m₀).ReachableBy (fun s a => a.OneTime ∧ a.OnceOk locate s) s →
      s.debugger.patches = [] → s.debugger.memory = m₀ := by
  refine ⟨fun s h a hnames => listed_perform_iff h hnames, fun s hs => ?_, fun s hs hnone => ?_⟩
  · have hlisted := listed_run locate m₀ hs
    exact ⟨hlisted, fun c hout => hlisted.applyMemoryPatches_kept hout⟩
  · have hundo := undoable_run locate m₀ hs
    have hempty : s.applied = [] := by
      rw [List.eq_nil_iff_forall_not_mem]
      intro i hi
      have hat := (hundo.mem i).1 hi
      simp [hnone] at hat
    simpa [hempty, undone] using hundo.base

/-- A disabled frame patch is still in the list, and two patches of one word that are cleared leave
    the value of the first. -/
theorem patches_not_undone :
    (¬ ∀ s, (session some fun _ => 0).Reachable s → Listed s.debugger) ∧
    ¬ ∀ s, (session some fun _ => 0).ReachableBy (fun _ a => a.OneTime) s →
      s.debugger.patches = [] → s.debugger.memory = fun _ => 0 := by
  constructor
  · intro h
    obtain ⟨s, hs⟩ := Option.isSome_iff_exists.1 (show ((session some fun _ => 0).run
      { debugger := { memory := fun _ => 0 } }
      [.setFramePatchBytes 0 [1], .disablePatch 0]).isSome by decide)
    have hlist : s.debugger.onFrameMemory = [0, 0] :=
      System.run_eval hs (fun s => s.debugger.onFrameMemory) (by decide)
    have hnodup := (h s (System.Reachable.run (.init rfl) hs)).nodup
    rw [hlist] at hnodup
    exact absurd hnodup (by decide)
  · intro h
    obtain ⟨s, hs⟩ := Option.isSome_iff_exists.1 (show ((session some fun _ => 0).run
      { debugger := { memory := fun _ => 0 } }
      [.setPatch 0 1, .setPatch 0 2, .clearPatches]).isSome by decide)
    have hpatches : s.debugger.patches = [] :=
      System.run_eval hs (fun s => s.debugger.patches) (by decide)
    have hmemory : s.debugger.memory 3 = 1 :=
      System.run_eval hs (fun s => s.debugger.memory 3) (by decide)
    have hreach : (session some fun _ => 0).ReachableBy (fun _ a => a.OneTime) s := by
      refine System.ReachableBy.run (.init rfl) ?_ hs
      simp [Action.OneTime]
    rw [h s hreach hpatches] at hmemory
    exact absurd hmemory (by decide)

end
end DolphinXR.Debug
