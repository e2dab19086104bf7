import DolphinXR.Lib.Bytes
import DolphinXR.Lib.Exchange
import DolphinXR.Lib.Transition

/- The debugger's memory patches (Common/Debug/MemoryPatches.cpp, Core/Debugger/PPCDebugInterface.cpp
   and the list of frame patches in Core/PatchEngine.cpp). A one-time patch swaps its bytes with
   memory when it is enabled and when it is disabled; a frame patch is known to the patch engine by
   its index, and is written again at every frame.

   `locate` is the address translation, which stays as it is: the cell of memory at an address, if
   it is RAM. Addresses may share a cell. Left out: the JIT cache, which is told of what changed. -/
namespace DolphinXR.Debug
open Lib

abbrev Address := BitVec 32

inductive PatchState where
  | enabled
  | disabled
  deriving DecidableEq

inductive ApplyType where
  | once
  | eachFrame
  deriving DecidableEq

structure MemoryPatch where
  address : Address
  value : Bytes
  isEnabled : PatchState := .enabled
  type : ApplyType := .once
  deriving DecidableEq

def wordBytes (value : BitVec 32) : Bytes := be 4 value.toNat

structure Debugger (κ : Type) where
  memory : κ → UInt8
  patches : List MemoryPatch := []
  onFrameMemory : List Nat := []

section
variable {κ : Type} [DecidableEq κ] (locate : Address → Option κ)

def hostIsRAMAddress (address : Address) : Bool := (locate address).isSome

def hostRead (address : Address) (memory : κ → UInt8) : UInt8 :=
  match locate address with
  | some c => memory c
  | none => 0

def hostWrite (value : UInt8) (address : Address) (memory : κ → UInt8) : κ → UInt8 :=
  match locate address with
  | some c => Function.update memory c value
  | none => memory

/-- The loop of `ApplyMemoryPatch`: the bytes that are then in the patch, and memory. -/
def applyBytes (storeExistingValue : Bool) :
    Bytes → Address → (κ → UInt8) → Bytes × (κ → UInt8)
  | [], _, memory => ([], memory)
  | v :: rest, address, memory =>
    let oldValue := hostRead locate address memory
    if oldValue ≠ v then
      let r := applyBytes storeExistingValue rest (address + 1) (hostWrite locate v address memory)
      ((if storeExistingValue then oldValue else v) :: r.1, r.2)
    else
      let r := applyBytes storeExistingValue rest (address + 1) memory
      (v :: r.1, r.2)

def applyMemoryPatch (value : Bytes) (address : Address) (storeExistingValue : Bool)
    (memory : κ → UInt8) : Bytes × (κ → UInt8) :=
  if value.isEmpty then (value, memory)
  else if !hostIsRAMAddress locate address then (value, memory)
  else applyBytes locate storeExistingValue value address memory

namespace Debugger

def applyExistingPatch (index : Nat) (s : Debugger κ) : Debugger κ :=
  match s.patches[index]? with
  | none => s
  | some p =>
    let r := applyMemoryPatch locate p.value p.address false s.memory
    { s with memory := r.2, patches := s.patches.set index { p with value := r.1 } }

/-- `Patch`, which both enabling and disabling call. -/
def patch (index : Nat) (s : Debugger κ) : Debugger κ :=
  match s.patches[index]? with
  | none => s
  | some p =>
    match p.type with
    | .once =>
      let r := applyMemoryPatch locate p.value p.address true s.memory
      { s with memory := r.2, patches := s.patches.set index { p with value := r.1 } }
    | .eachFrame => { s with onFrameMemory := s.onFrameMemory ++ [index] }

def unPatch (index : Nat) (s : Debugger κ) : Debugger κ :=
  match s.patches[index]? with
  | none => s
  | some p =>
    match p.type with
    | .once => s
    | .eachFrame => { s with onFrameMemory := s.onFrameMemory.filter (· ≠ index) }

/-- The patch is marked, and then patched either way. -/
def switchTo (state : PatchState) (index : Nat) (s : Debugger κ) : Debugger κ :=
  match s.patches[index]? with
  | none => s
  | some p =>
    if p.isEnabled = state then s
    else patch locate index
      { s with patches := s.patches.set index { p with isEnabled := state } }

def enablePatch (index : Nat) (s : Debugger κ) : Debugger κ := switchTo locate .enabled index s

def disablePatch (index : Nat) (s : Debugger κ) : Debugger κ := switchTo locate .disabled index s

def removePatch (index : Nat) (s : Debugger κ) : Debugger κ :=
  let s := unPatch index (disablePatch locate index s)
  { s with patches := s.patches.eraseIdx index }

def find (s : Debugger κ) (address : Address) : Option Nat :=
  s.patches.findIdx? (·.address = address)

def unsetPatch (address : Address) (s : Debugger κ) : Debugger κ :=
  match s.find address with
  | none => s
  | some index => removePatch locate index s

/-- `emplace_back`, and `Patch` for what is then the last patch. -/
def append (p : MemoryPatch) (s : Debugger κ) : Debugger κ :=
  patch locate s.patches.length { s with patches := s.patches ++ [p] }

def setPatch (address : Address) (value : BitVec 32) (s : Debugger κ) : Debugger κ :=
  append locate { address, value := wordBytes value } s

def setPatchBytes (address : Address) (value : Bytes) (s : Debugger κ) : Debugger κ :=
  append locate { address, value } (unsetPatch locate address s)

def setFramePatch (address : Address) (value : BitVec 32) (s : Debugger κ) : Debugger κ :=
  append locate { address, value := wordBytes value, type := .eachFrame } s

def setFramePatchBytes (address : Address) (value : Bytes) (s : Debugger κ) : Debugger κ :=
  append locate { address, value, type := .eachFrame } (unsetPatch locate address s)

def clearPatches (s : Debugger κ) : Debugger κ :=
  let s := (List.range s.patches.length).foldl
    (fun s index => unPatch index (disablePatch locate index s)) s
  { s with patches := [] }

/-- `ApplyMemoryPatches`, at every frame. -/
def applyMemoryPatches (s : Debugger κ) : Debugger κ :=
  s.onFrameMemory.foldl (fun s index => applyExistingPatch locate index s) s

end Debugger

inductive Action where
  | setPatch (address : Address) (value : BitVec 32)
  | setPatchBytes (address : Address) (value : Bytes)
  | setFramePatch (address : Address) (value : BitVec 32)
  | setFramePatchBytes (address : Address) (value : Bytes)
  | unsetPatch (address : Address)
  | enablePatch (index : Nat)
  | disablePatch (index : Nat)
  | removePatch (index : Nat)
  | clearPatches
  | frame

def Action.perform (s : Debugger κ) : Action → Debugger κ
  | setPatch address value => s.setPatch locate address value
  | setPatchBytes address value => s.setPatchBytes locate address value
  | setFramePatch address value => s.setFramePatch locate address value
  | setFramePatchBytes address value => s.setFramePatchBytes locate address value
  | unsetPatch address => s.unsetPatch locate address
  | enablePatch index => s.enablePatch locate index
  | disablePatch index => s.disablePatch locate index
  | removePatch index => s.removePatch locate index
  | clearPatches => s.clearPatches locate
  | frame => s.applyMemoryPatches locate

/-- The patch that an action names by its index is there. -/
def Action.Names (s : Debugger κ) : Action → Prop
  | enablePatch index => index < s.patches.length
  | disablePatch index => index < s.patches.length
  | removePatch index => index < s.patches.length
  | _ => True

instance (s : Debugger κ) : (a : Action) → Decidable (a.Names s)
  | .enablePatch index => inferInstanceAs (Decidable (index < s.patches.length))
  | .disablePatch index => inferInstanceAs (Decidable (index < s.patches.length))
  | .removePatch index => inferInstanceAs (Decidable (index < s.patches.length))
  | .setPatch _ _ | .setPatchBytes _ _ | .setFramePatch _ _ | .setFramePatchBytes _ _
  | .unsetPatch _ | .clearPatches | .frame => inferInstanceAs (Decidable True)

/-! ### The list of the patch engine -/

def MemoryPatch.isLive (p : MemoryPatch) : Bool :=
  decide (p.isEnabled = .enabled) && decide (p.type = .eachFrame)

end

namespace Debugger
variable {κ : Type}

def LiveAt (s : Debugger κ) (index : Nat) : Prop :=
  (s.patches.map MemoryPatch.isLive)[index]? = some true

def Shifts (s : Debugger κ) (index : Nat) : Prop := ∃ j, index < j ∧ s.LiveAt j

/-- The list has the indices of the enabled frame patches, each once. -/
structure Listed (s : Debugger κ) : Prop where
  nodup : s.onFrameMemory.Nodup
  mem : ∀ i, i ∈ s.onFrameMemory ↔ s.LiveAt i

theorem LiveAt.lt {s : Debugger κ} {i : Nat} (h : s.LiveAt i) : i < s.patches.length := by
  have hlt := (List.getElem?_eq_some_iff.1 h).1
  simpa using hlt

end Debugger

/-- No enabled frame patch is disabled, and none is behind a patch that is removed. -/
def Action.FrameOk {κ : Type} (s : Debugger κ) : Action → Prop
  | disablePatch index => ¬ s.LiveAt index
  | removePatch index => ¬ s.Shifts index
  | unsetPatch address => ∀ index, s.find address = some index → ¬ s.Shifts index
  | setPatchBytes address _ => ∀ index, s.find address = some index → ¬ s.Shifts index
  | setFramePatchBytes address _ => ∀ index, s.find address = some index → ¬ s.Shifts index
  | _ => True

namespace Debugger
variable {κ : Type} [DecidableEq κ] {locate : Address → Option κ}

theorem map_set_of_getElem? {α β : Type} {f : α → β} {l : List α} {i : Nat} {a b : α}
    (ha : l[i]? = some a) (hb : f b = f a) : (l.set i b).map f = l.map f := by
  rw [List.map_set, hb]
  apply List.ext_getElem?
  intro j
  rw [List.getElem?_set]
  split
  · next h =>
    subst h
    obtain ⟨hlt, rfl⟩ := List.getElem?_eq_some_iff.1 ha
    simp [hlt]
  · rfl

theorem patch_none {index : Nat} {s : Debugger κ} (h : s.patches[index]? = none) :
    patch locate index s = s := by
  simp only [patch, h]

theorem patch_once {index : Nat} {s : Debugger κ} {p : MemoryPatch}
    (h : s.patches[index]? = some p) (htype : p.type = .once) :
    patch locate index s =
      let r := applyMemoryPatch locate p.value p.address true s.memory
      { s with memory := r.2, patches := s.patches.set index { p with value := r.1 } } := by
  simp only [patch, h, htype]

theorem patch_eachFrame {index : Nat} {s : Debugger κ} {p : MemoryPatch}
    (h : s.patches[index]? = some p) (htype : p.type = .eachFrame) :
    patch locate index s = { s with onFrameMemory := s.onFrameMemory ++ [index] } := by
  simp only [patch, h, htype]

/-! What is said of a patch and changes with its value alone stays. -/

section Kept
variable {β : Type} {f : MemoryPatch → β} (hf : ∀ p value, f { p with value } = f p)
include hf

variable (locate) in
theorem map_patch (index : Nat) (s : Debugger κ) :
    (patch locate index s).patches.map f = s.patches.map f := by
  cases h : s.patches[index]? with
  | none => rw [patch_none h]
  | some p =>
    cases htype : p.type with
    | once =>
      rw [patch_once h htype]
      exact map_set_of_getElem? h (hf p _)
    | eachFrame => rw [patch_eachFrame h htype]

variable (locate) in
theorem map_applyExistingPatch (index : Nat) (s : Debugger κ) :
    (applyExistingPatch locate index s).patches.map f = s.patches.map f := by
  cases h : s.patches[index]? with
  | none => simp only [applyExistingPatch, h]
  | some p =>
    simp only [applyExistingPatch, h]
    exact map_set_of_getElem? h (hf p _)

variable (locate) in
theorem map_applyMemoryPatches (s : Debugger κ) :
    (applyMemoryPatches locate s).patches.map f = s.patches.map f := by
  unfold applyMemoryPatches
  induction s.onFrameMemory generalizing s with
  | nil => rfl
  | cons i rest ih => rw [List.foldl_cons, ih, map_applyExistingPatch locate hf]

end Kept

theorem isLive_value (p : MemoryPatch) (value : Bytes) :
    ({ p with value } : MemoryPatch).isLive = p.isLive := rfl

theorem type_value (p : MemoryPatch) (value : Bytes) :
    ({ p with value } : MemoryPatch).type = p.type := rfl

theorem onFrameMemory_patch {index : Nat} {s : Debugger κ} {p : MemoryPatch}
    (h : s.patches[index]? = some p) :
    (patch locate index s).onFrameMemory =
      if p.type = .eachFrame then s.onFrameMemory ++ [index] else s.onFrameMemory := by
  cases htype : p.type with
  | once => simp [patch_once h htype]
  | eachFrame => simp [patch_eachFrame h htype]

theorem onFrameMemory_applyMemoryPatches (s : Debugger κ) :
    (applyMemoryPatches locate s).onFrameMemory = s.onFrameMemory := by
  have hone : ∀ (l : List Nat) (s : Debugger κ), (l.foldl
      (fun s index => applyExistingPatch locate index s) s).onFrameMemory = s.onFrameMemory := by
    intro l
    induction l with
    | nil => exact fun s => rfl
    | cons i rest ih =>
      intro s
      rw [List.foldl_cons, ih]
      unfold applyExistingPatch
      cases s.patches[i]? <;> rfl
  exact hone s.onFrameMemory s

def types (s : Debugger κ) : List ApplyType := s.patches.map MemoryPatch.type

end Debugger
end DolphinXR.Debug
