import DolphinXR.Core.ActionReplay

/- The memory copy of Action Replay codes. A line that is reached with a memory copy pending is
   executed, not skipped, and copies a block byte by byte upwards, so that a byte which the copy
   wrote is read again where the blocks overlap. The count has 15 bits in the line, and the loop
   keeps 8 of them: the whole block is copied just when it is shorter than 256 bytes. -/
namespace DolphinXR.ActionReplay
open Lib Debug

section
variable {κ : Type}

/-- A line with a code pending is the second line of that code. -/
structure Ready (s : RunState κ) : Prop where
  executed : s.doFillAndSlide = true ∨ s.doMemoryCopy = true → s.skipCount = 0
  single : ¬ (s.doFillAndSlide = true ∧ s.doMemoryCopy = true)

theorem ready_of_idle {s : RunState κ} (hslide : s.doFillAndSlide = false)
    (hcopy : s.doMemoryCopy = false) : Ready s := by
  constructor
  · intro h
    simp [hslide, hcopy] at h
  · simp [hslide]

theorem afterCall_next {s s' : RunState κ} {r : Bool × Target κ} (h : afterCall s r = .next s') :
    s' = { s with target := r.2 } := by
  unfold afterCall at h
  split at h
  · cases h
    rfl
  · cases h

theorem skipLine_next {entry : AREntry} {s s' : RunState κ} (h : skipLine entry s = .next s') :
    s'.doFillAndSlide = s.doFillAndSlide ∧ s'.doMemoryCopy = s.doMemoryCopy := by
  unfold skipLine at h
  split at h
  · cases h
    exact ⟨rfl, rfl⟩
  · split at h
    · cases h
    · split at h
      all_goals
        cases h
        exact ⟨rfl, rfl⟩

theorem zeroCode_ready {data : Word} {s s' : RunState κ} (hskip : s.skipCount = 0)
    (hslide : s.doFillAndSlide = false) (hcopy : s.doMemoryCopy = false)
    (h : zeroCode data s = .next s') : Ready s' := by
  unfold zeroCode at h
  split at h
  · cases h
  · cases h
    exact ready_of_idle hslide hcopy
  · cases h
  · split at h
    · cases h
      exact ⟨fun _ => hskip, by simp [hslide]⟩
    · cases h
      exact ⟨fun _ => hskip, by simp [hcopy]⟩
  · cases h

end

section
variable {κ : Type} [DecidableEq κ] (locate : Address → Option κ)

/-- Memory once the first `n` bytes of a block were copied, one after the other. -/
def copyBlock (src dest : Address) : Nat → (κ → UInt8) → κ → UInt8
  | 0, memory => memory
  | n + 1, memory =>
    let memory := copyBlock src dest n memory
    hostWrite locate (hostRead locate (src + BitVec.ofNat 32 n) memory) (dest + BitVec.ofNat 32 n)
      memory

/-- The patches of a copied block: every byte is the one that is read when its turn comes. -/
def blockPatches (src dest : Address) (n : Nat) (memory : κ → UInt8) : List (Address × Bytes) :=
  (List.range n).map fun i =>
    (dest + BitVec.ofNat 32 i,
      [hostRead locate (src + BitVec.ofNat 32 i) (copyBlock locate src dest i memory)])

/-- Exactly `n` bytes were copied, in increasing order, and nothing else was written. -/
structure CopiesBlock (src dest : Address) (n : Nat) (t t' : Target κ) : Prop where
  memory : t'.memory = copyBlock locate src dest n t.memory
  patched : t'.patched = t.patched ++ blockPatches locate src dest n t.memory
  alerts : t'.alerts = t.alerts

def copyPointer (data : Word) (address : Address) (memory : κ → UInt8) : Address :=
  if data >>> 24 ≠ 0#32 then readNumber locate 4 address memory else address

def copySource (entry : AREntry) (memory : κ → UInt8) : Address :=
  copyPointer locate entry.value (gcAddress entry.cmdAddr) memory

def copyDest (valLast : Word) (entry : AREntry) (memory : κ → UInt8) : Address :=
  copyPointer locate entry.value (valLast &&& ~~~0x06000000#32) memory

def blockLength (entry : AREntry) : Nat := (entry.value &&& 0x7FFF#32).toNat

def CopiesWholeBlock (entry : AREntry) (s s' : RunState κ) : Prop :=
  CopiesBlock locate (copySource locate entry s.target.memory)
    (copyDest locate s.valLast entry s.target.memory) (blockLength entry) s.target s'.target

variable {locate}

omit [DecidableEq κ] in
theorem be_readNumber_one (address : Address) (memory : κ → UInt8) :
    be 1 (readNumber locate 1 address memory).toNat = [hostRead locate address memory] := by
  have hread : readNumber locate 1 address memory =
      BitVec.ofNat 32 (hostRead locate address memory).toNat := by
    simp [readNumber, readBE]
  have hbyte := (hostRead locate address memory).toNat_lt
  rw [hread, BitVec.toNat_ofNat, Nat.mod_eq_of_lt (by omega)]
  simp [be]

theorem applyMemoryPatch_byte (v : UInt8) (address : Address) (memory : κ → UInt8) :
    (applyMemoryPatch locate [v] address true memory).2 = hostWrite locate v address memory := by
  cases h : locate address with
  | none => simp [applyMemoryPatch, hostIsRAMAddress, hostWrite, h]
  | some c =>
    by_cases hv : memory c = v
    · simp [applyMemoryPatch, hostIsRAMAddress, hostWrite, applyBytes, hostRead, h, ← hv]
    · simp [applyMemoryPatch, hostIsRAMAddress, hostWrite, applyBytes, hostRead, h, hv]

theorem patch_readNumber_one (src dest : Address) (t : Target κ) :
    t.patch locate 1 (readNumber locate 1 src t.memory) dest =
      { t with
        memory := hostWrite locate (hostRead locate src t.memory) dest t.memory
        patched := t.patched ++ [(dest, [hostRead locate src t.memory])] } := by
  rw [Target.patch, be_readNumber_one, applyMemoryPatch_byte]

theorem copyBytes_succ (src dest : Address) (n : Nat) (t : Target κ) :
    copyBytes locate src dest (n + 1) t =
      let t := copyBytes locate src dest n t
      t.patch locate 1 (readNumber locate 1 (src + BitVec.ofNat 32 n) t.memory)
        (dest + BitVec.ofNat 32 n) := by
  rw [copyBytes, List.range_succ, List.foldl_append]
  rfl

theorem blockPatches_succ (src dest : Address) (n : Nat) (memory : κ → UInt8) :
    blockPatches locate src dest (n + 1) memory = blockPatches locate src dest n memory ++
      [(dest + BitVec.ofNat 32 n,
        [hostRead locate (src + BitVec.ofNat 32 n) (copyBlock locate src dest n memory)])] := by
  rw [blockPatches, List.range_succ, List.map_append]
  rfl

theorem copiesBlock_copyBytes (src dest : Address) (n : Nat) (t : Target κ) :
    CopiesBlock locate src dest n t (copyBytes locate src dest n t) := by
  induction n with
  | zero => exact ⟨rfl, (List.append_nil _).symm, rfl⟩
  | succ n ih =>
    rw [copyBytes_succ]
    dsimp only
    rw [patch_readNumber_one]
    constructor
    · exact congrArg (fun memory => hostWrite locate
        (hostRead locate (src + BitVec.ofNat 32 n) memory) (dest + BitVec.ofNat 32 n) memory)
        ih.memory
    · dsimp only
      rw [ih.patched, ih.memory, List.append_assoc, blockPatches_succ]
    · exact ih.alerts

theorem CopiesBlock.length_eq {src dest : Address} {n m : Nat} {t t' : Target κ}
    (h : CopiesBlock locate src dest n t t') (h' : CopiesBlock locate src dest m t t') : n = m := by
  have hpatches : blockPatches locate src dest n t.memory = blockPatches locate src dest m t.memory :=
    List.append_cancel_left (h.patched.symm.trans h'.patched)
  simpa [blockPatches] using congrArg List.length hpatches

/-! ### The line -/

theorem zeroCodeMemoryCopy_eq (valLast : Word) {entry : AREntry}
    (h : entry.value &&& 0xFF0000#32 = 0#32) (t : Target κ) :
    zeroCodeMemoryCopy locate valLast entry.cmdAddr entry.value t =
      (true, copyBytes locate (copySource locate entry t.memory)
        (copyDest locate valLast entry t.memory) (blockLength entry % 256) t) := by
  have hcount : ((entry.value &&& 0x7FFF#32).setWidth 8).toNat = blockLength entry % 256 :=
    BitVec.toNat_setWidth ..
  rw [zeroCodeMemoryCopy, hcount, if_pos h]
  unfold copySource copyDest copyPointer
  split
  · rfl
  · rfl

variable {addFloat : Word → Word → Word}

theorem runLine_ready {entry : AREntry} {s s' : RunState κ} (hs : Ready s)
    (h : runLine locate addFloat entry s = .next s') : Ready s' := by
  unfold runLine at h
  dsimp only at h
  split at h
  case isTrue hskip =>
    obtain ⟨hslide', hcopy'⟩ := skipLine_next h
    have hidle := mt hs.executed hskip
    rw [not_or, Bool.not_eq_true, Bool.not_eq_true] at hidle
    exact ready_of_idle (hslide'.trans hidle.1) (hcopy'.trans hidle.2)
  case isFalse hskip =>
    rw [not_not] at hskip
    split at h
    case isTrue hslide =>
      rw [afterCall_next h]
      exact ready_of_idle rfl (Bool.eq_false_iff.2 fun hcopy => hs.single ⟨hslide, hcopy⟩)
    case isFalse hslide =>
      rw [Bool.not_eq_true] at hslide
      split at h
      case isTrue hcopy =>
        rw [afterCall_next h]
        exact ready_of_idle hslide rfl
      case isFalse hcopy =>
        rw [Bool.not_eq_true] at hcopy
        split at h
        · cases h
        · split at h
          · exact zeroCode_ready hskip hslide hcopy h
          · split at h
            all_goals
              rw [afterCall_next h]
              exact ready_of_idle hslide hcopy

theorem runLines_ready {before : List AREntry} {s s' : RunState κ} (hs : Ready s)
    (h : runLines locate addFloat before s = some s') : Ready s' := by
  induction before generalizing s with
  | nil =>
    cases h
    exact hs
  | cons entry before ih =>
    rw [runLines] at h
    cases hline : runLine locate addFloat entry s with
    | next s₁ =>
      rw [hline] at h
      exact ih (runLine_ready hs hline) h
    | finished result t =>
      rw [hline] at h
      cases h

omit [DecidableEq κ] in
theorem ready_start (memory : κ → UInt8) : Ready (start memory) := ready_of_idle rfl rfl

theorem runLine_memoryCopy {entry : AREntry} {s : RunState κ} (hs : Ready s)
    (hcopy : s.doMemoryCopy = true) (h : entry.value &&& 0xFF0000#32 = 0#32) :
    ∃ s', runLine locate addFloat entry s = .next s' ∧ s'.doMemoryCopy = false ∧
      s'.target = copyBytes locate (copySource locate entry s.target.memory)
        (copyDest locate s.valLast entry s.target.memory) (blockLength entry % 256) s.target := by
  have hskip : s.skipCount = 0 := hs.executed (Or.inr hcopy)
  have hslide : s.doFillAndSlide ≠ true := fun hslide => hs.single ⟨hslide, hcopy⟩
  unfold runLine
  dsimp only
  rw [if_neg (not_not.2 hskip), if_neg hslide, if_pos hcopy, zeroCodeMemoryCopy_eq _ h]
  exact ⟨_, rfl, rfl, rfl⟩

/-- Wherever a code reaches the line of a memory copy, the line is executed and the code goes on
    behind it. It copies the whole block just when the block has fewer than 256 bytes. -/
theorem memory_copy_line {before : List AREntry} {memory : κ → UInt8} {s : RunState κ}
    {entry : AREntry} (hrun : runLines locate addFloat before (start memory) = some s)
    (hcopy : s.doMemoryCopy = true) (hvalue : entry.value &&& 0xFF0000#32 = 0#32) :
    ∃ s', (∀ after, runCodeLocked locate addFloat (before ++ entry :: after) memory =
        runFrom locate addFloat after s') ∧
      s'.doMemoryCopy = false ∧
      (CopiesWholeBlock locate entry s s' ↔ blockLength entry < 256) := by
  have hready := runLines_ready (ready_start memory) hrun
  obtain ⟨s', hline, hdone, htarget⟩ :=
    @runLine_memoryCopy _ _ locate addFloat entry s hready hcopy hvalue
  refine ⟨s', fun after => ?_, hdone, ?_⟩
  · rw [runCodeLocked, runFrom_append hrun, runFrom, hline]
  · have hcopied : CopiesBlock locate (copySource locate entry s.target.memory)
        (copyDest locate s.valLast entry s.target.memory) (blockLength entry % 256) s.target
        s'.target := htarget ▸ copiesBlock_copyBytes ..
    constructor
    · intro hwhole
      have hlength : blockLength entry = blockLength entry % 256 := hwhole.length_eq hcopied
      omega
    · intro hshort
      rw [Nat.mod_eq_of_lt hshort] at hcopied
      exact hcopied

end

/-- Memory whose cells are the addresses, and the first line of a memory copy. -/
def zeroMemory : Address → UInt8 := fun _ => 0

def copyHeader : AREntry := ⟨0#32, 0x86001000#32⟩

theorem memory_copy_line_four :
    ∃ s', (∀ after, runCodeLocked some (fun a _ => a) ([copyHeader] ++ ⟨0x4000#32, 4#32⟩ :: after)
        zeroMemory = runFrom some (fun a _ => a) after s') ∧
      s'.doMemoryCopy = false ∧
      (CopiesWholeBlock some ⟨0x4000#32, 4#32⟩
        { doMemoryCopy := true, valLast := 0x86001000#32, target := { memory := zeroMemory } } s' ↔
        blockLength ⟨0x4000#32, 4#32⟩ < 256) :=
  memory_copy_line (show runLines some _ [copyHeader] (start zeroMemory) = some _ from rfl) rfl
    (by decide)

/-- 256 bytes, of which none is copied. -/
theorem memory_copy_line_fails :
    ∃ s s' : RunState Address,
      runLines some (fun a _ => a) [copyHeader] (start zeroMemory) = some s ∧
      s.doMemoryCopy = true ∧
      runLine some (fun a _ => a) ⟨0x4000#32, 0x100#32⟩ s = .next s' ∧
      ¬ CopiesWholeBlock some ⟨0x4000#32, 0x100#32⟩ s s' := by
  refine ⟨_, _, rfl, rfl, rfl, fun hwhole => ?_⟩
  have hpatched := congrArg List.length hwhole.patched
  simp [blockPatches, blockLength] at hpatched
  exact absurd hpatched (by decide)

end DolphinXR.ActionReplay
