import DolphinXR.Core.PPCAnalyst

/- What the scan from the end of a block says of its instructions. A register that may be discarded
   behind an instruction is overwritten before it is read and before the block can be left. For the
   carry flag and FPRF the scan lets an instruction that overwrites them end their need even if the
   block can be left before that instruction does anything; just there an instruction before it,
   which does not leave the block, is told that they are not wanted. -/
namespace DolphinXR.PowerPC.PPCAnalyst
open PPCTables
variable {exits : Exits}

/-- What is written behind an instruction before it is read, before the block may be left and, where
    `checks` holds of an instruction, before it is done. -/
def OverwrittenFirst (exits : Exits) (writes reads checks : CodeOp → Prop) (after : List CodeOp) :
    Prop :=
  ∃ passed op rest, after = passed ++ op :: rest ∧ writes op ∧
    (∀ op' ∈ passed ++ [op], ¬reads op' ∧ exits.mayExitBlock op' = false) ∧
    ∀ op' ∈ passed, ¬checks op'

/-- The registers that may be discarded are overwritten first. -/
structure DiscardableSound (exits : Exits) (facts : Liveness) (after : List CodeOp) : Prop where
  gpr : ∀ reg ∈ facts.gprDiscardable, OverwrittenFirst exits (reg ∈ ·.regsOut) (reg ∈ ·.regsIn)
    (canCauseGatherPipeInterruptCheck ·) after
  fpr : ∀ reg ∈ facts.fprDiscardable, OverwrittenFirst exits (reg ∈ ·.getFregsOut)
    (reg ∈ ·.fregsIn) (canCauseGatherPipeInterruptCheck ·) after
  cr : ∀ field ∈ facts.crDiscardable, OverwrittenFirst exits (field ∈ ·.crOut) (field ∈ ·.crIn)
    (canCauseGatherPipeInterruptCheck ·) after

structure WantedSound (exits : Exits) (facts : Liveness) (after : List CodeOp) : Prop where
  ca : facts.wantsCA = false → OverwrittenFirst exits (·.outputCA) (·.wantsCA) (fun _ => False) after
  fprf : facts.wantsFPRF = false →
    OverwrittenFirst exits (·.outputFPRF) (·.wantsFPRF) (fun _ => False) after

/-- A property of what each instruction of the block gets, and of the instructions behind it. -/
def ForEachOp (exits : Exits) (sound : Liveness → List CodeOp → Prop) (code : List CodeOp) : Prop :=
  ∀ before op facts after, (backwardScan exits code).1 = before ++ (op, facts) :: after →
    sound facts (after.map Prod.fst)

theorem map_fst_backwardScan (exits : Exits) (code : List CodeOp) :
    (backwardScan exits code).1.map Prod.fst = code := by
  induction code with
  | nil => rfl
  | cons op code ih => exact congrArg (op :: ·) ih

theorem forEachOp_iff {sound : Liveness → List CodeOp → Prop} {code : List CodeOp} :
    ForEachOp exits sound code ↔ ∀ before op after, code = before ++ op :: after →
      sound ((backwardScan exits after).2.atOp exits op) after := by
  induction code with
  | nil =>
    constructor
    · intro _ before op after h
      exact absurd h.symm (by simp)
    · intro _ before op facts after h
      exact absurd h.symm (by simp [backwardScan])
  | cons first code ih =>
    have hfst : (backwardScan exits code).1.map Prod.fst = code := map_fst_backwardScan exits code
    constructor
    · intro h before op after hcode
      cases before with
      | nil =>
        cases hcode
        have hsound := h [] first _ _ rfl
        rwa [hfst] at hsound
      | cons first' before =>
        obtain ⟨rfl, htail⟩ := List.cons.inj hcode
        refine ih.1 (fun before' op' facts after' hscan => ?_) before op after htail
        exact h ((first, _) :: before') op' facts after' (congrArg (_ :: ·) hscan)
    · intro h before op facts after hscan
      cases before with
      | nil =>
        cases hscan
        rw [hfst]
        exact h [] first code rfl
      | cons first' before =>
        obtain ⟨-, htail⟩ := List.cons.inj hscan
        refine ih.2 (fun before' op' after' hcode => ?_) before op facts after htail
        exact h (first :: before') op' after' (congrArg (first :: ·) hcode)

/-! The registers. -/

section
variable {ι : Type} [DecidableEq ι] {writes reads : CodeOp → Finset ι}

/-- One instruction, whatever kind of register: what is discardable before it was discardable behind it
    or is written by it. -/
def discardableBefore (exits : Exits) (writes reads : CodeOp → Finset ι) (set : Finset ι)
    (op : CodeOp) : Finset ι :=
  if exits.mayExitBlock op then ∅
  else ((if canCauseGatherPipeInterruptCheck op then ∅ else set) ∪ writes op) \ reads op

theorem overwrittenFirst_of_mem {set : Finset ι} {op : CodeOp} {code : List CodeOp} {reg : ι}
    (ih : reg ∈ set → OverwrittenFirst exits (reg ∈ writes ·) (reg ∈ reads ·)
      (canCauseGatherPipeInterruptCheck ·) code)
    (h : reg ∈ discardableBefore exits writes reads set op) :
    OverwrittenFirst exits (reg ∈ writes ·) (reg ∈ reads ·)
      (canCauseGatherPipeInterruptCheck ·) (op :: code) := by
  rw [discardableBefore] at h
  split at h
  · exact absurd h (Finset.notMem_empty _)
  rename_i hexit
  rw [Bool.not_eq_true] at hexit
  obtain ⟨hmem, hread⟩ := Finset.mem_sdiff.1 h
  rcases Finset.mem_union.1 hmem with hmem | hwrite
  · split at hmem
    · exact absurd hmem (Finset.notMem_empty _)
    rename_i hcheck
    obtain ⟨passed, op', rest, rfl, hwrites, hpassed, hchecks⟩ := ih hmem
    refine ⟨op :: passed, op', rest, rfl, hwrites, ?_, ?_⟩
    · exact List.forall_mem_cons.2 ⟨⟨hread, hexit⟩, hpassed⟩
    · exact List.forall_mem_cons.2 ⟨hcheck, hchecks⟩
  · exact ⟨[], op, code, rfl, hwrite, List.forall_mem_singleton.2 ⟨hread, hexit⟩,
      List.forall_mem_nil _⟩

end

section
variable (exits) (s : Liveness) (op : CodeOp)

theorem checked_eq : s.checked op = { s with
    gprDiscardable := if canCauseGatherPipeInterruptCheck op then ∅ else s.gprDiscardable
    fprDiscardable := if canCauseGatherPipeInterruptCheck op then ∅ else s.fprDiscardable
    crDiscardable := if canCauseGatherPipeInterruptCheck op then ∅ else s.crDiscardable } := by
  rw [Liveness.checked]
  split <;> rfl

theorem discardable_beforeOp :
    (s.beforeOp exits op).gprDiscardable =
        discardableBefore exits CodeOp.regsOut CodeOp.regsIn s.gprDiscardable op ∧
      (s.beforeOp exits op).fprDiscardable =
        discardableBefore exits CodeOp.getFregsOut CodeOp.fregsIn s.fprDiscardable op ∧
      (s.beforeOp exits op).crDiscardable =
        discardableBefore exits CodeOp.crOut CodeOp.crIn s.crDiscardable op := by
  have hexit : exits.mayExitBlock op =
      ((exits.hle op.address || exits.breakpoint op.address) ||
        (op.canEndBlock || op.canCauseException)) := by
    simp only [Exits.mayExitBlock, Bool.or_assoc]
  simp only [Liveness.beforeOp, checked_eq, discardableBefore, hexit]
  cases exits.hle op.address || exits.breakpoint op.address with
  | true => simp
  | false =>
    cases op.canEndBlock || op.canCauseException with
    | true => simp [Liveness.noneDiscardable]
    | false => simp

theorem mem_atOp :
    (∀ reg ∈ (s.atOp exits op).gprDiscardable, reg ∈ s.gprDiscardable) ∧
      (∀ reg ∈ (s.atOp exits op).fprDiscardable, reg ∈ s.fprDiscardable) ∧
      ∀ field ∈ (s.atOp exits op).crDiscardable, field ∈ s.crDiscardable := by
  rw [Liveness.atOp, checked_eq]
  cases canCauseGatherPipeInterruptCheck op with
  | false => exact ⟨fun _ => id, fun _ => id, fun _ => id⟩
  | true => exact ⟨nofun, nofun, nofun⟩

theorem wanted_beforeOp :
    (s.beforeOp exits op).wantsCA =
        ((s.wantsCA || (op.wantsCA || exits.mayExitBlock op)) && (!op.outputCA || op.wantsCA)) ∧
      (s.beforeOp exits op).wantsFPRF =
        ((s.wantsFPRF || (op.wantsFPRF || exits.mayExitBlock op)) &&
          (!op.outputFPRF || op.wantsFPRF)) := by
  simp only [Liveness.beforeOp, checked_eq, Liveness.noneDiscardable,
    apply_ite Liveness.wantsCA, apply_ite Liveness.wantsFPRF, ite_self, and_self]

theorem wanted_atOp :
    (s.atOp exits op).wantsCA = (s.wantsCA || exits.mayExitBlock op) ∧
      (s.atOp exits op).wantsFPRF = (s.wantsFPRF || exits.mayExitBlock op) := by
  rw [Liveness.atOp, checked_eq]
  exact ⟨rfl, rfl⟩

end

theorem discardableSound_backwardScan (code : List CodeOp) :
    DiscardableSound exits (backwardScan exits code).2 code := by
  induction code with
  | nil => exact ⟨nofun, nofun, nofun⟩
  | cons op code ih =>
    obtain ⟨hgpr, hfpr, hcr⟩ := discardable_beforeOp exits (backwardScan exits code).2 op
    constructor
    · intro reg h
      exact overwrittenFirst_of_mem (ih.gpr reg) (hgpr ▸ h)
    · intro reg h
      exact overwrittenFirst_of_mem (ih.fpr reg) (hfpr ▸ h)
    · intro field h
      exact overwrittenFirst_of_mem (ih.cr field) (hcr ▸ h)

theorem discardable_sound (exits : Exits) (code : List CodeOp) :
    ForEachOp exits (DiscardableSound exits) code := by
  rw [forEachOp_iff]
  intro before op after _
  have hsound : DiscardableSound exits (backwardScan exits after).2 after :=
    discardableSound_backwardScan after
  obtain ⟨hgpr, hfpr, hcr⟩ := mem_atOp exits (backwardScan exits after).2 op
  exact ⟨fun reg h => hsound.gpr reg (hgpr reg h), fun reg h => hsound.fpr reg (hfpr reg h),
    fun field h => hsound.cr field (hcr field h)⟩

/-! The flags. -/

section
variable (outputs wants leaves : CodeOp → Bool)

def wantedBefore : List CodeOp → Bool
  | [] => true
  | op :: code => (wantedBefore code || (wants op || leaves op)) && (!outputs op || wants op)

variable {outputs wants leaves}

/-- A flag that is not wanted is overwritten before it is read, and the block is not left before the
    instruction that overwrites it. -/
theorem wantedBefore_eq_false {code : List CodeOp}
    (h : wantedBefore outputs wants leaves code = false) :
    ∃ passed op rest, code = passed ++ op :: rest ∧ outputs op = true ∧ wants op = false ∧
      ∀ op' ∈ passed, wants op' = false ∧ leaves op' = false := by
  induction code with
  | nil => cases h
  | cons op code ih =>
    rw [wantedBefore, Bool.and_eq_false_iff, Bool.or_eq_false_iff, Bool.or_eq_false_iff,
      Bool.or_eq_false_iff] at h
    rcases h with ⟨hcode, hwants, hleaves⟩ | ⟨houtputs, hwants⟩
    · obtain ⟨passed, op', rest, rfl, houtputs, hwants', hpassed⟩ := ih hcode
      exact ⟨op :: passed, op', rest, rfl, houtputs, hwants',
        List.forall_mem_cons.2 ⟨⟨hwants, hleaves⟩, hpassed⟩⟩
    · rw [Bool.not_eq_false'] at houtputs
      exact ⟨[], op, code, rfl, houtputs, hwants, List.forall_mem_nil _⟩

/-- An instruction that may leave the block and overwrites the flag, without reading it, does not follow
    one that does not leave the block. -/
def FlagKept (outputs wants leaves : CodeOp → Bool) (code : List CodeOp) : Prop :=
  ∀ before op next after, code = before ++ op :: next :: after → leaves op = false →
    leaves next = true → outputs next = true → wants next = true

theorem exists_last (op : CodeOp) (passed : List CodeOp) :
    ∃ before last, op :: passed = before ++ [last] ∧ last ∈ op :: passed :=
  match (List.eq_nil_or_concat' (op :: passed)).resolve_left (List.cons_ne_nil _ _) with
  | ⟨before, last, h⟩ => ⟨before, last, h, h ▸ List.mem_append_right _ (List.mem_singleton.2 rfl)⟩

theorem flag_sound_iff (exits : Exits) (outputs wants : CodeOp → Bool) (code : List CodeOp) :
    (∀ before op after, code = before ++ op :: after →
      (wantedBefore outputs wants exits.mayExitBlock after || exits.mayExitBlock op) = false →
        OverwrittenFirst exits (outputs ·) (wants ·) (fun _ => False) after) ↔
      FlagKept outputs wants exits.mayExitBlock code := by
  constructor
  · intro hsound before op next after hcode hop hnext houtputs
    by_contra hwants
    rw [Bool.not_eq_true] at hwants
    have hfalse : (wantedBefore outputs wants exits.mayExitBlock (next :: after) ||
        exits.mayExitBlock op) = false := by
      rw [wantedBefore, houtputs, hwants, hop]
      simp
    -- Whatever overwrites the flag comes behind `next`, or is `next`.
    obtain ⟨passed, op', rest, hafter, -, hpassed, -⟩ := hsound before op _ hcode hfalse
    have hmem : next ∈ passed ++ [op'] := by
      cases passed with
      | nil =>
        obtain ⟨rfl, -⟩ := List.cons.inj hafter
        exact List.mem_singleton.2 rfl
      | cons first passed =>
        obtain ⟨rfl, -⟩ := List.cons.inj hafter
        exact List.mem_cons_self ..
    rw [(hpassed next hmem).2] at hnext
    cases hnext
  · intro hkept before op after hcode hfalse
    obtain ⟨hwanted, hop⟩ := Bool.or_eq_false_iff.1 hfalse
    obtain ⟨passed, op', rest, rfl, houtputs, hwants, hpassed⟩ := wantedBefore_eq_false hwanted
    have hleaves : exits.mayExitBlock op' = false := by
      by_contra hleaves
      rw [Bool.not_eq_false] at hleaves
      obtain ⟨first, last, hlast, hmem⟩ := exists_last op passed
      have hlast' : exits.mayExitBlock last = false := by
        rcases List.mem_cons.1 hmem with rfl | hmem
        · exact hop
        · exact (hpassed last hmem).2
      have hsplit : code = (before ++ first) ++ last :: op' :: rest := by
        calc code = before ++ (op :: passed) ++ op' :: rest := by
              rw [hcode, List.append_assoc, List.cons_append]
          _ = (before ++ first) ++ last :: op' :: rest := by
              rw [hlast]
              simp
      rw [hkept _ last op' rest hsplit hlast' hleaves houtputs] at hwants
      cases hwants
    refine ⟨passed, op', rest, rfl, houtputs, ?_, fun _ _ => not_false⟩
    intro op'' hmem
    rcases List.mem_append.1 hmem with hmem | hmem
    · obtain ⟨hwants', hleaves'⟩ := hpassed op'' hmem
      exact ⟨Bool.eq_false_iff.1 hwants', hleaves'⟩
    · obtain rfl := List.mem_singleton.1 hmem
      exact ⟨Bool.eq_false_iff.1 hwants, hleaves⟩

end

theorem wanted_backwardScan (exits : Exits) (code : List CodeOp) :
    (backwardScan exits code).2.wantsCA =
        wantedBefore CodeOp.outputCA CodeOp.wantsCA exits.mayExitBlock code ∧
      (backwardScan exits code).2.wantsFPRF =
        wantedBefore CodeOp.outputFPRF CodeOp.wantsFPRF exits.mayExitBlock code := by
  induction code with
  | nil => exact ⟨rfl, rfl⟩
  | cons op code ih =>
    obtain ⟨hca, hfprf⟩ := wanted_beforeOp exits (backwardScan exits code).2 op
    rw [ih.1] at hca
    rw [ih.2] at hfprf
    exact ⟨hca, hfprf⟩

def FlagsKept (exits : Exits) (code : List CodeOp) : Prop :=
  FlagKept CodeOp.outputCA CodeOp.wantsCA exits.mayExitBlock code ∧
    FlagKept CodeOp.outputFPRF CodeOp.wantsFPRF exits.mayExitBlock code

theorem wanted_sound_iff (exits : Exits) (code : List CodeOp) :
    ForEachOp exits (WantedSound exits) code ↔ FlagsKept exits code := by
  rw [FlagsKept, ← flag_sound_iff, ← flag_sound_iff, forEachOp_iff]
  constructor
  · intro h
    constructor
    · intro before op after hcode hfalse
      refine (h before op after hcode).ca ?_
      rw [(wanted_atOp exits _ op).1, (wanted_backwardScan exits after).1]
      exact hfalse
    · intro before op after hcode hfalse
      refine (h before op after hcode).fprf ?_
      rw [(wanted_atOp exits _ op).2, (wanted_backwardScan exits after).2]
      exact hfalse
  · rintro ⟨hca, hfprf⟩ before op after hcode
    constructor
    · intro hfalse
      rw [(wanted_atOp exits _ op).1, (wanted_backwardScan exits after).1] at hfalse
      exact hca before op after hcode hfalse
    · intro hfalse
      rw [(wanted_atOp exits _ op).2, (wanted_backwardScan exits after).2] at hfalse
      exact hfprf before op after hcode hfalse

def LivenessSound (exits : Exits) (code : List CodeOp) : Prop :=
  ForEachOp exits (DiscardableSound exits) code ∧ ForEachOp exits (WantedSound exits) code

/-- The registers that may be discarded are overwritten first; all the facts hold just if no instruction
    that may leave the block is the one that a flag is overwritten by. -/
theorem liveness_sound_iff (analyzer : PPCAnalyzer) (exits : Exits) (fetched : List Fetched) :
    ForEachOp exits (DiscardableSound exits) (fetched.map analyzer.codeOp) ∧
      (LivenessSound exits (fetched.map analyzer.codeOp) ↔
        FlagsKept exits (fetched.map analyzer.codeOp)) := by
  have hdiscardable := discardable_sound exits (fetched.map analyzer.codeOp)
  refine ⟨hdiscardable, ?_⟩
  rw [LivenessSound, wanted_sound_iff]
  exact and_iff_right hdiscardable

/-- `fmr f0, f0; fadd f1, f2, f3; fdiv f4, f5, f6`, where a division by zero is an exception. -/
def faddFdiv : List Fetched :=
  [⟨0xFC000090#32, 0x80003000#32, true⟩, ⟨0xFC22182A#32, 0x80003004#32, false⟩,
    ⟨0xFC853024#32, 0x80003008#32, false⟩]

/-- FPRF is not wanted behind the addition, although the division may raise its exception. -/
theorem liveness_not_sound :
    ¬LivenessSound ⟨fun _ => false, fun _ => false⟩
      (faddFdiv.map (PPCAnalyzer.codeOp ⟨false, true⟩)) := by
  intro hsound
  have hkept := (wanted_sound_iff _ _).1 hsound.2
  have hwants := hkept.2 [PPCAnalyzer.codeOp ⟨false, true⟩ ⟨0xFC000090#32, 0x80003000#32, true⟩]
    _ _ [] rfl (by decide) (by decide) (by decide)
  exact absurd hwants (by decide)

end DolphinXR.PowerPC.PPCAnalyst
