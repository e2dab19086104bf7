import DolphinXR.Core.PPCAnalyst

/- Which floating-point registers the scan from the beginning of a block takes for store-safe: those
   last written by a single-precision operation, or by a copy of store-safe registers. The
   instructions that change the float mode were to end that, but the scan looks for them among the
   instructions that write a floating-point register, which none of them does; so it is right only
   if they come where no register is store-safe. -/
namespace DolphinXR.PowerPC.PPCAnalyst
open PPCTables

def writesFpscr (op : CodeOp) : Prop :=
  op.opinfo.opname ∈ ["mtfsfx", "mtfsfix", "mtfsb0x", "mtfsb1x"]

instance (op : CodeOp) : Decidable (writesFpscr op) := inferInstanceAs (Decidable (_ ∈ _))

def CodeOp.singleResult (op : CodeOp) : Prop :=
  op.opinfo.type = .singleFP ∨ op.opinfo.type = .ps ∨ op.opinfo.isCalled "frsp" = true

/-- A register last written, by some instructions, by a single-precision operation or by a copy of such
    registers, with none of the instructions of one kind since. -/
inductive SafelyWritten (barred : CodeOp → Prop) : List CodeOp → Fin 32 → Prop where
  | single {before between : List CodeOp} {op : CodeOp} {reg : Fin 32} (hreg : op.fregOut = some reg)
      (hcopy : op.bitexactInputs = ∅) (hsingle : op.singleResult)
      (hbetween : ∀ op' ∈ between, op'.fregOut ≠ some reg ∧ ¬barred op') :
      SafelyWritten barred (before ++ op :: between) reg
  | copy {before between : List CodeOp} {op : CodeOp} {reg : Fin 32} (hreg : op.fregOut = some reg)
      (hcopy : op.bitexactInputs ≠ ∅)
      (hinputs : ∀ input ∈ op.bitexactInputs, SafelyWritten barred before input)
      (hbetween : ∀ op' ∈ between, op'.fregOut ≠ some reg ∧ ¬barred op') :
      SafelyWritten barred (before ++ op :: between) reg

theorem opinfo_mtfs : allInstructions.all (fun info =>
    !(info.has flOutFloatD && info.isCalled "mtfs")) = true := by
  decide +kernel

theorem isCalled_mtfs_of_mem {info : GekkoOPInfo}
    (h : info.opname ∈ ["mtfsfx", "mtfsfix", "mtfsb0x", "mtfsb1x"]) :
    info.isCalled "mtfs" = true := by
  have hnames : ["mtfsfx", "mtfsfix", "mtfsb0x", "mtfsb1x"].all
      (fun name => "mtfs".toList.isPrefixOf name.toList) = true := by decide +kernel
  exact List.all_eq_true.1 hnames _ h

section
variable {analyzer : PPCAnalyzer} {op : CodeOp}

def IsCodeOp (analyzer : PPCAnalyzer) (op : CodeOp) : Prop := ∃ code, op = analyzer.codeOp code

theorem IsCodeOp.isCalled_mtfs (h : IsCodeOp analyzer op) {reg : Fin 32}
    (hreg : op.fregOut = some reg) : op.opinfo.isCalled "mtfs" = false := by
  obtain ⟨code, rfl⟩ := h
  have hinfo := List.all_eq_true.1 opinfo_mtfs _ (getOpInfo_mem code.inst)
  rw [Bool.not_eq_true', Bool.and_eq_false_iff] at hinfo
  refine hinfo.resolve_left ?_
  rw [Bool.not_eq_false]
  by_contra hout
  rw [PPCAnalyzer.codeOp, PPCAnalyzer.setInstructionStats] at hreg
  rw [if_neg hout] at hreg
  cases hreg

theorem IsCodeOp.fregOut_of_writesFpscr (h : IsCodeOp analyzer op) (hwrites : writesFpscr op) :
    op.fregOut = none := by
  cases hreg : op.fregOut with
  | none => rfl
  | some reg =>
    have hcalled := h.isCalled_mtfs hreg
    have hname := isCalled_mtfs_of_mem hwrites
    rw [hcalled] at hname
    cases hname

end

/-! What a register was last written by. -/

section
variable {barred : CodeOp → Prop} {passed : List CodeOp} {op : CodeOp} {reg : Fin 32}

def SafeWrite (barred : CodeOp → Prop) (before : List CodeOp) (op : CodeOp) : Prop :=
  (op.bitexactInputs = ∅ ∧ op.singleResult) ∨
    (op.bitexactInputs ≠ ∅ ∧ ∀ input ∈ op.bitexactInputs, SafelyWritten barred before input)

theorem SafeWrite.safelyWritten {before between : List CodeOp} (h : SafeWrite barred before op)
    (hreg : op.fregOut = some reg)
    (hbetween : ∀ op' ∈ between, op'.fregOut ≠ some reg ∧ ¬barred op') :
    SafelyWritten barred (before ++ op :: between) reg := by
  rcases h with ⟨hcopy, hsingle⟩ | ⟨hcopy, hinputs⟩
  · exact .single hreg hcopy hsingle hbetween
  · exact .copy hreg hcopy hinputs hbetween

theorem SafelyWritten.exists_write (h : SafelyWritten barred passed reg) :
    ∃ before op between, passed = before ++ op :: between ∧ op.fregOut = some reg ∧
      SafeWrite barred before op ∧ ∀ op' ∈ between, op'.fregOut ≠ some reg ∧ ¬barred op' := by
  cases h with
  | single hreg hcopy hsingle hbetween =>
    exact ⟨_, _, _, rfl, hreg, .inl ⟨hcopy, hsingle⟩, hbetween⟩
  | copy hreg hcopy hinputs hbetween =>
    exact ⟨_, _, _, rfl, hreg, .inr ⟨hcopy, hinputs⟩, hbetween⟩

theorem safelyWritten_concat_iff : SafelyWritten barred (passed ++ [op]) reg ↔
    (op.fregOut = some reg ∧ SafeWrite barred passed op) ∨
      ((op.fregOut ≠ some reg ∧ ¬barred op) ∧ SafelyWritten barred passed reg) := by
  constructor
  · intro h
    obtain ⟨before, write, between, hsplit, hreg, hwrite, hbetween⟩ := h.exists_write
    rcases List.eq_nil_or_concat' between with rfl | ⟨between, last, rfl⟩
    · obtain ⟨rfl, hlast⟩ := List.append_inj' hsplit rfl
      obtain rfl := List.singleton_inj.1 hlast
      exact .inl ⟨hreg, hwrite⟩
    · rw [← List.cons_append, ← List.append_assoc] at hsplit
      obtain ⟨rfl, hlast⟩ := List.append_inj' hsplit rfl
      obtain rfl := List.singleton_inj.1 hlast
      obtain ⟨hbefore, hop⟩ := List.forall_mem_append.1 hbetween
      exact .inr ⟨hop op (List.mem_singleton.2 rfl), hwrite.safelyWritten hreg hbefore⟩
  · rintro (⟨hreg, hwrite⟩ | ⟨hop, h⟩)
    · exact hwrite.safelyWritten hreg (List.forall_mem_nil _)
    · obtain ⟨before, write, between, rfl, hreg, hwrite, hbetween⟩ := h.exists_write
      rw [List.append_assoc, List.cons_append]
      exact hwrite.safelyWritten hreg
        (List.forall_mem_append.2 ⟨hbetween, List.forall_mem_singleton.2 hop⟩)

end

/-! What the scan keeps. -/

theorem mem_setReg {set : Finset (Fin 32)} {reg reg' : Fin 32} {value : Bool} :
    reg' ∈ setReg set reg value ↔ (reg' = reg ∧ value = true) ∨ (reg' ≠ reg ∧ reg' ∈ set) := by
  rw [setReg]
  cases value with
  | false => simp
  | true =>
    by_cases heq : reg' = reg
    · simp [heq]
    · simp [heq]

def FprState.afterOps (s : FprState) (code : List CodeOp) : FprState :=
  code.foldl FprState.afterOp s

theorem FprState.afterOp_of_none {s : FprState} {op : CodeOp} (h : op.fregOut = none) :
    s.afterOp op = s := by
  rw [FprState.afterOp, h]

theorem mem_storeSafe_afterOp {analyzer : PPCAnalyzer} {s : FprState} {op : CodeOp} {reg : Fin 32}
    (h : IsCodeOp analyzer op) : reg ∈ (s.afterOp op).fprIsStoreSafe ↔
      (op.fregOut = some reg ∧ ((op.bitexactInputs = ∅ ∧ op.singleResult) ∨
        (op.bitexactInputs ≠ ∅ ∧ ∀ input ∈ op.bitexactInputs, input ∈ s.fprIsStoreSafe))) ∨
      (op.fregOut ≠ some reg ∧ reg ∈ s.fprIsStoreSafe) := by
  cases hreg : op.fregOut with
  | none =>
    rw [FprState.afterOp_of_none hreg]
    simp
  | some reg' =>
    have hset : (s.afterOp op).fprIsStoreSafe =
        if op.bitexactInputs ≠ ∅ then
          setReg s.fprIsStoreSafe reg' (op.bitexactInputs ⊆ s.fprIsStoreSafe)
        else setReg s.fprIsStoreSafe reg'
          (op.opinfo.type = .singleFP || op.opinfo.type = .ps || op.opinfo.isCalled "frsp") := by
      simp only [FprState.afterOp, hreg, h.isCalled_mtfs hreg, Bool.false_eq_true, if_false]
    have hcomm : (some reg' = some reg) = (reg = reg') :=
      propext ⟨fun heq => (Option.some.inj heq).symm, fun heq => congrArg some heq.symm⟩
    rw [hset, ne_eq (some reg'), hcomm]
    by_cases hcopy : op.bitexactInputs = ∅
    · rw [if_neg (not_not.2 hcopy), mem_setReg]
      simp [hcopy, CodeOp.singleResult, or_assoc]
    · rw [if_pos hcopy, mem_setReg, decide_eq_true_eq]
      simp [hcopy, Finset.subset_iff]

theorem mem_storeSafe_iff {analyzer : PPCAnalyzer} {passed : List CodeOp} {reg : Fin 32}
    (h : ∀ op ∈ passed, IsCodeOp analyzer op) :
    reg ∈ (({} : FprState).afterOps passed).fprIsStoreSafe ↔
      SafelyWritten (fun _ => False) passed reg := by
  induction passed using List.reverseRecOn generalizing reg with
  | nil =>
    refine iff_of_false (Finset.notMem_empty _) ?_
    intro hwritten
    obtain ⟨before, op, between, hsplit, -⟩ := hwritten.exists_write
    exact List.cons_ne_nil _ _ (List.append_eq_nil_iff.1 hsplit.symm).2
  | append_singleton passed op ih =>
    obtain ⟨hpassed, hop⟩ := List.forall_mem_append.1 h
    have hstep : ({} : FprState).afterOps (passed ++ [op]) =
        (({} : FprState).afterOps passed).afterOp op := List.foldl_concat ..
    rw [hstep, mem_storeSafe_afterOp (hop op (List.mem_singleton.2 rfl)), safelyWritten_concat_iff,
      SafeWrite]
    simp only [ih hpassed, not_false_eq_true, and_true]

/-! The scan of a block. -/

theorem map_fst_forwardScan (s : FprState) (code : List CodeOp) :
    (forwardScan s code).map Prod.fst = code := by
  induction code generalizing s with
  | nil => rfl
  | cons op code ih => exact congrArg (op :: ·) (ih (s.afterOp op))

theorem forwardScan_append (s : FprState) (code code' : List CodeOp) :
    forwardScan s (code ++ code') = forwardScan s code ++ forwardScan (s.afterOps code) code' := by
  induction code generalizing s with
  | nil => rfl
  | cons op code ih => exact congrArg (_ :: ·) (ih (s.afterOp op))

theorem forwardScan_eq {s state state' : FprState} {code : List CodeOp} {op : CodeOp}
    {scanned rest : List (CodeOp × FprState × FprState)}
    (h : forwardScan s code = scanned ++ (op, state, state') :: rest) :
    code = scanned.map Prod.fst ++ op :: rest.map Prod.fst ∧
      state = s.afterOps (scanned.map Prod.fst) := by
  have hcode : code = scanned.map Prod.fst ++ op :: rest.map Prod.fst := by
    rw [← map_fst_forwardScan s code, h, List.map_append, List.map_cons]
  refine ⟨hcode, ?_⟩
  rw [hcode, forwardScan_append] at h
  have hlength : (forwardScan s (scanned.map Prod.fst)).length = scanned.length := by
    rw [← List.length_map Prod.fst, map_fst_forwardScan, List.length_map]
  obtain ⟨-, hrest⟩ := List.append_inj h hlength
  exact (congrArg (fun x => x.2.1) (List.cons.inj hrest).1).symm

/-- A register that an instruction finds store-safe was last written so that it is, and no instruction
    has written the FPSCR since. -/
def StoreSafeSound (code : List CodeOp) : Prop :=
  ∀ scanned op state state' rest,
    forwardScan {} code = scanned ++ (op, state, state') :: rest →
      ∀ reg ∈ state.fprIsStoreSafe, SafelyWritten writesFpscr (scanned.map Prod.fst) reg

/-- Where an instruction writes the FPSCR, and another one follows it, no register was last written by
    a single-precision operation or a copy of such registers. -/
def ModeKept (code : List CodeOp) : Prop :=
  ∀ passed op next rest, code = passed ++ op :: next :: rest → writesFpscr op →
    ∀ reg, ¬SafelyWritten (fun _ => False) passed reg

theorem SafelyWritten.of_modeKept {code passed rest : List CodeOp} {op : CodeOp} {reg : Fin 32}
    (hkept : ModeKept code) (h : SafelyWritten (fun _ => False) passed reg)
    (hcode : code = passed ++ op :: rest) : SafelyWritten writesFpscr passed reg := by
  -- A write, followed by some instructions, is still the last one at each of them.
  have hbetween : ∀ {before between : List CodeOp} {write : CodeOp} {reg : Fin 32}
      (op : CodeOp) (rest : List CodeOp), code = before ++ write :: between ++ op :: rest →
      write.fregOut = some reg → SafeWrite (fun _ => False) before write →
      (∀ op' ∈ between, op'.fregOut ≠ some reg ∧ ¬False) →
      ∀ op' ∈ between, op'.fregOut ≠ some reg ∧ ¬writesFpscr op' := by
    intro before between write reg op rest hsplit hreg hwrite hfree op' hmem
    refine ⟨(hfree op' hmem).1, fun hwrites => ?_⟩
    obtain ⟨first, last, rfl⟩ := List.append_of_mem hmem
    have hwritten : SafelyWritten (fun _ => False) (before ++ write :: first) reg :=
      hwrite.safelyWritten hreg fun op'' h => hfree op'' (List.mem_append_left _ h)
    cases last with
    | nil =>
      refine hkept (before ++ write :: first) op' op rest ?_ hwrites reg hwritten
      rw [hsplit]
      simp
    | cons next last =>
      refine hkept (before ++ write :: first) op' next (last ++ op :: rest) ?_ hwrites reg hwritten
      rw [hsplit]
      simp
  induction h generalizing op rest with
  | single hreg hcopy hsingle hfree =>
    exact .single hreg hcopy hsingle
      (hbetween op rest hcode hreg (.inl ⟨hcopy, hsingle⟩) hfree)
  | @copy before between write reg hreg hcopy hinputs hfree ih =>
    have hwrite : code = before ++ write :: (between ++ op :: rest) := by
      rw [hcode]
      simp
    exact .copy hreg hcopy (fun input hinput => ih input hinput hwrite)
      (hbetween op rest hcode hreg (.inr ⟨hcopy, hinputs⟩) hfree)

theorem isCodeOp_of_mem {analyzer : PPCAnalyzer} {fetched : List Fetched} :
    ∀ op ∈ fetched.map analyzer.codeOp, IsCodeOp analyzer op := by
  intro op hmem
  obtain ⟨code, -, rfl⟩ := List.mem_map.1 hmem
  exact ⟨code, rfl⟩

theorem storeSafeSound_iff_modeKept {analyzer : PPCAnalyzer} {code : List CodeOp}
    (hops : ∀ op ∈ code, IsCodeOp analyzer op) : StoreSafeSound code ↔ ModeKept code := by
  constructor
  · intro hsound passed op next rest hcode hwrites reg hwritten
    have hpassed : ∀ op ∈ passed, IsCodeOp analyzer op :=
      fun op' hmem => hops op' (hcode ▸ List.mem_append_left _ hmem)
    have hop : op.fregOut = none :=
      (hops op (hcode ▸ List.mem_append_right _ (List.mem_cons_self ..))).fregOut_of_writesFpscr
        hwrites
    have hreg := (mem_storeSafe_iff hpassed).2 hwritten
    -- The instruction leaves the state as it is, so the next one finds the register store-safe.
    have hscan : forwardScan {} code = forwardScan {} (passed ++ [op]) ++
        (next, ({} : FprState).afterOps passed, (({} : FprState).afterOps passed).afterOp next) ::
          forwardScan ((({} : FprState).afterOps passed).afterOp next) rest := by
      have hstate : ({} : FprState).afterOps (passed ++ [op]) = ({} : FprState).afterOps passed :=
        (List.foldl_concat ..).trans (FprState.afterOp_of_none hop)
      rw [hcode, show passed ++ op :: next :: rest = (passed ++ [op]) ++ next :: rest by simp,
        forwardScan_append, hstate]
      rfl
    have hsafe := hsound _ next _ _ _ hscan reg hreg
    rw [map_fst_forwardScan, safelyWritten_concat_iff, hop] at hsafe
    rcases hsafe with ⟨hnone, -⟩ | ⟨⟨-, hfree⟩, -⟩
    · cases hnone
    · exact hfree hwrites
  · intro hkept scanned op state state' rest hscan reg hreg
    obtain ⟨hcode, rfl⟩ := forwardScan_eq hscan
    have hpassed : ∀ op ∈ scanned.map Prod.fst, IsCodeOp analyzer op :=
      fun op' hmem => hops op' (hcode ▸ List.mem_append_left _ hmem)
    exact ((mem_storeSafe_iff hpassed).1 hreg).of_modeKept hkept hcode

/-- The registers found store-safe were last written under the float mode there is just if no instruction
    changes the mode while a register is store-safe. -/
theorem storeSafe_sound_iff (analyzer : PPCAnalyzer) (fetched : List Fetched) :
    StoreSafeSound (fetched.map analyzer.codeOp) ↔ ModeKept (fetched.map analyzer.codeOp) :=
  storeSafeSound_iff_modeKept isCodeOp_of_mem

/-- `fadds f1, f2, f3; mtfsf 255, f4; stfs f1, 0(r3)`. -/
def faddsMtfsf : List Fetched :=
  [⟨0xEC22182A#32, 0x80003000#32, true⟩, ⟨0xFDFE258E#32, 0x80003004#32, false⟩,
    ⟨0xD0230000#32, 0x80003008#32, false⟩]

/-- The store finds the sum store-safe, although the float mode was changed since. -/
theorem storeSafe_not_sound :
    ¬StoreSafeSound (faddsMtfsf.map (PPCAnalyzer.codeOp ⟨false, false⟩)) := by
  intro hsound
  have hkept := (storeSafeSound_iff_modeKept isCodeOp_of_mem).1 hsound
  refine hkept [PPCAnalyzer.codeOp ⟨false, false⟩ ⟨0xEC22182A#32, 0x80003000#32, true⟩]
    _ _ [] rfl (by decide +kernel) 1 ?_
  change SafelyWritten _ ([] ++ _ :: []) 1
  refine .single (by decide +kernel) (by decide +kernel) ?_ (List.forall_mem_nil _)
  unfold CodeOp.singleResult
  decide +kernel

end DolphinXR.PowerPC.PPCAnalyst
