import DolphinXR.Core.LoopReplay

/- The idle loops of the analyst (`IsBusyWaitLoop` of Core/PowerPC/PPCAnalyst.cpp). A loop is taken
   for one if it reads no general-purpose register before it writes it. The carry, the summary
   overflow bit, CR and LR are not looked at, nor is what the string loads really write. So a second
   pass does what the first one did if what the instructions read of these has been written before
   in the same pass, or is as the first pass leaves it. -/
namespace DolphinXR.PowerPC.PPCAnalyst

open Lib PPCTables PowerPCState UGeckoInstruction

/-- A block up to the instruction that is looked at. The destination of a return from a call that is
    followed is the analyst's. -/
structure CodeBlock where
  address : BitVec 32
  code : List CodeOp
  head_address : ∀ op ∈ code.head?, op.address = address
  analysed : ∀ op ∈ code, ∃ (analyzer : PPCAnalyzer) (fetched : Fetched),
    op = { analyzer.codeOp fetched with branchTo := op.branchTo }

def nop : UGeckoInstruction := 0x60000000

/-- The loop of `IsBusyWaitLoop`, whose last index is the branch that is looked at. -/
def busyWaitScan (address : BitVec 32) : List CodeOp → Finset (Fin 32) → Finset (Fin 32) → Bool
  | [], _, _ => false
  | op :: code, writeDisallowedRegs, writtenRegs =>
    if op.opinfo.type = .branch then
      if op.branchUsesCtr then false
      else if op.branchTo = address ∧ code = [] then true
      else busyWaitScan address code writeDisallowedRegs writtenRegs
    else if op.inst = nop then busyWaitScan address code writeDisallowedRegs writtenRegs
    else if op.opinfo.type ≠ .integer ∧ op.opinfo.type ≠ .load then false
    else
      let writeDisallowedRegs := writeDisallowedRegs ∪ op.regsIn \ writtenRegs
      if Disjoint op.regsOut writeDisallowedRegs then
        busyWaitScan address code writeDisallowedRegs (writtenRegs ∪ op.regsOut)
      else false

def CodeBlock.isBusyWaitLoop (block : CodeBlock) : Bool :=
  busyWaitScan block.address block.code ∅ ∅

/-- The instructions are run from the one at `pc` on, until one leads to the start. There is no
    result where an exception is raised or the run goes elsewhere. -/
def runFrom (mmu : MmuReads) (start : BitVec 32) : List CodeOp → Machine → Option Machine
  | [], _ => none
  | op :: code, m =>
    if m.pc = op.address then
      (Interpreter.singleStepInner mmu m op.inst).bind fun m =>
        if m.pc = start then some m else runFrom mmu start code m
    else none

def CodeBlock.pass (block : CodeBlock) (mmu : MmuReads) (m : Machine) : Option Machine :=
  runFrom mmu block.address block.code m

/-- After a pass that comes back to the start a second one changes no register. -/
def CodeBlock.Idles (block : CodeBlock) (mmu : MmuReads) (m : Machine) : Prop :=
  ∀ last, block.pass mmu m = some last →
    ∃ last', block.pass mmu last = some last' ∧ last'.toPowerPCState = last.toPowerPCState

/-- What a pass has written behind an instruction. -/
def writtenAfter (written : Written) (op : CodeOp) (m : Machine) : Written :=
  if op.opinfo.type = .branch then written.afterBranch m op.inst
  else if op.inst = nop then written
  else written.afterStraight op.inst

/-- What the instruction reads besides the general-purpose registers has been written before in the
    pass, or is as the pass leaves it; and it loads one register at most. -/
structure Finds (last : Machine) (written : Written) (op : CodeOp) (m : Machine) : Prop where
  carry : op.opinfo.has flReadCa = true → written.ca = true ∨ m.ca = last.ca
  summary : (crWritten op.opinfo op.inst).Nonempty → m.so = last.so
  condition : op.opinfo.type = .branch → op.inst.opcd ≠ 18 → op.inst.bo.getLsbD 4 = false →
    ConditionRegister.fieldOf op.inst.bi ∈ written.cr ∨
      m.cr.getBit op.inst.bi = last.cr.getBit op.inst.bi
  link : op.opinfo.type = .branch → Interpreter.branchTaken m op.inst = true → op.inst.opcd = 19 →
    op.inst.subop10 ≠ 528 → written.lr = true ∨ m.lr = last.lr
  string : OneRegister op.inst m.toPowerPCState

/-- Every instruction of the pass finds it so. -/
def SettledFrom (mmu : MmuReads) (start : BitVec 32) (last : Machine) :
    List CodeOp → Written → Machine → Prop
  | [], _, _ => True
  | op :: code, written, m => Finds last written op m ∧
      ∀ m', Interpreter.singleStepInner mmu m op.inst = some m' → m'.pc ≠ start →
        SettledFrom mmu start last code (writtenAfter written op m) m'

def CodeBlock.Settled (block : CodeBlock) (mmu : MmuReads) (m : Machine) : Prop :=
  ∀ last, block.pass mmu m = some last → SettledFrom mmu block.address last block.code {} m

/-! ### The scan and the runs, step by step -/

inductive Accepted (op : CodeOp) (disallowed written : Finset (Fin 32)) :
    Finset (Fin 32) → Finset (Fin 32) → Prop where
  | branch : op.opinfo.type = .branch → op.branchUsesCtr = false →
    Accepted op disallowed written disallowed written
  | nop : op.opinfo.type ≠ .branch → op.inst = nop →
    Accepted op disallowed written disallowed written
  | straight : op.inst ≠ PPCAnalyst.nop → op.opinfo.type = .integer ∨ op.opinfo.type = .load →
    Disjoint op.regsOut (disallowed ∪ op.regsIn \ written) →
    Accepted op disallowed written (disallowed ∪ op.regsIn \ written) (written ∪ op.regsOut)

theorem busyWaitScan_cons {address : BitVec 32} {op : CodeOp} {code : List CodeOp}
    {disallowed written : Finset (Fin 32)}
    (h : busyWaitScan address (op :: code) disallowed written = true) :
    ∃ disallowed' written', Accepted op disallowed written disallowed' written' ∧
      (code = [] ∨ busyWaitScan address code disallowed' written' = true) := by
  unfold busyWaitScan at h
  by_cases hbranch : op.opinfo.type = .branch
  · rw [if_pos hbranch] at h
    cases huses : op.branchUsesCtr with
    | true => simp [huses] at h
    | false =>
      refine ⟨_, _, .branch hbranch huses, ?_⟩
      rw [huses, if_neg Bool.false_ne_true] at h
      split at h
      · exact Or.inl (‹_ ∧ code = []›).2
      · exact Or.inr h
  · rw [if_neg hbranch] at h
    by_cases hnop : op.inst = nop
    · rw [if_pos hnop] at h
      exact ⟨_, _, .nop hbranch hnop, Or.inr h⟩
    · rw [if_neg hnop] at h
      split at h
      · exact absurd h Bool.false_ne_true
      · rename_i htype
        dsimp only at h
        split at h
        · refine ⟨_, _, .straight hnop ?_ ‹_›, Or.inr h⟩
          by_contra hneither
          exact htype (not_or.1 hneither)
        · exact absurd h Bool.false_ne_true

theorem runFrom_cons {mmu : MmuReads} {start : BitVec 32} {op : CodeOp} {code : List CodeOp}
    {m last : Machine} (h : runFrom mmu start (op :: code) m = some last) :
    m.pc = op.address ∧ ∃ m', Interpreter.singleStepInner mmu m op.inst = some m' ∧
      (m'.pc = start ∧ last = m' ∨ m'.pc ≠ start ∧ runFrom mmu start code m' = some last) := by
  unfold runFrom at h
  split at h
  · rename_i hpc
    obtain ⟨m', hstep, hrest⟩ := Option.bind_eq_some_iff.1 h
    refine ⟨hpc, m', hstep, ?_⟩
    split at hrest
    · exact Or.inl ⟨‹_›, (Option.some.inj hrest).symm⟩
    · exact Or.inr ⟨‹_›, hrest⟩
  · cases h

theorem singleStepInner_nop (mmu : MmuReads) (m : Machine) :
    Interpreter.singleStepInner mmu m nop = some (m.advance m.toPowerPCState) := by
  have hori : Interpreter.ori m.toPowerPCState nop = m.toPowerPCState := by
    have hzero : Interpreter.uimmLow nop = 0#32 := by decide
    unfold Interpreter.ori Interpreter.writeGpr
    rw [hzero, BitVec.or_zero]
    exact congrArg (fun gpr => { m.toPowerPCState with gpr := gpr }) (Function.update_eq_self _ _)
  show some (m.advance (Interpreter.ori m.toPowerPCState nop)) = _
  rw [hori]

/-! ### What a pass leaves as it was -/

/-- The registers that must not be written any more, the length of strings and CTR. -/
structure Kept (disallowed : Finset (Fin 32)) (m m' : Machine) : Prop where
  gpr : ∀ reg ∈ disallowed, m'.gpr reg = m.gpr reg
  string : m'.xerStringctrl = m.xerStringctrl
  ctr : m'.ctr = m.ctr

variable {mmu : MmuReads} {start : BitVec 32} {last x x' y : Machine} {op : CodeOp} {code : List CodeOp}
  {disallowed disallowed' writtenRegs : Finset (Fin 32)} {written : Written}

theorem Kept.trans {m m' m'' : Machine} (h : Kept disallowed m m') (h' : Kept disallowed' m' m'')
    (hsub : disallowed ⊆ disallowed') : Kept disallowed m m'' where
  gpr reg hreg := (h'.gpr reg (hsub hreg)).trans (h.gpr reg hreg)
  string := h'.string.trans h.string
  ctr := h'.ctr.trans h.ctr

def Analysed (op : CodeOp) : Prop :=
  ∃ (analyzer : PPCAnalyzer) (fetched : Fetched),
    op = { analyzer.codeOp fetched with branchTo := op.branchTo }

/-- What is found of it are the flags of its table, and what they say. -/
structure Stats (op : CodeOp) : Prop where
  opinfo : op.opinfo = getOpInfo op.inst
  regsIn : op.regsIn = statsRegsIn op.inst op.opinfo
  regsOut : op.regsOut = statsRegsOut op.inst op.opinfo
  branchUsesCtr : op.branchUsesCtr = statsBranchUsesCtr op.inst

theorem Analysed.stats (h : Analysed op) : Stats op := by
  obtain ⟨analyzer, fetched, h⟩ := h
  rw [h]
  exact ⟨rfl, rfl, rfl, rfl⟩

theorem Accepted.subset (h : Accepted op disallowed written.gpr disallowed' writtenRegs) :
    disallowed ⊆ disallowed' := by
  cases h with
  | branch _ _ => exact subset_rfl
  | nop _ _ => exact subset_rfl
  | straight _ _ _ => exact Finset.subset_union_left

theorem Accepted.written_eq (h : Accepted op disallowed written.gpr disallowed' writtenRegs)
    (hstats : Stats op) (m : Machine) : writtenRegs = (writtenAfter written op m).gpr := by
  unfold writtenAfter
  cases h with
  | branch htype _ => rw [if_pos htype]; rfl
  | nop htype hnop => rw [if_neg htype, if_pos hnop]
  | straight hnop htype _ =>
    have hbranch : op.opinfo.type ≠ .branch := by
      rintro hbranch
      simp [hbranch] at htype
    rw [if_neg hbranch, if_neg hnop, hstats.regsOut, hstats.opinfo]
    rfl

theorem Accepted.kept (h : Accepted op disallowed written.gpr disallowed' writtenRegs)
    (hstats : Stats op) (hstring : OneRegister op.inst x.toPowerPCState)
    (hstep : Interpreter.singleStepInner mmu x op.inst = some x') : Kept disallowed' x x' := by
  cases h with
  | branch htype huses =>
    rw [Interpreter.singleStepInner_branch (hstats.opinfo ▸ htype)
      (hstats.branchUsesCtr.symm.trans huses)] at hstep
    cases hstep
    unfold Interpreter.branched
    split
    · exact ⟨fun _ _ => rfl, rfl, rfl⟩
    · exact ⟨fun _ _ => rfl, rfl, rfl⟩
  | nop _ hnop =>
    rw [hnop, singleStepInner_nop] at hstep
    cases hstep
    exact ⟨fun _ _ => rfl, rfl, rfl⟩
  | straight _ htype hdisj =>
    have hframed := Replays.framed (hstats.opinfo ▸ htype) hstring hstep
    refine ⟨fun reg hreg => hframed.gpr reg fun hout => ?_, hframed.string, hframed.ctr⟩
    rw [← hstats.opinfo, ← hstats.regsOut] at hout
    exact Finset.disjoint_left.1 hdisj hout hreg

theorem kept_of_run (hcode : ∀ op ∈ code, Analysed op)
    (hscan : code = [] ∨ busyWaitScan start code disallowed written.gpr = true)
    (hset : SettledFrom mmu start last code written x)
    (hrun : runFrom mmu start code x = some last) : Kept disallowed x last := by
  induction code generalizing disallowed written x with
  | nil => cases hrun
  | cons op code ih =>
    obtain ⟨disallowed', writtenRegs, haccepted, hrest⟩ :=
      busyWaitScan_cons (hscan.resolve_left (List.cons_ne_nil _ _))
    obtain ⟨-, x', hstep, hend⟩ := runFrom_cons hrun
    obtain ⟨hfinds, hset⟩ := hset
    have hstats := (hcode op List.mem_cons_self).stats
    have hkept := haccepted.kept hstats hfinds.string hstep
    rcases hend with ⟨-, rfl⟩ | ⟨hpc, hrun⟩
    · exact ⟨fun reg hreg => hkept.gpr reg (haccepted.subset hreg), hkept.string, hkept.ctr⟩
    · rw [haccepted.written_eq hstats x] at hrest
      have htail := ih (fun op hop => hcode op (List.mem_cons_of_mem _ hop)) hrest
        (hset x' hstep hpc) hrun
      exact Kept.trans ⟨fun reg hreg => hkept.gpr reg (haccepted.subset hreg), hkept.string,
        hkept.ctr⟩ htail haccepted.subset

/-! ### The second pass -/

theorem getBit_eq_of_replays (h : Replays last written x y) {bit : Fin 32}
    (hread : ConditionRegister.fieldOf bit ∈ written.cr ∨ x.cr.getBit bit = last.cr.getBit bit) :
    x.cr.getBit bit = y.cr.getBit bit := by
  have hfield : ∀ cr cr' : ConditionRegister, cr.fields (ConditionRegister.fieldOf bit) =
      cr'.fields (ConditionRegister.fieldOf bit) → cr.getBit bit = cr'.getBit bit := by
    intro cr cr' h
    unfold ConditionRegister.getBit ConditionRegister.getField
    rw [h]
  obtain heq | ⟨hnot, hlast⟩ := h.regs.cr (ConditionRegister.fieldOf bit)
  · exact hfield _ _ heq
  · exact (hread.resolve_left hnot).trans (hfield _ _ hlast).symm

theorem Accepted.replays (h : Accepted op disallowed written.gpr disallowed' writtenRegs)
    (hstats : Stats op) (hreplays : Replays last written x y) (hfinds : Finds last written op x)
    (hkept : ∀ reg ∈ disallowed', last.gpr reg = x.gpr reg)
    (hstep : Interpreter.singleStepInner mmu x op.inst = some x') :
    ∃ y', Interpreter.singleStepInner mmu y op.inst = some y' ∧
      Replays last (writtenAfter written op x) x' y' := by
  unfold writtenAfter
  cases h with
  | branch htype huses =>
    rw [if_pos htype]
    exact hreplays.branch (hstats.opinfo ▸ htype) (hstats.branchUsesCtr.symm.trans huses)
      (fun h18 hbo => getBit_eq_of_replays hreplays (hfinds.condition htype h18 hbo))
      (fun htaken h19 h528 => hreplays.lr.eq (hfinds.link htype htaken h19 h528)) hstep
  | nop htype hnop =>
    rw [if_neg htype, if_pos hnop]
    rw [hnop, singleStepInner_nop] at hstep ⊢
    cases hstep
    exact ⟨_, rfl, hreplays.regs, hreplays.lr, hreplays.ctr, congrArg (· + 4) hreplays.pc⟩
  | straight hnop htype _ =>
    have hbranch : op.opinfo.type ≠ .branch := by
      rintro hbranch
      simp [hbranch] at htype
    rw [if_neg hbranch, if_neg hnop]
    have hread : ∀ reg ∈ op.regsIn, x.gpr reg = y.gpr reg := by
      intro reg hreg
      refine (hreplays.regs.gpr reg).eq ?_
      by_cases hwritten : reg ∈ written.gpr
      · exact Or.inl hwritten
      · exact Or.inr (hkept reg (Finset.mem_union_right _
          (Finset.mem_sdiff.2 ⟨hreg, hwritten⟩))).symm
    rw [hstats.regsIn] at hread
    rw [hstats.opinfo] at hread htype
    refine hreplays.straight htype hfinds.string hread (fun hca => ?_) (fun hcr => ?_) hstep
    · exact hreplays.regs.ca.eq (hfinds.carry (hstats.opinfo ▸ hca))
    · exact hreplays.regs.so.eq (Or.inr (hfinds.summary (hstats.opinfo ▸ hcr)))

theorem run_replays (hcode : ∀ op ∈ code, Analysed op)
    (hscan : code = [] ∨ busyWaitScan start code disallowed written.gpr = true)
    (hreplays : Replays last written x y) (hset : SettledFrom mmu start last code written x)
    (hrun : runFrom mmu start code x = some last) :
    ∃ y' written', runFrom mmu start code y = some y' ∧ Replays last written' last y' := by
  induction code generalizing disallowed written x y with
  | nil => cases hrun
  | cons op code ih =>
    obtain ⟨disallowed', writtenRegs, haccepted, hrest⟩ :=
      busyWaitScan_cons (hscan.resolve_left (List.cons_ne_nil _ _))
    obtain ⟨hpc, x', hstep, hend⟩ := runFrom_cons hrun
    obtain ⟨hfinds, hset⟩ := hset
    have hstats := (hcode op List.mem_cons_self).stats
    have hcode' : ∀ op ∈ code, Analysed op := fun op hop => hcode op (List.mem_cons_of_mem _ hop)
    rw [haccepted.written_eq hstats x] at hrest
    have hkept : Kept disallowed' x last := by
      have hfirst := haccepted.kept hstats hfinds.string hstep
      rcases hend with ⟨-, rfl⟩ | ⟨hpc, hrun⟩
      · exact hfirst
      · exact hfirst.trans (kept_of_run hcode' hrest (hset x' hstep hpc) hrun) subset_rfl
    obtain ⟨y', hstep', hreplays'⟩ :=
      haccepted.replays hstats hreplays hfinds hkept.gpr hstep
    unfold runFrom
    rw [if_pos (hreplays.pc.symm.trans hpc), hstep', Option.bind_some]
    rcases hend with ⟨hstart, rfl⟩ | ⟨hne, hrun⟩
    · exact ⟨y', _, if_pos (hreplays'.pc.symm.trans hstart), hreplays'⟩
    · rw [if_neg fun heq => hne (hreplays'.pc.trans heq)]
      exact ih hcode' hrest hreplays' (hset x' hstep hne) hrun

theorem runFrom_end (h : runFrom mmu start code x = some last) :
    last.pc = start ∧ last.npc = start := by
  have hnpc : ∀ m m' inst, Interpreter.singleStepInner mmu m inst = some m' → m'.npc = m'.pc := by
    intro m m' inst h
    unfold Interpreter.singleStepInner at h
    obtain ⟨fn, -, h⟩ := Option.bind_eq_some_iff.1 h
    obtain ⟨m'', -, h⟩ := Option.bind_eq_some_iff.1 h
    cases h
    rfl
  induction code generalizing x with
  | nil => cases h
  | cons op code ih =>
    obtain ⟨-, x', hstep, hend⟩ := runFrom_cons h
    rcases hend with ⟨hstart, rfl⟩ | ⟨-, hrun⟩
    · exact ⟨hstart, (hnpc _ _ _ hstep).trans hstart⟩
    · exact ih hrun

theorem Replays.eq_last (h : Replays last written last y) (hnpc : y.npc = last.npc) : y = last := by
  have hregs : y.toPowerPCState = last.toPowerPCState :=
    ext_bits (funext fun reg => (h.regs.gpr reg).eq_last)
      (ConditionRegister.ext (funext fun field => (h.regs.cr field).eq_last)) h.regs.ca.eq_last
      h.regs.so.eq_last h.regs.ov.eq_last h.regs.string.symm
  calc y = { y.toPowerPCState with pc := y.pc, npc := y.npc, lr := y.lr, ctr := y.ctr } := rfl
    _ = last := by rw [hregs, ← h.pc, hnpc, h.lr.eq_last, ← h.ctr]

/-- After a pass in which every instruction finds what it reads settled, another one changes
    nothing, and so does any number of them. -/
theorem pass_again {block : CodeBlock} (hloop : block.isBusyWaitLoop = true)
    (hset : block.Settled mmu x) (hpass : block.pass mmu x = some last) :
    block.pass mmu last = some last := by
  have hscan : block.code = [] ∨
      busyWaitScan block.address block.code ∅ ({} : Written).gpr = true := Or.inr hloop
  have hkept := kept_of_run block.analysed hscan (hset last hpass) hpass
  obtain ⟨hpc, hnpc⟩ := runFrom_end hpass
  have hstart : x.pc = block.address := by
    cases hcode : block.code with
    | nil =>
      unfold CodeBlock.pass at hpass
      rw [hcode] at hpass
      cases hpass
    | cons op code =>
      unfold CodeBlock.pass at hpass
      rw [hcode] at hpass
      exact (runFrom_cons hpass).1.trans (block.head_address op (by rw [hcode]; rfl))
  have hreplays : Replays last {} x last :=
    { regs :=
        { gpr := fun _ => Replayed.start (Finset.notMem_empty _)
          ca := Replayed.start Bool.false_ne_true
          so := Replayed.start not_false
          ov := Replayed.start not_false
          cr := fun _ => Replayed.start (Finset.notMem_empty _)
          string := hkept.string.symm }
      lr := Replayed.start Bool.false_ne_true
      ctr := hkept.ctr.symm
      pc := hstart.trans hpc.symm }
  obtain ⟨y', written', hpass', hreplays'⟩ :=
    run_replays block.analysed hscan hreplays (hset last hpass) hpass
  rw [CodeBlock.pass, hpass', Replays.eq_last hreplays' ((runFrom_end hpass').2.trans hnpc.symm)]

/-- The idle loops idle, as far as the registers that the analyst does not look at are settled. -/
theorem isBusyWaitLoop_idles (block : CodeBlock) (hloop : block.isBusyWaitLoop = true) (mmu : MmuReads)
    (m : Machine) (hset : block.Settled mmu m) : block.Idles mmu m :=
  fun last hpass => ⟨last, pass_again hloop hset hpass, rfl⟩

/-! ### Two loops -/

/-- Instructions that lie behind each other. -/
def blockAt : BitVec 32 → List UGeckoInstruction → List CodeOp
  | _, [] => []
  | address, inst :: instructions =>
    PPCAnalyzer.codeOp ⟨false, false⟩ ⟨inst, address, false⟩ :: blockAt (address + 4) instructions

theorem analysed_blockAt (address : BitVec 32) (instructions : List UGeckoInstruction) :
    ∀ op ∈ blockAt address instructions, Analysed op := by
  induction instructions generalizing address with
  | nil => exact fun op hop => absurd hop List.not_mem_nil
  | cons inst instructions ih =>
    intro op hop
    rcases List.mem_cons.1 hop with rfl | hop
    · exact ⟨⟨false, false⟩, ⟨inst, address, false⟩, rfl⟩
    · exact ih (address + 4) op hop

def zeroReads : MmuReads := ⟨false, fun _ => some 0, fun _ => some 0, fun _ => some 0⟩

/-- The machine at an address, with all registers zero but one. -/
def machineAt (address : BitVec 32) (reg : Fin 32) (value : BitVec 32) : Machine :=
  { gpr := Function.update (fun _ => 0) reg value, cr := { fields := fun _ => 0 }, xerCa := 0,
    xerSoOv := 0, xerStringctrl := 0, ca_lt := by decide, soOv_lt := by decide, pc := address,
    npc := address, lr := 0, ctr := 0 }

/-- `lwz r3, 0(r4); cmpwi r3, 1; blt` to the start. -/
def pollingLoop : CodeBlock where
  address := 0x80003100
  code := blockAt 0x80003100 [0x80640000, 0x2C030001, 0x4180FFF8]
  head_address := by intro op hop; cases hop; rfl
  analysed := analysed_blockAt _ _

/-- The branch reads the CR0 that the comparison has written, which was another one before, and
    the comparison reads SO, which nothing writes. -/
theorem isBusyWaitLoop_idles_polling :
    pollingLoop.Idles zeroReads (machineAt 0x80003100 3 1) ∧
      (machineAt 0x80003100 3 1).cr.getBit 0 = 0 ∧
      (pollingLoop.pass zeroReads (machineAt 0x80003100 3 1)).map (·.cr.getBit 0) = some 1 := by
  refine ⟨isBusyWaitLoop_idles pollingLoop (by decide +kernel) zeroReads _ fun last hpass => ?_,
    by decide +kernel, by decide +kernel⟩
  have hsame : ((pollingLoop.pass zeroReads (machineAt 0x80003100 3 1)).map (·.so)) =
      some false := by decide +kernel
  rw [hpass] at hsame
  have hload : ∀ written m, Finds last written
      (PPCAnalyzer.codeOp ⟨false, false⟩ ⟨0x80640000, 0x80003100, false⟩) m := fun _ _ =>
    { carry := fun h => absurd h (by decide +kernel)
      summary := fun h => absurd h (by decide +kernel)
      condition := fun h => absurd h (by decide +kernel)
      link := fun h => absurd h (by decide +kernel)
      string := fun h => absurd h (by decide +kernel) }
  have hcompare : ∀ written m, m.so = last.so → Finds last written
      (PPCAnalyzer.codeOp ⟨false, false⟩ ⟨0x2C030001, 0x80003104, false⟩) m := fun _ _ hso =>
    { carry := fun h => absurd h (by decide +kernel)
      summary := fun _ => hso
      condition := fun h => absurd h (by decide +kernel)
      link := fun h => absurd h (by decide +kernel)
      string := fun h => absurd h (by decide +kernel) }
  have hbranch : ∀ written m, 0 ∈ written.cr → Finds last written
      (PPCAnalyzer.codeOp ⟨false, false⟩ ⟨0x4180FFF8, 0x80003108, false⟩) m := fun _ _ hcr =>
    { carry := fun h => absurd h (by decide +kernel)
      summary := fun h => absurd h (by decide +kernel)
      condition := fun _ _ _ => .inl hcr
      link := fun _ _ h => absurd h (by decide +kernel)
      string := fun h => absurd h (by decide +kernel) }
  refine ⟨hload _ _, fun loaded hloaded _ => ⟨hcompare _ _ ?_, fun compared _ _ =>
    ⟨hbranch _ _ ?_, fun _ _ _ => trivial⟩⟩⟩
  · have hso : (Interpreter.singleStepInner zeroReads (machineAt 0x80003100 3 1) 0x80640000).map
        (·.so) = some false := by decide +kernel
    rw [show Interpreter.singleStepInner zeroReads (machineAt 0x80003100 3 1) 0x80640000 =
      some loaded from hloaded] at hso
    exact (Option.some.inj hso).trans (Option.some.inj hsame).symm
  · rw [writtenAfter, if_neg (by decide +kernel), if_neg (by decide +kernel), Written.afterStraight]
    exact Finset.mem_union_right _ (by decide +kernel)

/-- `adde r3, r4, r4; b` to the start. -/
def carryLoop : CodeBlock where
  address := 0x80003100
  code := blockAt 0x80003100 [0x7C642114, 0x4BFFFFFC]
  head_address := by intro op hop; cases hop; rfl
  analysed := analysed_blockAt _ _

/-- The first pass finds no carry and leaves one, which the second one adds. -/
theorem carryLoop_not_idles : ¬ ∀ block : CodeBlock, block.isBusyWaitLoop = true →
    ∀ mmu m, block.Idles mmu m := by
  intro h
  have hidles := h carryLoop (by decide +kernel) zeroReads (machineAt 0x80003100 4 0x80000000)
  have hfirst : (carryLoop.pass zeroReads (machineAt 0x80003100 4 0x80000000)).map (·.gpr 3) =
      some 0 := by decide +kernel
  have hsecond : ((carryLoop.pass zeroReads (machineAt 0x80003100 4 0x80000000)).bind
      (carryLoop.pass zeroReads)).map (·.gpr 3) = some 1 := by decide +kernel
  obtain ⟨last, hlast, hzero⟩ := Option.map_eq_some_iff.1 hfirst
  obtain ⟨last', hlast', hregs⟩ := hidles last hlast
  rw [hlast, Option.bind_some, hlast', Option.map_some, hregs, hzero] at hsecond
  exact absurd (Option.some.inj hsecond) (by decide)

end DolphinXR.PowerPC.PPCAnalyst
