import DolphinXR.Core.InterpreterDispatch
import DolphinXR.Core.ConditionRegisterRuns
import DolphinXR.Lib.Replay

/- The body of a loop run a second time, from the state that it left: what the registers hold in the
   two runs, place by place, and that an instruction keeps that relation if the two runs find the
   same in what it reads. -/
namespace DolphinXR.PowerPC

attribute [local instance] neZero_gprs neZero_crFields

open Lib PPCTables PPCAnalyst PowerPCState UGeckoInstruction

/-- What a run has written so far. The overflow bits are left out: no instruction here reads OV, and
    SO is never cleared. -/
structure Written where
  gpr : Finset (Fin 32) := ∅
  ca : Bool := false
  cr : Finset (Fin 8) := ∅
  lr : Bool := false

namespace PowerPCState

theorem xerCa_eq (x : PowerPCState) : x.xerCa = flag 8 x.ca := by
  have hbyte : ∀ b : BitVec 8, b.toNat < 2 → b = flag 8 (b.getLsbD 0) := by decide
  exact hbyte x.xerCa x.ca_lt

theorem xerSoOv_eq (x : PowerPCState) : x.xerSoOv = flag 8 x.so <<< 1 ||| flag 8 x.ov := by
  have hbyte : ∀ b : BitVec 8, b.toNat < 4 →
      b = flag 8 (b.getLsbD 1) <<< 1 ||| flag 8 (b.getLsbD 0) := by decide
  exact hbyte x.xerSoOv x.soOv_lt

theorem ext_bits {x y : PowerPCState} (hgpr : x.gpr = y.gpr) (hcr : x.cr = y.cr)
    (hca : x.ca = y.ca) (hso : x.so = y.so) (hov : x.ov = y.ov)
    (hstring : x.xerStringctrl = y.xerStringctrl) : x = y := by
  refine PowerPCState.ext hgpr hcr ?_ ?_ hstring
  · rw [xerCa_eq, xerCa_eq y, hca]
  · rw [xerSoOv_eq, xerSoOv_eq y, hso, hov]

@[simp] theorem setCarry_ca (x : PowerPCState) (ca : Bool) : (x.setCarry ca).ca = ca := by
  show (flag 8 ca).getLsbD 0 = ca
  cases ca <;> decide

theorem setXerOv_so (x : PowerPCState) (value : Bool) : (x.setXerOv value).so = (x.so || value) := by
  have hbyte : ∀ (b : BitVec 8) (value : Bool),
      (((b &&& 0xFE) ||| flag 8 value) ||| flag 8 value <<< 1).getLsbD 1 =
        (b.getLsbD 1 || value) := by decide
  exact hbyte x.xerSoOv value

theorem setXerOv_ov (x : PowerPCState) (value : Bool) : (x.setXerOv value).ov = value := by
  have hbyte : ∀ (b : BitVec 8) (value : Bool),
      (((b &&& 0xFE) ||| flag 8 value) ||| flag 8 value <<< 1).getLsbD 0 = value := by decide
  exact hbyte x.xerSoOv value

end PowerPCState

/-! ### The integer instructions and the loads -/

structure RegsReplay (last : PowerPCState) (written : Written) (x y : PowerPCState) : Prop where
  gpr : ∀ reg, Replayed (reg ∈ written.gpr) (last.gpr reg) (x.gpr reg) (y.gpr reg)
  ca : Replayed written.ca last.ca x.ca y.ca
  so : Replayed False last.so x.so y.so
  ov : Replayed False last.ov x.ov y.ov
  cr : ∀ field, Replayed (field ∈ written.cr) (last.cr.fields field) (x.cr.fields field)
    (y.cr.fields field)
  string : x.xerStringctrl = y.xerStringctrl

def crWritten (info : GekkoOPInfo) (inst : UGeckoInstruction) : Finset (Fin 8) :=
  if info.has flSetCrn then {inst.crfd} else if recordsCr0 info inst then {0} else ∅

namespace Outcome
variable (info : GekkoOPInfo) (inst : UGeckoInstruction) (o : Outcome) (x : PowerPCState)

theorem writeGprs_so : (o.writeGprs info inst x).so = x.so := by
  unfold writeGprs
  split <;> split <;> rfl

theorem writeXer_so : (o.writeXer info x).so = (x.so || o.oe && o.ov) := by
  have hcarry : (if info.has flSetCa then x.setCarry o.carry else x).so = x.so := by
    split <;> rfl
  unfold writeXer
  dsimp only
  cases o.oe with
  | false => rw [if_neg Bool.false_ne_true, hcarry, Bool.false_and, Bool.or_false]
  | true => rw [if_pos rfl, setXerOv_so, hcarry, Bool.true_and]

end Outcome

namespace RegsReplay
variable {last x y : PowerPCState} {written : Written}

theorem writeGpr (h : RegsReplay last written x y) (reg : Fin 32) (value : BitVec 32) :
    RegsReplay last { written with gpr := insert reg written.gpr }
      (Interpreter.writeGpr x reg value) (Interpreter.writeGpr y reg value) :=
  { h with gpr := Replayed.update h.gpr reg value }

theorem writeGprIf (h : RegsReplay last written x y) (condition : Bool) (reg : Fin 32)
    (value : BitVec 32) :
    RegsReplay last { written with gpr := written.gpr ∪ regIf condition reg }
      (if condition then Interpreter.writeGpr x reg value else x)
      (if condition then Interpreter.writeGpr y reg value else y) := by
  cases condition with
  | false => exact { h with gpr := by simpa [regIf] using h.gpr }
  | true =>
    have hset : written.gpr ∪ regIf true reg = insert reg written.gpr := by
      rw [Finset.insert_eq, Finset.union_comm]
      rfl
    rw [hset]
    exact h.writeGpr reg value

theorem writeXer (h : RegsReplay last written x y) (info : GekkoOPInfo) (o : Outcome) :
    RegsReplay last { written with ca := written.ca || info.has flSetCa } (o.writeXer info x)
      (o.writeXer info y) := by
  have hca : RegsReplay last { written with ca := written.ca || info.has flSetCa }
      (if info.has flSetCa then x.setCarry o.carry else x)
      (if info.has flSetCa then y.setCarry o.carry else y) := by
    cases info.has flSetCa with
    | false => exact { h with ca := by simpa using h.ca }
    | true =>
      refine { h with ca := ?_ }
      show Replayed _ last.ca (x.setCarry o.carry).ca (y.setCarry o.carry).ca
      rw [setCarry_ca, setCarry_ca]
      exact Replayed.same _
  unfold Outcome.writeXer
  dsimp only
  cases o.oe with
  | false => exact hca
  | true =>
    refine { hca with so := ?_, ov := ?_ }
    · simp only [if_true, setXerOv_so]
      exact hca.so.or o.ov
    · simp only [if_true, setXerOv_ov]
      exact Replayed.same _

theorem writeField (h : RegsReplay last written x y) (field : Fin 8) (value : BitVec 64) :
    RegsReplay last { written with cr := insert field written.cr }
      { x with cr := { fields := Function.update x.cr.fields field value } }
      { y with cr := { fields := Function.update y.cr.fields field value } } :=
  { h with cr := Replayed.update h.cr field value }

theorem writeCr (h : RegsReplay last written x y) (info : GekkoOPInfo) (inst : UGeckoInstruction)
    (o : Outcome) (hso : (crWritten info inst).Nonempty → x.so = y.so) :
    RegsReplay last { written with cr := written.cr ∪ crWritten info inst } (o.writeCr info inst x)
      (o.writeCr info inst y) := by
  have hinsert : ∀ field, written.cr ∪ {field} = insert field written.cr := fun field => by
    rw [Finset.insert_eq, Finset.union_comm]
  have hxer : (crWritten info inst).Nonempty → x.getXerSo = y.getXerSo := fun hne => by
    rw [Interpreter.getXerSo_eq, Interpreter.getXerSo_eq, hso hne]
  unfold Outcome.writeCr
  unfold crWritten at hxer ⊢
  cases hfield : info.has flSetCrn with
  | true =>
    rw [hfield, if_pos rfl] at hxer
    simp only [if_true, hxer (Finset.singleton_nonempty _), hinsert]
    exact h.writeField inst.crfd _
  | false =>
    cases hcr0 : recordsCr0 info inst with
    | true =>
      rw [hfield, hcr0, if_neg Bool.false_ne_true, if_pos rfl] at hxer
      simp only [Bool.false_eq_true, if_false, if_true, Interpreter.helperUpdateCR0,
        hxer (Finset.singleton_nonempty _), hinsert]
      exact h.writeField 0 _
    | false => exact { h with cr := by simpa using h.cr }

theorem write (h : RegsReplay last written x y) (info : GekkoOPInfo) (inst : UGeckoInstruction)
    (o : Outcome) (hso : (crWritten info inst).Nonempty → x.so = y.so) :
    RegsReplay last
      { written with
        gpr := written.gpr ∪ (regIf (info.has flOutA) inst.ra ∪ regIf (info.has flOutD) inst.rd)
        ca := written.ca || info.has flSetCa
        cr := written.cr ∪ crWritten info inst }
      (o.write info inst x) (o.write info inst y) := by
  have hgprs : RegsReplay last
      { written with
        gpr := written.gpr ∪ (regIf (info.has flOutA) inst.ra ∪ regIf (info.has flOutD) inst.rd) }
      (o.writeGprs info inst x) (o.writeGprs info inst y) := by
    have hd := (h.writeGprIf (info.has flOutD) inst.rd o.d).writeGprIf (info.has flOutA) inst.ra o.a
    rwa [Finset.union_assoc, Finset.union_comm (regIf _ inst.rd)] at hd
  refine (hgprs.writeXer info o).writeCr info inst o fun hne => ?_
  rw [Outcome.writeXer_so, Outcome.writeXer_so, Outcome.writeGprs_so, Outcome.writeGprs_so, hso hne]

theorem operands_eq (h : RegsReplay last written x y) {info : GekkoOPInfo} {inst : UGeckoInstruction}
    (hgpr : ∀ reg ∈ statsRegsIn inst info, x.gpr reg = y.gpr reg)
    (hca : info.has flReadCa = true → x.ca = y.ca) : operands info inst x = operands info inst y := by
  have hread : ∀ (named : Bool) (a b : BitVec 32), (named = true → a = b) →
      (if named then a else 0) = if named then b else 0 := by
    intro named a b h
    cases named with
    | false => rfl
    | true => exact h rfl
  have hin : ∀ (named : Bool) (reg : Fin 32), (named = true → reg ∈ statsRegsIn inst info) →
      (if named then x.gpr reg else 0) = if named then y.gpr reg else 0 :=
    fun named reg hmem => hread named _ _ fun h => hgpr reg (hmem h)
  refine Operands.ext (hin _ _ fun h => ?_) (hin _ _ fun h => ?_) (hin _ _ fun h => ?_)
    (hread _ _ _ fun h => ?_) ?_
  · simp [statsRegsIn, regIf, h]
  · simp [statsRegsIn, regIf, h]
  · simp [statsRegsIn, regIf, h]
  · rw [Interpreter.getCarry_eq, Interpreter.getCarry_eq, hca h]
  · exact congrArg (fun ctrl : BitVec 16 => (ctrl.setWidth 8).toNat) h.string

end RegsReplay

/-! ### Single steps -/

def Machine.advance (m : Machine) (s : PowerPCState) : Machine :=
  { m with toPowerPCState := s, pc := m.pc + 4, npc := m.pc + 4 }

namespace Interpreter
variable {inst : UGeckoInstruction}

theorem singleStepInner_straight
    (htype : (getOpInfo inst).type = .integer ∨ (getOpInfo inst).type = .load) :
    ∃ outcome : MmuReads → Operands → Option Outcome, ∀ mmu m, OneRegister inst m.toPowerPCState →
      singleStepInner mmu m inst =
        (outcome mmu (operands (getOpInfo inst) inst m.toPowerPCState)).map fun o =>
          m.advance (o.write (getOpInfo inst) inst m.toPowerPCState) := by
  obtain ⟨fn, hfn, outcome, hdecl⟩ := interpreterOp_asDeclared inst htype
  refine ⟨outcome, fun mmu m hone => ?_⟩
  unfold singleStepInner
  rw [hfn, Option.bind_eq_bind, Option.bind_some, hdecl mmu { m with npc := m.pc + 4 } hone]
  cases outcome mmu (operands (getOpInfo inst) inst m.toPowerPCState) with
  | none => rfl
  | some o => rfl

def branchTaken (m : Machine) (inst : UGeckoInstruction) : Bool :=
  inst.opcd == 18 || branchCondition m inst

def branchTarget (m : Machine) (inst : UGeckoInstruction) : BitVec 32 :=
  if inst.opcd = 19 then (if inst.subop10 = 528 then m.ctr else m.lr) &&& ~~~3
  else
    let destinationAddr := if inst.opcd = 18 then (inst.li ++ 0#2).signExtend 32
      else (inst.bd ++ 0#2).signExtend 32
    if inst.aa then destinationAddr else destinationAddr + m.pc

/-- The machine behind a branch that does not count. -/
def branched (m : Machine) (inst : UGeckoInstruction) : Machine :=
  if branchTaken m inst then
    { m with
      pc := branchTarget m inst
      npc := branchTarget m inst
      lr := if inst.lk then m.pc + 4 else m.lr }
  else { m with pc := m.pc + 4, npc := m.pc + 4 }

theorem linked_lr (m : Machine) (inst : UGeckoInstruction) :
    linked m inst = { m with lr := if inst.lk then m.pc + 4 else m.lr } := by
  unfold linked
  split
  · rfl
  · rfl

theorem singleStepInner_of_branch {fn : Machine → UGeckoInstruction → Machine}
    (hfn : interpreterOp inst = some (branch fn))
    (h : ∀ m, fn m inst = if branchTaken m inst then
      { m with npc := branchTarget m inst, lr := if inst.lk then m.pc + 4 else m.lr } else m)
    (mmu : MmuReads) (m : Machine) : singleStepInner mmu m inst = some (branched m inst) := by
  have htaken : branchTaken { m with npc := m.pc + 4 } inst = branchTaken m inst := rfl
  have hstep : singleStepInner mmu m inst =
      some { fn { m with npc := m.pc + 4 } inst with pc := (fn { m with npc := m.pc + 4 } inst).npc } := by
    unfold singleStepInner
    rw [hfn]
    rfl
  rw [hstep, h, branched, htaken]
  cases branchTaken m inst with
  | false => rfl
  | true => rfl

theorem singleStepInner_branch (htype : (getOpInfo inst).type = .branch)
    (hctr : statsBranchUsesCtr inst = false) (mmu : MmuReads) (m : Machine) :
    singleStepInner mmu m inst = some (branched m inst) := by
  have hbit : ∀ bo : BitVec 5, bo &&& boDontDecrementFlag ≠ 0 → bo.getLsbD 2 = true := by decide
  have hflag : inst.opcd = 16 ∨ inst.opcd = 19 ∧ inst.subop10 = 16 →
      inst.bo &&& boDontDecrementFlag ≠ 0 := by
    intro hop hzero
    rcases hop with hop | ⟨hop, hop'⟩
    · simp [statsBranchUsesCtr, hop, hzero] at hctr
    · simp [statsBranchUsesCtr, hop, hop', hzero] at hctr
  rcases interpreterOp_branch htype with ⟨hop, hfn⟩ | ⟨hop, hfn⟩ | ⟨hop, hop', hfn⟩ |
    ⟨hop, hop', hfn⟩
  · have hne := hflag (Or.inl hop)
    have hcount : ∀ m, countedDown m inst = m := fun m => if_neg hne
    refine singleStepInner_of_branch hfn (fun m => ?_) mmu m
    simp [bcx, hcount, branchCounter, hbit _ hne, linked_lr, branchTaken, branchTarget, hop]
  · refine singleStepInner_of_branch hfn (fun m => ?_) mmu m
    simp [bx, linked_lr, branchTaken, branchTarget, hop]
  · refine singleStepInner_of_branch hfn (fun m => ?_) mmu m
    simp [bcctrx, linked_lr, branchTaken, branchTarget, hop, hop']
  · have hne := hflag (Or.inr ⟨hop, hop'⟩)
    have hcount : ∀ m, countedDown m inst = m := fun m => if_neg hne
    refine singleStepInner_of_branch hfn (fun m => ?_) mmu m
    simp [bclrx, hcount, branchCounter, hbit _ hne, linked_lr, branchTaken, branchTarget,
      hop, hop']

end Interpreter

/-! ### A step in both runs -/

structure Replays (last : Machine) (written : Written) (x y : Machine) : Prop where
  regs : RegsReplay last.toPowerPCState written x.toPowerPCState y.toPowerPCState
  lr : Replayed written.lr last.lr x.lr y.lr
  ctr : x.ctr = y.ctr
  pc : x.pc = y.pc

namespace Written
variable (written : Written)

def afterStraight (inst : UGeckoInstruction) : Written :=
  { written with
    gpr := written.gpr ∪ statsRegsOut inst (getOpInfo inst)
    ca := written.ca || (getOpInfo inst).has flSetCa
    cr := written.cr ∪ crWritten (getOpInfo inst) inst }

def afterBranch (m : Machine) (inst : UGeckoInstruction) : Written :=
  { written with lr := written.lr || (Interpreter.branchTaken m inst && inst.lk) }

end Written

theorem statsRegsOut_of_ne {inst : UGeckoInstruction} (h : inst.opcd ≠ 46) (info : GekkoOPInfo) :
    statsRegsOut inst info = regIf (info.has flOutA) inst.ra ∪ regIf (info.has flOutD) inst.rd := by
  rw [statsRegsOut, if_neg h, Finset.union_empty]

structure Framed (inst : UGeckoInstruction) (x x' : Machine) : Prop where
  gpr : ∀ reg ∉ statsRegsOut inst (getOpInfo inst), x'.gpr reg = x.gpr reg
  string : x'.xerStringctrl = x.xerStringctrl
  ctr : x'.ctr = x.ctr

namespace Outcome
variable (info : GekkoOPInfo) (inst : UGeckoInstruction) (o : Outcome) (x : PowerPCState)

theorem write_string : (o.write info inst x).xerStringctrl = x.xerStringctrl := by
  unfold write writeCr writeXer writeGprs
  repeat' split
  all_goals rfl

theorem write_gpr : (o.write info inst x).gpr = (o.writeGprs info inst x).gpr := by
  unfold write writeCr writeXer
  repeat' split
  all_goals rfl

theorem write_gpr_of_notMem {reg : Fin 32}
    (h : reg ∉ regIf (info.has flOutA) inst.ra ∪ regIf (info.has flOutD) inst.rd) :
    (o.write info inst x).gpr reg = x.gpr reg := by
  have hwrite : ∀ (s : PowerPCState) (named : Bool) (target : Fin 32) (value : BitVec 32),
      reg ∉ regIf named target →
      (if named then Interpreter.writeGpr s target value else s).gpr reg = s.gpr reg := by
    intro s named target value hreg
    cases named with
    | false => rfl
    | true => exact Function.update_of_ne (fun heq => hreg (by simp [regIf, heq])) _ _
  rw [Finset.mem_union, not_or] at h
  rw [write_gpr, writeGprs, hwrite _ _ _ _ h.1, hwrite _ _ _ _ h.2]

end Outcome

namespace Replays
variable {last x y x' : Machine} {written : Written} {inst : UGeckoInstruction} {mmu : MmuReads}

theorem framed (htype : (getOpInfo inst).type = .integer ∨ (getOpInfo inst).type = .load)
    (hone : OneRegister inst x.toPowerPCState)
    (hx : Interpreter.singleStepInner mmu x inst = some x') : Framed inst x x' := by
  obtain ⟨outcome, hstep⟩ := Interpreter.singleStepInner_straight htype
  rw [hstep mmu x hone] at hx
  obtain ⟨o, -, rfl⟩ := Option.map_eq_some_iff.1 hx
  refine ⟨fun reg hreg => ?_, Outcome.write_string .., rfl⟩
  rw [statsRegsOut_of_ne (Interpreter.opcd_of_straight htype).1] at hreg
  exact Outcome.write_gpr_of_notMem _ _ o _ hreg

theorem straight (h : Replays last written x y)
    (htype : (getOpInfo inst).type = .integer ∨ (getOpInfo inst).type = .load)
    (hone : OneRegister inst x.toPowerPCState)
    (hgpr : ∀ reg ∈ statsRegsIn inst (getOpInfo inst), x.gpr reg = y.gpr reg)
    (hca : (getOpInfo inst).has flReadCa = true → x.ca = y.ca)
    (hso : (crWritten (getOpInfo inst) inst).Nonempty → x.so = y.so)
    (hx : Interpreter.singleStepInner mmu x inst = some x') :
    ∃ y', Interpreter.singleStepInner mmu y inst = some y' ∧
      Replays last (written.afterStraight inst) x' y' := by
  have hone' : OneRegister inst y.toPowerPCState := by
    have hlength : Interpreter.stringLength y.toPowerPCState =
        Interpreter.stringLength x.toPowerPCState :=
      congrArg (fun ctrl : BitVec 16 => (ctrl.setWidth 8).toNat) h.regs.string.symm
    unfold OneRegister at hone ⊢
    rwa [hlength]
  obtain ⟨outcome, hstep⟩ := Interpreter.singleStepInner_straight htype
  rw [hstep mmu x hone] at hx
  rw [hstep mmu y hone', ← h.regs.operands_eq hgpr hca]
  obtain ⟨o, ho, rfl⟩ := Option.map_eq_some_iff.1 hx
  refine ⟨y.advance (o.write (getOpInfo inst) inst y.toPowerPCState), by rw [ho]; rfl, ?_⟩
  have hregs := h.regs.write (getOpInfo inst) inst o hso
  rw [← statsRegsOut_of_ne (Interpreter.opcd_of_straight htype).1] at hregs
  exact ⟨hregs, h.lr, h.ctr, congrArg (· + 4) h.pc⟩

theorem branch (h : Replays last written x y) (htype : (getOpInfo inst).type = .branch)
    (huses : statsBranchUsesCtr inst = false)
    (hcr : inst.opcd ≠ 18 → inst.bo.getLsbD 4 = false → x.cr.getBit inst.bi = y.cr.getBit inst.bi)
    (hlr : Interpreter.branchTaken x inst = true → inst.opcd = 19 → inst.subop10 ≠ 528 → x.lr = y.lr)
    (hx : Interpreter.singleStepInner mmu x inst = some x') :
    ∃ y', Interpreter.singleStepInner mmu y inst = some y' ∧
      Replays last (written.afterBranch x inst) x' y' := by
  have htaken : Interpreter.branchTaken y inst = Interpreter.branchTaken x inst := by
    unfold Interpreter.branchTaken Interpreter.branchCondition
    by_cases h18 : inst.opcd = 18
    · rw [h18, beq_self_eq_true, Bool.true_or, Bool.true_or]
    · cases hbo : inst.bo.getLsbD 4 with
      | true => rw [Bool.true_or, Bool.true_or]
      | false => rw [hcr h18 hbo]
  rw [Interpreter.singleStepInner_branch htype huses] at hx ⊢
  cases hx
  refine ⟨_, rfl, ?_⟩
  unfold Interpreter.branched Written.afterBranch
  rw [htaken]
  cases hpath : Interpreter.branchTaken x inst with
  | false => exact ⟨{ h.regs with }, by simpa using h.lr, h.ctr, congrArg (· + 4) h.pc⟩
  | true =>
    have htarget : Interpreter.branchTarget x inst = Interpreter.branchTarget y inst := by
      unfold Interpreter.branchTarget
      by_cases h19 : inst.opcd = 19
      · by_cases h528 : inst.subop10 = 528
        · rw [if_pos h19, if_pos h19, if_pos h528, if_pos h528, h.ctr]
        · rw [if_pos h19, if_pos h19, if_neg h528, if_neg h528, hlr hpath h19 h528]
      · rw [if_neg h19, if_neg h19, h.pc]
    refine ⟨{ h.regs with }, ?_, h.ctr, htarget⟩
    cases inst.lk with
    | false => simpa using h.lr
    | true => exact Or.inl (congrArg (· + 4) h.pc)

end Replays

end DolphinXR.PowerPC
