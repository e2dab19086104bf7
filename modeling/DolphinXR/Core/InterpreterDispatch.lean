import DolphinXR.Core.DeclaredOutcomes

/- The instruction tables of the analyst beside those of the interpreter: where an instruction is
   found in the one it is found in the other. An integer instruction or a load is run as its flags
   declare it, and a branch by one of four functions. -/
namespace DolphinXR.PowerPC

open PPCTables PPCAnalyst UGeckoInstruction

namespace Interpreter

theorem exists_template {table : List GekkoOPTemplate} {opcode : Nat} {info : GekkoOPInfo}
    (h : PPCTables.lookup table opcode = some info) :
    ∃ template ∈ table, template.opcode = opcode ∧ template.toGekkoOPInfo = info := by
  obtain ⟨template, hfind, hinfo⟩ := Option.map_eq_some_iff.1 h
  have hopcode := List.find?_some hfind
  exact ⟨template, List.mem_of_find?_eq_some hfind, beq_iff_eq.1 hopcode, hinfo⟩

def floatTables : List (List GekkoOPTemplate) :=
  [table4Sub5, table4Sub6, table4, table59, table63, table63Sub5]

def IsFloat (info : GekkoOPInfo) : Prop :=
  ∃ table ∈ floatTables, ∃ template ∈ table, template.toGekkoOPInfo = info

theorem getOpInfo_cases (inst : UGeckoInstruction) :
    ((getOpInfo inst).type ≠ .subtable ∧
        PPCTables.lookup PPCTables.primaryTable inst.opcd = some (getOpInfo inst)) ∨
      (inst.opcd = 19 ∧ PPCTables.lookup PPCTables.table19 inst.subop10 = some (getOpInfo inst)) ∨
      (inst.opcd = 31 ∧ PPCTables.lookup PPCTables.table31 inst.subop10 = some (getOpInfo inst)) ∨
      getOpInfo inst = unknownOpInfo ∨ IsFloat (getOpInfo inst) := by
  have hgetD : ∀ x : Option GekkoOPInfo, x = some (x.getD unknownOpInfo) ∨
      x.getD unknownOpInfo = unknownOpInfo := by
    intro x
    cases x with
    | none => exact Or.inr rfl
    | some info => exact Or.inl rfl
  have hfloat : ∀ table ∈ floatTables, ∀ opcode info,
      PPCTables.lookup table opcode = some info → IsFloat info := by
    intro table htable opcode info h
    obtain ⟨template, hmem, -, hinfo⟩ := exists_template h
    exact ⟨table, htable, template, hmem, hinfo⟩
  generalize hinfo : getOpInfo inst = info
  have hfloats : ∀ x : Option GekkoOPInfo, x.getD unknownOpInfo = info →
      (∀ info, x = some info → IsFloat info) → info = unknownOpInfo ∨ IsFloat info := by
    intro x hx hall
    rcases hgetD x with h | h
    · exact Or.inr (hall info (h.trans (congrArg some hx)))
    · exact Or.inl (hx.symm.trans h)
  unfold getOpInfo at hinfo
  dsimp only at hinfo
  split at hinfo
  · refine Or.inr ?_
    split at hinfo
    · refine Or.inr (Or.inr (hfloats _ hinfo fun info h => ?_))
      rcases Option.or_eq_some_iff.1 h with h | ⟨-, h⟩
      · rcases Option.or_eq_some_iff.1 h with h | ⟨-, h⟩
        · exact hfloat table4Sub5 (by simp [floatTables]) _ info h
        · exact hfloat table4Sub6 (by simp [floatTables]) _ info h
      · exact hfloat table4 (by simp [floatTables]) _ info h
    · rename_i hopcd
      rcases hgetD (PPCTables.lookup PPCTables.table19 inst.subop10) with h | h
      · exact Or.inl ⟨hopcd, by rw [← hinfo]; exact h⟩
      · exact Or.inr (Or.inr (Or.inl (hinfo.symm.trans h)))
    · rename_i hopcd
      rcases hgetD (PPCTables.lookup PPCTables.table31 inst.subop10) with h | h
      · exact Or.inr (Or.inl ⟨hopcd, by rw [← hinfo]; exact h⟩)
      · exact Or.inr (Or.inr (Or.inl (hinfo.symm.trans h)))
    · exact Or.inr (Or.inr (hfloats _ hinfo (hfloat table59 (by simp [floatTables]) _)))
    · refine Or.inr (Or.inr (hfloats _ hinfo fun info h => ?_))
      rcases Option.or_eq_some_iff.1 h with h | ⟨-, h⟩
      · exact hfloat table63 (by simp [floatTables]) _ info h
      · exact hfloat table63Sub5 (by simp [floatTables]) _ info h
    · exact Or.inr (Or.inr (Or.inl hinfo.symm))
  · rename_i htype
    rcases hgetD (PPCTables.lookup PPCTables.primaryTable inst.opcd) with h | h
    · exact Or.inl ⟨hinfo ▸ htype, by rw [← hinfo]; exact h⟩
    · exact Or.inr (Or.inr (Or.inr (Or.inl (hinfo.symm.trans h))))

theorem interpreterOp_primary {inst : UGeckoInstruction} (h19 : inst.opcd ≠ 19)
    (h31 : inst.opcd ≠ 31) : interpreterOp inst = lookup primaryTable inst.opcd := by
  unfold interpreterOp
  split
  · contradiction
  · contradiction
  · rfl

theorem mem_straight {table : List GekkoOPTemplate} {template : GekkoOPTemplate}
    (hmem : template ∈ table) (htype : template.type = .integer ∨ template.type = .load) :
    template ∈ straight table :=
  List.mem_filter.2 ⟨hmem, by simpa using htype⟩

theorem straight_cases (inst : UGeckoInstruction)
    (htype : (getOpInfo inst).type = .integer ∨ (getOpInfo inst).type = .load) :
    (∃ template ∈ straight PPCTables.primaryTable, template.opcode = inst.opcd ∧
        template.toGekkoOPInfo = getOpInfo inst) ∨
      (inst.opcd = 31 ∧ ∃ template ∈ straight PPCTables.table31, template.opcode = inst.subop10 ∧
        template.toGekkoOPInfo = getOpInfo inst) := by
  have h19 : straight PPCTables.table19 = [] := by decide
  have hfloat : ∀ table ∈ floatTables, straight table = [] := by decide
  rcases getOpInfo_cases inst with ⟨-, h⟩ | ⟨-, h⟩ | ⟨hopcd, h⟩ | h |
    ⟨table, htable, template, hmem, hinfo⟩
  · obtain ⟨template, hmem, hopcode, hinfo⟩ := exists_template h
    exact Or.inl ⟨template, mem_straight hmem (hinfo ▸ htype), hopcode, hinfo⟩
  · obtain ⟨template, hmem, -, hinfo⟩ := exists_template h
    rw [← hinfo] at htype
    exact absurd (mem_straight hmem htype) (by simp [h19])
  · obtain ⟨template, hmem, hopcode, hinfo⟩ := exists_template h
    exact Or.inr ⟨hopcd, template, mem_straight hmem (hinfo ▸ htype), hopcode, hinfo⟩
  · rw [h] at htype
    exact absurd htype (by decide)
  · rw [← hinfo] at htype
    exact absurd (mem_straight hmem htype) (by simp [hfloat table htable])

theorem interpreterOp_asDeclared (inst : UGeckoInstruction)
    (htype : (getOpInfo inst).type = .integer ∨ (getOpInfo inst).type = .load) :
    ∃ fn, interpreterOp inst = some fn ∧ AsDeclared (getOpInfo inst) fn inst := by
  have hprimary : ∀ template ∈ straight PPCTables.primaryTable,
      template.opcode ≠ 19 ∧ template.opcode ≠ 31 := by decide
  rcases straight_cases inst htype with ⟨template, hmem, hopcode, hinfo⟩ |
    ⟨hopcd, template, hmem, hopcode, hinfo⟩
  · obtain ⟨fn, hfn, hdecl⟩ := List.forall_iff_forall_mem.1 primaryTable_asDeclared template hmem
    obtain ⟨hne19, hne31⟩ := hprimary template hmem
    rw [hopcode] at hfn hne19 hne31
    exact ⟨fn, (interpreterOp_primary hne19 hne31).trans hfn, hinfo ▸ hdecl inst hopcode.symm⟩
  · obtain ⟨fn, hfn, hdecl⟩ := List.forall_iff_forall_mem.1 table31_asDeclared template hmem
    refine ⟨fn, ?_, hinfo ▸ hdecl inst ⟨hopcd, hopcode.symm⟩⟩
    rw [interpreterOp, hopcd, ← hopcode]
    exact hfn

theorem opcd_of_straight {inst : UGeckoInstruction}
    (htype : (getOpInfo inst).type = .integer ∨ (getOpInfo inst).type = .load) :
    inst.opcd ≠ 46 ∧ inst.opcd ≠ 47 := by
  have hprimary : ∀ template ∈ straight PPCTables.primaryTable,
      template.opcode ≠ 46 ∧ template.opcode ≠ 47 := by decide
  rcases straight_cases inst htype with ⟨template, hmem, hopcode, -⟩ | ⟨hopcd, -⟩
  · exact hopcode ▸ hprimary template hmem
  · rw [hopcd]
    decide

theorem interpreterOp_branch {inst : UGeckoInstruction} (htype : (getOpInfo inst).type = .branch) :
    (inst.opcd = 16 ∧ interpreterOp inst = some (branch bcx)) ∨
      (inst.opcd = 18 ∧ interpreterOp inst = some (branch bx)) ∨
      (inst.opcd = 19 ∧ inst.subop10 = 528 ∧ interpreterOp inst = some (branch bcctrx)) ∨
      (inst.opcd = 19 ∧ inst.subop10 = 16 ∧ interpreterOp inst = some (branch bclrx)) := by
  have hprimary : ∀ template ∈ PPCTables.primaryTable, template.type = .branch →
      template.opcode = 16 ∨ template.opcode = 18 := by decide
  have h19 : ∀ template ∈ PPCTables.table19, template.type = .branch →
      template.opcode = 528 ∨ template.opcode = 16 := by decide
  have h31 : ∀ template ∈ PPCTables.table31, template.type ≠ .branch := by decide
  have hfloat : ∀ table ∈ floatTables, ∀ template ∈ table, template.type ≠ .branch := by decide
  rcases getOpInfo_cases inst with ⟨-, h⟩ | ⟨hopcd, h⟩ | ⟨-, h⟩ | h |
    ⟨table, htable, template, hmem, hinfo⟩
  · obtain ⟨template, hmem, hopcode, hinfo⟩ := exists_template h
    rcases hprimary template hmem (hinfo ▸ htype) with h | h
    · have hopcd := hopcode.symm.trans h
      refine Or.inl ⟨hopcd, ?_⟩
      rw [interpreterOp, hopcd]
      rfl
    · have hopcd := hopcode.symm.trans h
      refine Or.inr (Or.inl ⟨hopcd, ?_⟩)
      rw [interpreterOp, hopcd]
      rfl
  · obtain ⟨template, hmem, hopcode, hinfo⟩ := exists_template h
    rcases h19 template hmem (hinfo ▸ htype) with h | h
    · have hsubop := hopcode.symm.trans h
      refine Or.inr (Or.inr (Or.inl ⟨hopcd, hsubop, ?_⟩))
      rw [interpreterOp, hopcd, hsubop]
      rfl
    · have hsubop := hopcode.symm.trans h
      refine Or.inr (Or.inr (Or.inr ⟨hopcd, hsubop, ?_⟩))
      rw [interpreterOp, hopcd, hsubop]
      rfl
  · obtain ⟨template, hmem, -, hinfo⟩ := exists_template h
    exact absurd (hinfo ▸ htype) (h31 template hmem)
  · rw [h] at htype
    exact absurd htype (by decide)
  · exact absurd (hinfo ▸ htype) (hfloat table htable template hmem)

end Interpreter

end DolphinXR.PowerPC
