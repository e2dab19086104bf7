import DolphinXR.Core.DSPLoops
import Mathlib.Tactic.ByContra
import Mathlib.Tactic.SplitIfs
import Mathlib.Tactic.Tauto
import Mathlib.Algebra.Group.Nat.Defs

/- The loop hardware against the runs of a program's structure: the end of a pass is taken for one
   just at a last instruction of one word, and then it does what the structure says. -/
namespace DolphinXR.DSP
variable {σ : Type} {p : Program σ}

namespace SDSP
variable {d e : Nat} {s t u : SDSP σ}

theorem SameStacks.trans (h : SameStacks d s t) (h' : SameStacks d t u) : SameStacks d s u :=
  fun reg hreg => (h reg hreg).trans (h' reg hreg)

theorem SameStacks.of_eq
    (h : ∀ reg : StackRegister, reg.IsControl → t.regStacks reg = s.regStacks reg) :
    SameStacks d s t := by
  intro reg hreg
  rw [h reg hreg]
  exact .refl _

theorem SameStacks.st_eq (h : SameStacks d s t) (reg : StackRegister) (hreg : reg.IsControl) :
    (t.regStacks reg).st = (s.regStacks reg).st := (h reg hreg).st

/-- Inside a loop with `n` passes to do that was set up at `base`. -/
structure Within (d : Nat) (first last n : BitVec 16) (base s : SDSP σ) : Prop where
  call : ((base.regStacks .call).store first).Agree d (s.regStacks .call)
  loopAddress : ((base.regStacks .loopAddress).store last).Agree d (s.regStacks .loopAddress)
  loopCounter : ((base.regStacks .loopCounter).store n).Agree d (s.regStacks .loopCounter)

theorem within_firstPass (first last n : BitVec 16) :
    Within d first last n s (s.firstPass first last n) :=
  ⟨.refl _, .refl _, .refl _⟩

namespace Within
variable {first last n : BitVec 16} {base : SDSP σ}

theorem same (h : Within d first last n base s) (hst : SameStacks d s t) :
    Within d first last n base t :=
  ⟨h.call.trans (hst .call (by decide)), h.loopAddress.trans (hst .loopAddress (by decide)),
    h.loopCounter.trans (hst .loopCounter (by decide))⟩

theorem nextPass (h : Within d first last n base s) (n' : Nat) :
    Within d first last (BitVec.ofNat 16 n') base (s.nextPass first n') :=
  ⟨h.call, h.loopAddress, h.loopCounter.setSt⟩

theorem finish (h : Within d first last n base s) (hd : d < 32) : SameStacks (d + 1) base s.finish := by
  intro reg hreg
  cases reg with
  | call => exact h.call.pop_store hd
  | data => exact absurd rfl hreg
  | loopAddress => exact h.loopAddress.pop_store hd
  | loopCounter => exact h.loopCounter.pop_store hd

end Within

end SDSP

/-! ### What a run comes to -/

/-- What is the same after a part of a run. -/
def Part.Kept (p : Program σ) (d : Nat) (s t : SDSP σ) : Part → Prop
  | .pass last => s.SameStacks d t ∧ t.pc = last ∧ p.Straight t
  | .passes first last n => ∀ base, SDSP.Within d first last (BitVec.ofNat 16 n) base s →
      base.SameStacks (d + 1) t ∧ t.pc = p.after last
  | .loop last => ∀ cnt u, p.loopHeader s = some (cnt, last, u) →
      u.SameStacks d t ∧ t.pc = p.after last

theorem Run.kept {part : Part} {d : Nat} {s t : SDSP σ} {l : List (SDSP σ)}
    {ends : List (BitVec 16)} (h : Run p part d s l ends t) (hd : d < 32) :
    part.Kept p d s t := by
  induction h with
  | here hstraight => exact ⟨.of_eq fun _ _ => rfl, rfl, hstraight⟩
  | next _ hstraight _ ih =>
    obtain ⟨hsame, hpc, hlast⟩ := ih hd
    exact ⟨(SDSP.SameStacks.of_eq hstraight.regStacks).trans hsame, hpc, hlast⟩
  | inner _ hheader hstacks _ _ _ ihloop ihpass =>
    obtain ⟨hloop, -⟩ := ihloop hd _ _ hheader
    obtain ⟨hsame, hpc, hlast⟩ := ihpass hd
    exact ⟨((SDSP.SameStacks.of_eq hstacks).trans hloop).trans hsame, hpc, hlast⟩
  | lastPass _ _ ih =>
    obtain ⟨hsame, hpc, hlast⟩ := ih hd
    intro base hbase
    refine ⟨((hbase.same hsame).same (.of_eq hlast.regStacks)).finish hd, ?_⟩
    change (p.stepInstruction _).pc = _
    rw [hlast.pc, hpc]
  | morePasses _ _ _ _ ihpass ih =>
    obtain ⟨hsame, hpc, hlast⟩ := ihpass hd
    intro base hbase
    exact ih hd base (((hbase.same hsame).same (.of_eq hlast.regStacks)).nextPass _)
  | skip _ hheader =>
    intro cnt u hu
    rw [hheader] at hu
    cases hu
    exact ⟨.of_eq fun _ _ => rfl, rfl⟩
  | @enter d last cnt s t _ _ _ _ hheader _ _ _ _ ih =>
    intro _ _ hu
    rw [hheader] at hu
    cases hu
    have hcnt : BitVec.ofNat 16 cnt.toNat = cnt := by
      rw [BitVec.ofNat_toNat, BitVec.setWidth_eq]
    have hwithin : SDSP.Within d (p.after s.pc) last (BitVec.ofNat 16 cnt.toNat) t
        (t.firstPass (p.after s.pc) last cnt) := by
      rw [hcnt]
      exact SDSP.within_firstPass ..
    exact ⟨fun reg hreg => (ih (by omega) t hwithin).1 reg hreg, (ih (by omega) t hwithin).2⟩

/-! ### The opcodes of the loops -/

theorem opcodeSize_loop {opc : BitVec 16} (h : isLoop opc = true) : opcodeSize opc = 1#16 := by
  have hlow : opc &&& 0xffe0#16 = 0x0040#16 := by simpa [isLoop] using h
  have hhigh : opc &&& 0xff00#16 = 0x0000#16 := by
    have hmask : (0xff00#16 : BitVec 16) = 0xffe0#16 &&& 0xff00#16 := by decide
    rw [hmask, ← BitVec.and_assoc, hlow]
    decide
  have hfe : opc &&& 0xfeff#16 &&& 0xfee0#16 = 0x0040#16 := by
    have hmask : 0xfeff#16 &&& 0xfee0#16 = 0xffe0#16 &&& 0xfee0#16 := by decide
    rw [BitVec.and_assoc, hmask, ← BitVec.and_assoc, hlow]
    decide
  have hff : opc &&& 0xfff0#16 &&& 0xff00#16 = 0x0000#16 := by
    have hmask : 0xfff0#16 &&& 0xff00#16 = 0xff00#16 := by decide
    rw [BitVec.and_assoc, hmask, hhigh]
  rw [opcodeSize, if_neg]
  rintro (hmem | hmem | hmem | hmem)
  · rw [hlow] at hmem
    exact absurd hmem (by decide)
  · rw [hhigh] at hmem
    exact absurd hmem (by decide)
  · simp only [List.mem_cons, List.not_mem_nil, or_false] at hmem
    rcases hmem with hmem | hmem | hmem | hmem | hmem | hmem | hmem <;> rw [hmem] at hfe <;>
      exact absurd hfe (by decide)
  · simp only [List.mem_cons, List.not_mem_nil, or_false] at hmem
    rcases hmem with hmem | hmem <;> rw [hmem] at hff <;> exact absurd hff (by decide)

theorem opcodeSize_loopi {opc : BitVec 16} (h : isLoopi opc = true) : opcodeSize opc = 1#16 := by
  have hhigh : opc &&& 0xff00#16 = 0x1000#16 := by simpa [isLoopi] using h
  have hsub (mask : BitVec 16) (hmask : mask &&& 0xf000#16 = 0xff00#16 &&& 0xf000#16) :
      opc &&& mask &&& 0xf000#16 = 0x1000#16 := by
    rw [BitVec.and_assoc, hmask, ← BitVec.and_assoc, hhigh]
    decide
  have he0 := hsub 0xffe0#16 (by decide)
  have hfe := hsub 0xfeff#16 (by decide)
  have hf0 := hsub 0xfff0#16 (by decide)
  rw [opcodeSize, if_neg]
  simp only [List.mem_cons, List.not_mem_nil, or_false]
  rintro (hmem | hmem | hmem | hmem)
  · rcases hmem with hmem | hmem | hmem | hmem <;> rw [hmem] at he0 <;>
      exact absurd he0 (by decide)
  · rw [hhigh] at hmem
    exact absurd hmem (by decide)
  · rcases hmem with hmem | hmem | hmem | hmem | hmem | hmem | hmem <;> rw [hmem] at hfe <;>
      exact absurd hfe (by decide)
  · rcases hmem with hmem | hmem <;> rw [hmem] at hf0 <;> exact absurd hf0 (by decide)

theorem opcodeSize_bloop {opc : BitVec 16} (h : isBloop opc = true) : opcodeSize opc = 2#16 := by
  have hlow : opc &&& 0xffe0#16 = 0x0060#16 := by simpa [isBloop] using h
  rw [opcodeSize, if_pos (.inl (by rw [hlow]; decide))]

theorem opcodeSize_bloopi {opc : BitVec 16} (h : isBloopi opc = true) :
    opcodeSize opc = 2#16 := by
  have hhigh : opc &&& 0xff00#16 = 0x1100#16 := by simpa [isBloopi] using h
  rw [opcodeSize, if_pos (.inr (.inl (by rw [hhigh]; decide)))]

theorem opcodeSize_eq (opc : BitVec 16) : opcodeSize opc = 1#16 ∨ opcodeSize opc = 2#16 := by
  rw [opcodeSize]
  split
  · exact .inr rfl
  · exact .inl rfl

theorem opReadRegister_pc (reg : BitVec 5) (s : SDSP σ) : (p.opReadRegister reg s).2.pc = s.pc := by
  rw [Program.opReadRegister]
  split_ifs <;> rfl

def SDSP.fetched (s : SDSP σ) : SDSP σ := { s with pc := s.pc + 1 }

theorem loopHeader_eq (s : SDSP σ) : p.loopHeader s =
    if isLoop (p.readIMEM s.pc) then
      some ((p.opReadRegister ((p.readIMEM s.pc).setWidth 5) s.fetched).1,
        (p.opReadRegister ((p.readIMEM s.pc).setWidth 5) s.fetched).2.pc,
        (p.opReadRegister ((p.readIMEM s.pc).setWidth 5) s.fetched).2)
    else if isBloop (p.readIMEM s.pc) then
      some ((p.opReadRegister ((p.readIMEM s.pc).setWidth 5) s.fetched).1,
        p.readIMEM (p.opReadRegister ((p.readIMEM s.pc).setWidth 5) s.fetched).2.pc,
        (p.opReadRegister ((p.readIMEM s.pc).setWidth 5) s.fetched).2.fetched)
    else if isLoopi (p.readIMEM s.pc) then
      some (p.readIMEM s.pc &&& 0xff#16, s.fetched.pc, s.fetched)
    else if isBloopi (p.readIMEM s.pc) then
      some (p.readIMEM s.pc &&& 0xff#16, p.readIMEM s.fetched.pc, s.fetched.fetched)
    else none := rfl

theorem stepInstruction_eq {s : SDSP σ} (hexc : s.checkExceptions = s) :
    p.stepInstruction s = p.executeInstruction (p.readIMEM s.pc) s.fetched := by
  rw [Program.stepInstruction, hexc]
  rfl

theorem loopHeader_pc {s t : SDSP σ} {cnt last : BitVec 16}
    (h : p.loopHeader s = some (cnt, last, t)) : t.pc = p.after s.pc := by
  rw [loopHeader_eq] at h
  rw [Program.after]
  split_ifs at h with hloop hbloop hloopi hbloopi <;> cases h
  · rw [opReadRegister_pc, opcodeSize_loop hloop]
    rfl
  · rw [opcodeSize_bloop hbloop]
    change (p.opReadRegister _ _).2.pc + 1 = _
    rw [opReadRegister_pc]
    change s.pc + 1 + 1 = _
    bv_omega
  · rw [opcodeSize_loopi hloopi]
    rfl
  · rw [opcodeSize_bloopi hbloopi]
    change s.pc + 1 + 1 = _
    bv_omega

theorem stepInstruction_loop {s t : SDSP σ} {cnt last : BitVec 16} (hexc : s.checkExceptions = s)
    (h : p.loopHeader s = some (cnt, last, t)) :
    p.stepInstruction s =
      if cnt ≠ 0#16 then t.storeLoop last cnt else { t with pc := p.after last } := by
  rw [loopHeader_eq] at h
  rw [stepInstruction_eq hexc, Program.executeInstruction]
  split_ifs at h with hloop hbloop hloopi hbloopi <;> cases h
  · rw [if_pos hloop]
    rfl
  · rw [if_neg hloop, if_pos hbloop]
    rfl
  · rw [if_neg hloop, if_neg hbloop, if_pos hloopi]
    rfl
  · rw [if_neg hloop, if_neg hbloop, if_neg hloopi, if_pos hbloopi]
    rfl

/-! ### Steps of the machine -/

/-- The loop hardware acts where a count is running and the instruction before the program counter
    is the one waited for. Both numbers are compared as they are, without wrapping. -/
structure SDSP.AtEnd (s : SDSP σ) : Prop where
  addr : (s.regStacks .loopAddress).st ≠ 0#16
  count : (s.regStacks .loopCounter).st ≠ 0#16
  pc : (s.pc.toNat : Int) - 1 = (s.regStacks .loopAddress).st.toNat

theorem handleLoop_eq_self {s : SDSP σ} (h : ¬s.AtEnd) : s.handleLoop = s := by
  rw [SDSP.handleLoop]
  dsimp only
  split
  · rename_i hpos
    exact if_neg fun hpc => h ⟨by bv_omega, by bv_omega, hpc⟩
  · rfl

theorem step_eq_of_not_atEnd {s : SDSP σ} (h : ¬(p.stepInstruction s).AtEnd) :
    p.step s = p.stepInstruction s := by
  rw [Program.step]
  split
  · exact handleLoop_eq_self h
  · rfl

theorem step_eq_of_apart {s : SDSP σ}
    (h : ((p.stepInstruction s).regStacks .loopCounter).st = 0#16 ∨
      ((p.stepInstruction s).regStacks .loopAddress).st + 1 ≠ (p.stepInstruction s).pc) :
    p.step s = p.stepInstruction s := by
  refine step_eq_of_not_atEnd fun hat => ?_
  have hpc := hat.pc
  rcases h with h | h
  · exact hat.count h
  · bv_omega

theorem step_straight {s : SDSP σ} (h : p.Straight s)
    (hapart : ¬p.Covers s.pc (s.regStacks .loopAddress).st) : p.step s = p.stepInstruction s := by
  refine step_eq_of_apart (.inr ?_)
  rw [h.regStacks .loopAddress (by decide), h.pc]
  exact fun heq => hapart (.inr heq)

theorem step_skip {s t : SDSP σ} {last : BitVec 16} (hexc : s.checkExceptions = s)
    (h : p.loopHeader s = some (0#16, last, t))
    (hapart : (t.regStacks .loopCounter).st = 0#16 ∨ ¬p.Covers last (t.regStacks .loopAddress).st) :
    p.step s = { t with pc := p.after last } := by
  have hstep := stepInstruction_loop hexc h
  rw [if_neg (by decide)] at hstep
  rw [← hstep]
  refine step_eq_of_apart ?_
  rw [hstep]
  exact hapart.imp_right fun hne heq => hne (.inr heq)

theorem step_enter {s t : SDSP σ} {cnt last : BitVec 16} (hexc : s.checkExceptions = s)
    (h : p.loopHeader s = some (cnt, last, t)) (hcnt : cnt ≠ 0#16)
    (hapart : ¬p.Covers s.pc last) : p.step s = t.storeLoop last cnt := by
  have hstep := stepInstruction_loop hexc h
  rw [if_pos hcnt] at hstep
  rw [← hstep]
  refine step_eq_of_apart (.inr ?_)
  rw [hstep]
  change last + 1 ≠ t.pc
  rw [loopHeader_pc h]
  exact fun heq => hapart (.inr heq)

/-- The end of a pass that is not the last, as the machine has it: back to the address on the call
    stack, with one pass less to do. -/
def SDSP.again (s : SDSP σ) : SDSP σ :=
  let s := s.setStack .loopCounter
    { s.regStacks .loopCounter with st := (s.regStacks .loopCounter).st - 1 }
  { s with pc := (s.regStacks .call).st }

theorem again_eq_nextPass {s : SDSP σ} {first : BitVec 16} {n : Nat}
    (hcall : (s.regStacks .call).st = first)
    (hcount : (s.regStacks .loopCounter).st = BitVec.ofNat 16 (n + 1)) :
    s.again = s.nextPass first n := by
  have hless : (s.regStacks .loopCounter).st - 1 = BitVec.ofNat 16 n := by
    rw [hcount]
    bv_omega
  have hpc : (s.again).pc = first := hcall
  unfold SDSP.nextPass
  rw [← hless, ← hpc]
  rfl

theorem firstPass_eq_storeLoop {t : SDSP σ} {first : BitVec 16} (hpc : t.pc = first)
    (last cnt : BitVec 16) : t.firstPass first last cnt = t.storeLoop last cnt := by
  subst hpc
  rfl

def SDSP.endPass (s : SDSP σ) : SDSP σ :=
  if (s.regStacks .loopCounter).st = 1#16 then s.finish else s.again

theorem endPass_ne {s : SDSP σ} : s.endPass ≠ s := by
  rw [SDSP.endPass]
  split
  · intro h
    have hptr : (s.regStacks .call).ptr - 1 = (s.regStacks .call).ptr :=
      congrArg (fun t => (t.regStacks .call).ptr) h
    bv_omega
  · intro h
    have hst : (s.regStacks .loopCounter).st - 1 = (s.regStacks .loopCounter).st :=
      congrArg (fun t => (t.regStacks .loopCounter).st) h
    bv_omega

theorem handleLoop_eq_endPass {s : SDSP σ} (h : s.AtEnd) : s.handleLoop = s.endPass := by
  have haddr := h.addr
  have hcount := h.count
  rw [SDSP.handleLoop, SDSP.endPass]
  dsimp only
  rw [if_pos ⟨by bv_omega, by bv_omega⟩, if_pos h.pc]
  by_cases hone : (s.regStacks .loopCounter).st = 1#16
  · rw [if_pos hone, if_neg (by rw [hone]; decide)]
    refine congrArg (fun regStacks => { s with regStacks }) ?_
    funext reg
    cases reg <;> rfl
  · rw [if_neg hone, if_pos (by bv_omega)]
    rfl

theorem step_last {s : SDSP σ} (h : p.Straight s) (hend : p.isLoopEnd s.pc = true)
    (haddr : (s.regStacks .loopAddress).st = s.pc) (hcount : (s.regStacks .loopCounter).st ≠ 0#16) :
    p.step s = (p.stepInstruction s).endPass ↔ p.SeenAt s.pc := by
  have hpc := h.pc
  have haddr' : ((p.stepInstruction s).regStacks .loopAddress).st = s.pc := by
    rw [h.regStacks .loopAddress (by decide), haddr]
  have hcount' : ((p.stepInstruction s).regStacks .loopCounter).st ≠ 0#16 := by
    rw [h.regStacks .loopCounter (by decide)]
    exact hcount
  have hat : (p.stepInstruction s).AtEnd ↔ p.SeenAt s.pc := by
    rw [Program.after] at hpc
    constructor
    · intro hat
      have hbefore := hat.pc
      have hzero := hat.addr
      rw [haddr'] at hbefore hzero
      rw [hpc] at hbefore
      rcases opcodeSize_eq (p.readIMEM s.pc) with hsize | hsize <;> rw [hsize] at hbefore
      · exact ⟨hsize, hzero, by bv_omega⟩
      · bv_omega
    · rintro ⟨hsize, hzero, hmax⟩
      refine ⟨haddr' ▸ hzero, hcount', ?_⟩
      rw [haddr', hpc, hsize]
      bv_omega
  rw [← hat]
  constructor
  · intro hstep
    by_contra hnot
    rw [step_eq_of_not_atEnd hnot] at hstep
    exact endPass_ne hstep.symm
  · intro hatEnd
    have hback : (p.stepInstruction s).pc - 1 = s.pc := by
      rw [hpc, Program.after, (hat.1 hatEnd).1]
      exact BitVec.add_sub_cancel s.pc 1
    rw [Program.step]
    rw [hback, if_pos hend]
    exact handleLoop_eq_endPass hatEnd

/-! ### The machine along a run -/

theorem follows_append {s : SDSP σ} {l l' : List (SDSP σ)} :
    Follows p s (l ++ l') ↔ Follows p s l ∧ Follows p (l.getLastD s) l' := by
  induction l generalizing s with
  | nil => exact (and_iff_right trivial).symm
  | cons t l ih =>
    rw [List.cons_append, Follows, Follows, ih, and_assoc, List.getLastD_cons]

theorem getLastD_append {α : Type} (l l' : List α) (a : α) :
    (l ++ l').getLastD a = l'.getLastD (l.getLastD a) := by
  induction l generalizing a with
  | nil => rfl
  | cons b l ih => rw [List.cons_append, List.getLastD_cons, List.getLastD_cons, ih]

theorem Run.getLastD_eq {part : Part} {d : Nat} {s t : SDSP σ} {l : List (SDSP σ)}
    {ends : List (BitVec 16)} (h : Run p part d s l ends t) : l.getLastD s = t := by
  induction h with
  | here => rfl
  | next _ _ _ ih => rw [List.getLastD_cons, ih]
  | inner _ _ _ _ _ _ ihloop ihpass => rw [getLastD_append, ihloop, ihpass]
  | lastPass => rw [getLastD_append]; rfl
  | morePasses _ _ _ _ _ ih => rw [getLastD_append, List.getLastD_cons, ih]
  | skip => rfl
  | enter _ _ _ _ _ _ ih => rw [List.getLastD_cons, ih]

/-- What surrounds a part of a run: the loop whose body it is in, or is; or for a whole loop, if it
    is passed over, that no loop around it ends where it does. -/
def Part.Context (p : Program σ) (s : SDSP σ) : Part → Prop
  | .pass last => (s.regStacks .loopAddress).st = last
  | .passes first last n => (s.regStacks .call).st = first ∧
      (s.regStacks .loopAddress).st = last ∧ p.isLoopEnd last = true ∧
      (s.regStacks .loopCounter).st = BitVec.ofNat 16 n ∧ n < 2 ^ 16
  | .loop last => ∀ cnt t, p.loopHeader s = some (cnt, last, t) → cnt = 0#16 →
      (t.regStacks .loopCounter).st = 0#16 ∨ ¬p.Covers last (t.regStacks .loopAddress).st

/-- The ends that must be seen: those of the loops that are entered, and that of the loop whose
    passes these are. -/
def Part.ends (ends : List (BitVec 16)) : Part → List (BitVec 16)
  | .passes _ last _ => last :: ends
  | _ => ends

theorem Run.follows_iff {part : Part} {d : Nat} {s t : SDSP σ} {l : List (SDSP σ)}
    {ends : List (BitVec 16)} (h : Run p part d s l ends t) (hd : d < 32)
    (hcontext : part.Context p s) :
    Follows p s l ↔ ∀ e ∈ part.ends ends, p.SeenAt e := by
  induction h with
  | here => exact iff_of_true trivial fun _ he => absurd he List.not_mem_nil
  | @next d last s x l ends hcovers hstraight _ ih =>
    have hcontext : (s.regStacks .loopAddress).st = last := hcontext
    have hstep := step_straight hstraight (hcontext ▸ hcovers)
    have hnext : ((p.stepInstruction s).regStacks .loopAddress).st = last := by
      rw [hstraight.regStacks .loopAddress (by decide), hcontext]
    rw [Follows, hstep]
    exact (and_iff_right rfl).trans (ih hd hnext)
  | @inner d last last' cnt s t u x l l' ends ends' _ hheader hstacks hloop hcovers' _ ihloop
      ihpass =>
    have hcontext : (s.regStacks .loopAddress).st = last := hcontext
    have hsame := (hloop.kept hd _ _ hheader).1
    have haround : (u.regStacks .loopAddress).st = last := by
      rw [hsame.st_eq .loopAddress (by decide), hstacks .loopAddress (by decide), hcontext]
    have hinner : Part.Context p s (.loop last') := by
      intro cnt' t' hheader' _
      rw [hheader] at hheader'
      cases hheader'
      rw [hstacks .loopAddress (by decide), hcontext]
      exact .inr hcovers'
    rw [follows_append, hloop.getLastD_eq, ihloop hd hinner, ihpass hd haround]
    exact List.forall_mem_append.symm
  | @lastPass d first last s x l ends _ hpass ih =>
    obtain ⟨-, haddr, hend, hcount, -⟩ := hcontext
    obtain ⟨hsame, hpc, hlast⟩ := hpass.kept hd
    have hdone : ((p.stepInstruction x).regStacks .loopCounter).st = 1#16 := by
      rw [hlast.regStacks .loopCounter (by decide), hsame.st_eq .loopCounter (by decide), hcount]
    have hstep : p.step x = (p.stepInstruction x).finish ↔ p.SeenAt last := by
      have hiff := step_last hlast (hpc ▸ hend)
        (by rw [hsame.st_eq .loopAddress (by decide), haddr, hpc])
        (by rw [hsame.st_eq .loopCounter (by decide), hcount]; decide)
      rw [SDSP.endPass, if_pos hdone, hpc] at hiff
      exact hiff
    rw [follows_append, hpass.getLastD_eq, ih hd haddr, Follows, Follows, and_true, hstep,
      and_comm]
    exact List.forall_mem_cons.symm
  | @morePasses d n first last s x u l l' ends ends' _ hpass hn _ ihpass ih =>
    obtain ⟨hcall, haddr, hend, hcount, hlt⟩ := hcontext
    obtain ⟨hsame, hpc, hlast⟩ := hpass.kept hd
    have hxaddr : ((p.stepInstruction x).regStacks .loopAddress).st = last := by
      rw [hlast.regStacks .loopAddress (by decide), hsame.st_eq .loopAddress (by decide), haddr]
    have hxcount : ((p.stepInstruction x).regStacks .loopCounter).st = BitVec.ofNat 16 (n + 1) := by
      rw [hlast.regStacks .loopCounter (by decide), hsame.st_eq .loopCounter (by decide), hcount]
    have hxcall : ((p.stepInstruction x).regStacks .call).st = first := by
      rw [hlast.regStacks .call (by decide), hsame.st_eq .call (by decide), hcall]
    have hnotone : BitVec.ofNat 16 (n + 1) ≠ 1#16 := by bv_omega
    have hstep : p.step x = (p.stepInstruction x).nextPass first n ↔ p.SeenAt last := by
      have hiff := step_last hlast (hpc ▸ hend)
        (by rw [hsame.st_eq .loopAddress (by decide), haddr, hpc])
        (by rw [hsame.st_eq .loopCounter (by decide), hcount]; bv_omega)
      rw [SDSP.endPass, if_neg (by rw [hxcount]; exact hnotone),
        again_eq_nextPass hxcall hxcount, hpc] at hiff
      exact hiff
    have hagain : Part.Context p ((p.stepInstruction x).nextPass first n)
        (.passes first last n) := ⟨hxcall, hxaddr, hend, rfl, by omega⟩
    rw [follows_append, hpass.getLastD_eq, ihpass hd haddr, Follows, hstep, ih hd hagain]
    simp only [Part.ends, List.forall_mem_cons, List.forall_mem_append]
    tauto
  | @skip d last s t hexc hheader =>
    have hstep := step_skip hexc hheader (hcontext _ _ hheader rfl)
    exact iff_of_true ⟨hstep, trivial⟩ fun _ he => absurd he List.not_mem_nil
  | @enter d last cnt s t u l ends hexc hheader hcnt hend hcovers _ ih =>
    have hstep := step_enter hexc hheader hcnt hcovers
    rw [← firstPass_eq_storeLoop (loopHeader_pc hheader)] at hstep
    have hinside : Part.Context p (t.firstPass (p.after s.pc) last cnt)
        (.passes (p.after s.pc) last cnt.toNat) := by
      refine ⟨rfl, rfl, hend, ?_, cnt.isLt⟩
      change cnt = BitVec.ofNat 16 cnt.toNat
      rw [BitVec.ofNat_toNat, BitVec.setWidth_eq]
    rw [Follows, hstep]
    exact (and_iff_right rfl).trans (ih (by omega) hinside)

/-- A loop is run as it should be: the machine goes through all its passes, comes to the
    instruction after the last one, and leaves the stacks as it found them. -/
def Performs (p : Program σ) (d : Nat) (last : BitVec 16) (s t u : SDSP σ)
    (l : List (SDSP σ)) : Prop :=
  Follows p s l ∧ l.getLastD s = u ∧ u.pc = p.after last ∧ t.SameStacks d u

/-- The loop hardware runs a loop as many times as its count says, and goes on after it with the
    stacks as before, just if it sees the end of the body, and those of the bodies of the loops
    that are entered within. -/
theorem hardware_loops {d : Nat} {last cnt : BitVec 16} {s t u : SDSP σ} {l : List (SDSP σ)}
    {ends : List (BitVec 16)} (hrun : Run p (.loop last) d s l ends u) (hd : d < 32)
    (hheader : p.loopHeader s = some (cnt, last, t))
    (hothers : cnt = 0#16 →
      (t.regStacks .loopCounter).st = 0#16 ∨ ¬p.Covers last (t.regStacks .loopAddress).st) :
    Performs p d last s t u l ↔ ∀ e ∈ ends, p.SeenAt e := by
  have hcontext : Part.Context p s (.loop last) := by
    intro cnt' t' hheader'
    rw [hheader] at hheader'
    cases hheader'
    exact hothers
  obtain ⟨hsame, hpc⟩ := hrun.kept hd _ _ hheader
  have hiff : Follows p s l ↔ ∀ e ∈ ends, p.SeenAt e := hrun.follows_iff hd hcontext
  rw [Performs, hiff]
  exact ⟨fun h => h.1, fun h => ⟨h, hrun.getLastD_eq, hpc, hsame⟩⟩

/-- LOOPI #2 at address 0, over the instruction `opc`; the instructions do nothing, but those of
    two words step over the second. -/
def twoPasses (opc : BitVec 16) : Program Unit where
  iram address := if address = 0#12 then 0x1002#16 else if address = 1#12 then opc else 0#16
  irom _ := 0#16
  readRegister _ _ := 0#16
  execute inst s := { s with pc := s.pc + (opcodeSize inst - 1#16) }

def atReset : SDSP Unit where
  pc := 0#16
  sr := 0#16
  exceptions := 0#8
  regStacks _ := { st := 0#16, cells := fun _ => 0#16, ptr := 0#5 }
  rest := ()

/-- In the body of `twoPasses`, with `n` passes to do. -/
def inBody (n : BitVec 16) : SDSP Unit :=
  ({ atReset with pc := 1#16 } : SDSP Unit).firstPass 1#16 1#16 n

section TwoPasses
variable {opc : BitVec 16} (hopc : isLoop opc = false ∧ isBloop opc = false ∧ isLoopi opc = false ∧
  isBloopi opc = false)
include hopc

theorem twoPasses_step {s : SDSP Unit} (hpc : s.pc = 1#16) (hexc : s.exceptions = 0#8) :
    (twoPasses opc).stepInstruction s = { s with pc := s.pc + 1 + (opcodeSize opc - 1#16) } := by
  have hread : (twoPasses opc).readIMEM s.pc = opc := by
    rw [hpc]
    rfl
  obtain ⟨hloop, hbloop, hloopi, hbloopi⟩ := hopc
  rw [stepInstruction_eq (if_pos hexc), hread, Program.executeInstruction, hloop, hbloop, hloopi,
    hbloopi]
  rfl

theorem twoPasses_straight {s : SDSP Unit} (hpc : s.pc = 1#16) (hexc : s.exceptions = 0#8) :
    (twoPasses opc).Straight s := by
  have hread : (twoPasses opc).readIMEM s.pc = opc := by
    rw [hpc]
    rfl
  have hstep := twoPasses_step hopc hpc hexc
  refine ⟨?_, fun reg _ => by rw [hstep]⟩
  rw [hstep, Program.after, hread]
  dsimp only
  bv_omega

theorem twoPasses_run (hend : (twoPasses opc).isLoopEnd 1#16 = true) : ∃ u l,
    Run (twoPasses opc) (.loop 1#16) 1 atReset
    (inBody 2#16 :: ((twoPasses opc).stepInstruction (inBody 2#16)).nextPass 1#16 1 :: l)
      [1#16] u := by
  have hread : (twoPasses opc).readIMEM atReset.pc = 0x1002#16 := rfl
  have hheader : (twoPasses opc).loopHeader atReset =
      some (2#16, 1#16, { atReset with pc := 1#16 }) := by
    rw [loopHeader_eq, hread]
    rfl
  have hcovers : ¬(twoPasses opc).Covers atReset.pc 1#16 := by
    rw [Program.Covers, Program.after, hread]
    decide
  have hfirst : Run (twoPasses opc) (.pass 1#16) 0 (inBody 2#16) [] [] (inBody 2#16) :=
    .here (s := inBody 2#16) (twoPasses_straight hopc rfl rfl)
  have hsecond : (twoPasses opc).Straight
      (((twoPasses opc).stepInstruction (inBody 2#16)).nextPass 1#16 1) := by
    refine twoPasses_straight hopc rfl ?_
    change ((twoPasses opc).stepInstruction (inBody 2#16)).exceptions = 0#8
    rw [twoPasses_step hopc rfl rfl]
    rfl
  have hlast : Run (twoPasses opc) (.pass 1#16) 0
      (((twoPasses opc).stepInstruction (inBody 2#16)).nextPass 1#16 1) [] []
      (((twoPasses opc).stepInstruction (inBody 2#16)).nextPass 1#16 1) := .here hsecond
  have hafter : (twoPasses opc).after atReset.pc = 1#16 := by
    rw [Program.after, hread]
    rfl
  obtain ⟨u, l, hpasses⟩ : ∃ u l, Run (twoPasses opc) (.passes 1#16 1#16 2) 0 (inBody 2#16)
      (((twoPasses opc).stepInstruction (inBody 2#16)).nextPass 1#16 1 :: l) [] u :=
    ⟨_, _, .morePasses (n := 1) rfl hfirst (by decide) (.lastPass rfl hlast)⟩
  have hbody : Run (twoPasses opc) (.passes ((twoPasses opc).after atReset.pc) 1#16 2) 0
      (SDSP.firstPass { atReset with pc := 1#16 } ((twoPasses opc).after atReset.pc) 1#16 2#16)
      (((twoPasses opc).stepInstruction (inBody 2#16)).nextPass 1#16 1 :: l) [] u := by
    rw [hafter]
    exact hpasses
  have hloop := Run.enter (s := atReset) rfl hheader (by decide) hend hcovers hbody
  rw [hafter] at hloop
  exact ⟨u, l, hloop⟩

end TwoPasses

theorem hardware_loops_nop : ∃ u l,
    Performs (twoPasses 0x0000#16) 1 1#16 atReset { atReset with pc := 1#16 } u l := by
  obtain ⟨u, l, hrun⟩ := @twoPasses_run 0x0000#16 (by decide) (by decide)
  refine ⟨u, _, (hardware_loops hrun (by decide) rfl fun _ => .inl rfl).2 ?_⟩
  rw [List.forall_mem_singleton]
  exact ⟨by decide, by decide, by decide⟩

/-- LRI is two words long: after it the body is not run again, and the entries of the loop stay on
    the stacks. -/
theorem hardware_loops_lri : ∃ u l ends,
    Run (twoPasses 0x0080#16) (.loop 1#16) 1 atReset l ends u ∧
      ¬Performs (twoPasses 0x0080#16) 1 1#16 atReset { atReset with pc := 1#16 } u l := by
  obtain ⟨u, l, hrun⟩ := @twoPasses_run 0x0080#16 (by decide) (by decide)
  refine ⟨u, _, _, hrun, fun h => ?_⟩
  have hstep := h.1.2.1
  have hseen := (step_last (twoPasses_straight (by decide) rfl rfl) (by decide) rfl (by decide)).1
    hstep
  exact absurd hseen.1 (by decide)

end DolphinXR.DSP
