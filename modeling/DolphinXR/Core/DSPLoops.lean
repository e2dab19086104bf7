import Mathlib.Logic.Function.Basic

/- The loop hardware of the DSP as the interpreter has it (Core/DSP/Interpreter/DSPIntBranch.cpp,
   `Interpreter::Step`, Core/DSP/DSPStacks.cpp, Core/DSP/DSPAnalyzer.cpp). A loop instruction
   pushes the address of its body on the call stack, the address of the last instruction of the
   body and the count on the two loop stacks; the analyzer has marked that last address, and the
   end of a pass is seen after an instruction from the program counter. What the other instructions
   do, and what they work on, is left open.

   What the loops should do is said by `Run`, by the structure of the program: as many passes
   through the body as its count says, each begun at its first instruction, whatever the machine
   does at the end of a pass, and straight from there to the last one, with the loops inside run in
   their turn. -/
namespace DolphinXR.DSP

inductive StackRegister where
  | call | data | loopAddress | loopCounter
  deriving DecidableEq, Repr

/-- A stack register `$stX` with the hardware stack behind it. -/
structure RegStack where
  /-- The register itself. -/
  st : BitVec 16
  cells : BitVec 5 → BitVec 16
  ptr : BitVec 5

namespace RegStack

def store (s : RegStack) (val : BitVec 16) : RegStack :=
  { st := val, cells := Function.update s.cells (s.ptr + 1) s.st, ptr := s.ptr + 1 }

def pop (s : RegStack) : RegStack := { s with st := s.cells s.ptr, ptr := s.ptr - 1 }

end RegStack

/-- The state; `rest` is what the loop hardware does not look at. -/
structure SDSP (σ : Type) where
  pc : BitVec 16
  sr : BitVec 16
  exceptions : BitVec 8
  regStacks : StackRegister → RegStack
  rest : σ

namespace SDSP
variable {σ : Type}

def setStack (s : SDSP σ) (reg : StackRegister) (stack : RegStack) : SDSP σ :=
  { s with regStacks := Function.update s.regStacks reg stack }

def storeStack (s : SDSP σ) (reg : StackRegister) (val : BitVec 16) : SDSP σ :=
  s.setStack reg ((s.regStacks reg).store val)

def popStack (s : SDSP σ) (reg : StackRegister) : BitVec 16 × SDSP σ :=
  ((s.regStacks reg).st, s.setStack reg (s.regStacks reg).pop)

def srIntEnable : BitVec 16 := 0x0200#16
def srExtIntEnable : BitVec 16 := 0x0800#16

/-- The exceptions `i` to 1, the highest first. -/
def checkExceptionsFrom (s : SDSP σ) : Nat → SDSP σ
  | 0 => s
  | i + 1 =>
    if s.exceptions.getLsbD (i + 1) then
      if s.sr &&& srIntEnable ≠ 0#16 ∨ i + 1 = 7 then
        let t := (s.storeStack .call s.pc).storeStack .data s.sr
        { t with
          pc := BitVec.ofNat 16 ((i + 1) * 2)
          exceptions := s.exceptions &&& ~~~(1#8 <<< (i + 1))
          sr := if i + 1 = 7 then s.sr &&& ~~~srExtIntEnable else s.sr &&& ~~~srIntEnable }
      else checkExceptionsFrom s i
    else checkExceptionsFrom s i

def checkExceptions (s : SDSP σ) : SDSP σ :=
  if s.exceptions = 0#8 then s else s.checkExceptionsFrom 7

def handleLoop (s : SDSP σ) : SDSP σ :=
  let rCallAddress := (s.regStacks .call).st
  let rLoopAddress := (s.regStacks .loopAddress).st
  let rLoopCounter := (s.regStacks .loopCounter).st
  if rLoopAddress > 0#16 ∧ rLoopCounter > 0#16 then
    if (s.pc.toNat : Int) - 1 = rLoopAddress.toNat then
      let rLoopCounter := rLoopCounter - 1
      let s := s.setStack .loopCounter { s.regStacks .loopCounter with st := rLoopCounter }
      if rLoopCounter > 0#16 then { s with pc := rCallAddress }
      else (((s.popStack .call).2.popStack .loopAddress).2.popStack .loopCounter).2
    else s
  else s

def storeLoop (s : SDSP σ) (loopPc cnt : BitVec 16) : SDSP σ :=
  ((s.storeStack .call s.pc).storeStack .loopAddress loopPc).storeStack .loopCounter cnt

end SDSP

def isLoop (opc : BitVec 16) : Bool := opc &&& 0xffe0#16 == 0x0040#16
def isBloop (opc : BitVec 16) : Bool := opc &&& 0xffe0#16 == 0x0060#16
def isLoopi (opc : BitVec 16) : Bool := opc &&& 0xff00#16 == 0x1000#16
def isBloopi (opc : BitVec 16) : Bool := opc &&& 0xff00#16 == 0x1100#16

/-- The `size` of the opcode's template: two words for the opcodes that an immediate or an address
    follows. -/
def opcodeSize (opc : BitVec 16) : BitVec 16 :=
  if (opc &&& 0xffe0#16) ∈ [0x0060#16, 0x0080#16, 0x00c0#16, 0x00e0#16] ∨
      (opc &&& 0xff00#16) ∈ [0x1100#16, 0x1600#16] ∨
      (opc &&& 0xfeff#16) ∈ [0x0200#16, 0x0220#16, 0x0240#16, 0x0260#16, 0x0280#16, 0x02a0#16,
        0x02c0#16] ∨
      (opc &&& 0xfff0#16) ∈ [0x0290#16, 0x02b0#16] then 2#16
  else 1#16

/-- A program, and what the instructions other than the loops do. -/
structure Program (σ : Type) where
  iram : BitVec 12 → BitVec 16
  irom : BitVec 12 → BitVec 16
  /-- The registers other than the stacks, as an instruction reads them. -/
  readRegister : σ → BitVec 5 → BitVec 16
  execute : BitVec 16 → SDSP σ → SDSP σ

namespace Program
variable {σ : Type} (p : Program σ)

def readIMEM (address : BitVec 16) : BitVec 16 :=
  if address >>> 12 = 0#16 then p.iram (address.setWidth 12)
  else if address >>> 12 = 8#16 then p.irom (address.setWidth 12)
  else 0#16

/-- `FindInstructionStarts` from `addr` on, over as many words as `words` at most: the addresses
    it flags as the ends of loops. -/
def findLoopEnds (endAddr : BitVec 16) : Nat → BitVec 16 → List (BitVec 16)
  | 0, _ => []
  | words + 1, addr =>
    if addr < endAddr then
      let inst := p.readIMEM addr
      let flagged :=
        if isBloop inst ∨ isBloopi inst then [p.readIMEM (addr + 1)]
        else if isLoop inst ∨ isLoopi inst then [addr + 1]
        else []
      flagged ++ findLoopEnds endAddr words (addr + opcodeSize inst)
    else []

/-- `Analyze`: IRAM, then IROM. -/
def isLoopEnd (address : BitVec 16) : Bool :=
  address ∈ p.findLoopEnds 0x1000#16 0x1000 0x0000#16 ∨
    address ∈ p.findLoopEnds 0x9000#16 0x1000 0x8000#16

/-! ### The interpreter -/

def fetchInstruction (s : SDSP σ) : BitVec 16 × SDSP σ :=
  (p.readIMEM s.pc, { s with pc := s.pc + 1 })

def skipInstruction (s : SDSP σ) : SDSP σ :=
  { s with pc := s.pc + opcodeSize (p.readIMEM s.pc) }

/-- Reading a stack register pops it. -/
def opReadRegister (reg : BitVec 5) (s : SDSP σ) : BitVec 16 × SDSP σ :=
  if reg = 0x0c#5 then s.popStack .call
  else if reg = 0x0d#5 then s.popStack .data
  else if reg = 0x0e#5 then s.popStack .loopAddress
  else if reg = 0x0f#5 then s.popStack .loopCounter
  else (p.readRegister s.rest reg, s)

def loop (opc : BitVec 16) (s : SDSP σ) : SDSP σ :=
  let (cnt, s) := p.opReadRegister (opc.setWidth 5) s
  let loopPc := s.pc
  if cnt ≠ 0#16 then s.storeLoop loopPc cnt else p.skipInstruction s

def loopi (opc : BitVec 16) (s : SDSP σ) : SDSP σ :=
  let cnt := opc &&& 0xff#16
  let loopPc := s.pc
  if cnt ≠ 0#16 then s.storeLoop loopPc cnt else p.skipInstruction s

def bloop (opc : BitVec 16) (s : SDSP σ) : SDSP σ :=
  let (cnt, s) := p.opReadRegister (opc.setWidth 5) s
  let (loopPc, s) := p.fetchInstruction s
  if cnt ≠ 0#16 then s.storeLoop loopPc cnt else p.skipInstruction { s with pc := loopPc }

def bloopi (opc : BitVec 16) (s : SDSP σ) : SDSP σ :=
  let cnt := opc &&& 0xff#16
  let (loopPc, s) := p.fetchInstruction s
  if cnt ≠ 0#16 then s.storeLoop loopPc cnt else p.skipInstruction { s with pc := loopPc }

def executeInstruction (inst : BitVec 16) (s : SDSP σ) : SDSP σ :=
  if isLoop inst then p.loop inst s
  else if isBloop inst then p.bloop inst s
  else if isLoopi inst then p.loopi inst s
  else if isBloopi inst then p.bloopi inst s
  else p.execute inst s

/-- The instruction of a step, before the loop hardware sees where it has come to. -/
def stepInstruction (s : SDSP σ) : SDSP σ :=
  let (opc, s) := p.fetchInstruction s.checkExceptions
  p.executeInstruction opc s

def step (s : SDSP σ) : SDSP σ :=
  let s := p.stepInstruction s
  if p.isLoopEnd (s.pc - 1) then s.handleLoop else s

end Program

variable {σ : Type}

/-! ### Stacks that agree -/

namespace RegStack

/-- The two agree but for the `d` cells above the pointer. -/
structure Agree (d : Nat) (a b : RegStack) : Prop where
  st : b.st = a.st
  ptr : b.ptr = a.ptr
  cells : ∀ k : BitVec 5, k.toNat + d < 32 → b.cells (a.ptr - k) = a.cells (a.ptr - k)

namespace Agree
variable {d e : Nat} {a b c : RegStack}

theorem refl (a : RegStack) : Agree d a a := ⟨rfl, rfl, fun _ _ => rfl⟩

theorem trans (hab : Agree d a b) (hbc : Agree d b c) : Agree d a c where
  st := hbc.st.trans hab.st
  ptr := hbc.ptr.trans hab.ptr
  cells k hk := by
    have h := hbc.cells k hk
    rw [hab.ptr] at h
    exact h.trans (hab.cells k hk)

theorem pop_store {v : BitVec 16} (h : Agree d (a.store v) b) (hd : d < 32) :
    Agree (d + 1) a b.pop where
  st := by
    have htop := h.cells 0#5 (by simpa using hd)
    change b.cells (a.ptr + 1 - 0#5) = (a.store v).cells (a.ptr + 1 - 0#5) at htop
    rw [BitVec.sub_zero] at htop
    have hstored : (a.store v).cells (a.ptr + 1) = a.st := Function.update_self ..
    change b.cells b.ptr = a.st
    rw [h.ptr]
    exact htop.trans hstored
  ptr := by
    change b.ptr - 1 = a.ptr
    rw [h.ptr]
    change a.ptr + 1 - 1 = a.ptr
    bv_omega
  cells k hk := by
    have hbelow := h.cells (k + 1) (by bv_omega)
    have hat : a.ptr + 1 - (k + 1) = a.ptr - k := by bv_omega
    change b.cells (a.ptr + 1 - (k + 1)) = (a.store v).cells (a.ptr + 1 - (k + 1)) at hbelow
    rw [hat] at hbelow
    have hother : (a.store v).cells (a.ptr - k) = a.cells (a.ptr - k) :=
      Function.update_of_ne (by bv_omega) ..
    exact hbelow.trans hother

theorem setSt {v : BitVec 16} (h : Agree d a b) :
    Agree d { a with st := v } { b with st := v } :=
  ⟨rfl, h.ptr, h.cells⟩

end Agree

end RegStack

def StackRegister.IsControl (reg : StackRegister) : Prop := reg ≠ .data

instance (reg : StackRegister) : Decidable reg.IsControl := inferInstanceAs (Decidable (_ ≠ _))

namespace SDSP

/-- The call stack and the loop stacks are as they were, but for `d` cells above the pointers. -/
def SameStacks (d : Nat) (s t : SDSP σ) : Prop :=
  ∀ reg : StackRegister, reg.IsControl → (s.regStacks reg).Agree d (t.regStacks reg)

/-- The first pass begins: at the first instruction of the body, with the entries of the loop. -/
def firstPass (s : SDSP σ) (first last cnt : BitVec 16) : SDSP σ :=
  { ((s.storeStack .call first).storeStack .loopAddress last).storeStack .loopCounter cnt with
    pc := first }

/-- Another pass begins: at the first instruction of the body, with `n` passes to do. -/
def nextPass (s : SDSP σ) (first : BitVec 16) (n : Nat) : SDSP σ :=
  { s.setStack .loopCounter { s.regStacks .loopCounter with st := BitVec.ofNat 16 n } with
    pc := first }

def finish (s : SDSP σ) : SDSP σ :=
  (((s.popStack .call).2.popStack .loopAddress).2.popStack .loopCounter).2

end SDSP

/-! ### Runs by the structure of the program -/

namespace Program
variable (p : Program σ)

/-- A loop instruction at the program counter: its count, the address of the last instruction of
    its body, and the state in which the body begins, before the entries of the loop are pushed. -/
def loopHeader (s : SDSP σ) : Option (BitVec 16 × BitVec 16 × SDSP σ) :=
  let (inst, s) := p.fetchInstruction s
  if isLoop inst then
    let (cnt, s) := p.opReadRegister (inst.setWidth 5) s
    some (cnt, s.pc, s)
  else if isBloop inst then
    let (cnt, s) := p.opReadRegister (inst.setWidth 5) s
    let (loopPc, s) := p.fetchInstruction s
    some (cnt, loopPc, s)
  else if isLoopi inst then some (inst &&& 0xff#16, s.pc, s)
  else if isBloopi inst then
    let (loopPc, s) := p.fetchInstruction s
    some (inst &&& 0xff#16, loopPc, s)
  else none

def after (addr : BitVec 16) : BitVec 16 := addr + opcodeSize (p.readIMEM addr)

/-- One of the words of the instruction at `addr` is at `e`. -/
def Covers (addr e : BitVec 16) : Prop := e = addr ∨ e + 1 = p.after addr

/-- An instruction that goes on to the next and leaves the stacks of the loops alone. -/
structure Straight (s : SDSP σ) : Prop where
  pc : (p.stepInstruction s).pc = p.after s.pc
  regStacks : ∀ reg : StackRegister, reg.IsControl →
    (p.stepInstruction s).regStacks reg = s.regStacks reg

def SeenAt (e : BitVec 16) : Prop :=
  opcodeSize (p.readIMEM e) = 1#16 ∧ e ≠ 0#16 ∧ e ≠ 0xffff#16

end Program

/-- The parts of a run: a pass up to the last instruction of a body, so many passes from the first
    instruction of a body with the ends of the passes, and a whole loop. -/
inductive Part where
  | pass (last : BitVec 16)
  | passes (first last : BitVec 16) (n : Nat)
  | loop (last : BitVec 16)

/-- A part of a run from a state: the states it goes through, the last addresses of the loops that
    are entered, and the state it comes to. Loops are nested at most `d` deep. -/
inductive Run (p : Program σ) :
    Part → Nat → SDSP σ → List (SDSP σ) → List (BitVec 16) → SDSP σ → Prop where
  | here {d : Nat} {s : SDSP σ} : p.Straight s → Run p (.pass s.pc) d s [] [] s
  | next {d : Nat} {last : BitVec 16} {s x : SDSP σ} {l : List (SDSP σ)}
      {ends : List (BitVec 16)} : ¬p.Covers s.pc last → p.Straight s →
      Run p (.pass last) d (p.stepInstruction s) l ends x →
      Run p (.pass last) d s (p.stepInstruction s :: l) ends x
  /-- A loop within a body: it ends elsewhere, and its count is not read off its own stacks. -/
  | inner {d : Nat} {last last' cnt : BitVec 16} {s t u x : SDSP σ} {l l' : List (SDSP σ)}
      {ends ends' : List (BitVec 16)} : ¬p.Covers s.pc last →
      p.loopHeader s = some (cnt, last', t) →
      (∀ reg : StackRegister, reg.IsControl → t.regStacks reg = s.regStacks reg) →
      Run p (.loop last') d s l ends u → ¬p.Covers last' last →
      Run p (.pass last) d u l' ends' x →
      Run p (.pass last) d s (l ++ l') (ends ++ ends') x
  | lastPass {d : Nat} {first last : BitVec 16} {s x : SDSP σ} {l : List (SDSP σ)}
      {ends : List (BitVec 16)} : s.pc = first → Run p (.pass last) d s l ends x →
      Run p (.passes first last 1) d s (l ++ [(p.stepInstruction x).finish]) ends
        (p.stepInstruction x).finish
  | morePasses {d n : Nat} {first last : BitVec 16} {s x u : SDSP σ} {l l' : List (SDSP σ)}
      {ends ends' : List (BitVec 16)} : s.pc = first → Run p (.pass last) d s l ends x → 0 < n →
      Run p (.passes first last n) d ((p.stepInstruction x).nextPass first n) l' ends' u →
      Run p (.passes first last (n + 1)) d s
        (l ++ (p.stepInstruction x).nextPass first n :: l') (ends ++ ends') u
  /-- With the count zero the body is passed over. -/
  | skip {d : Nat} {last : BitVec 16} {s t : SDSP σ} : s.checkExceptions = s →
      p.loopHeader s = some (0#16, last, t) →
      Run p (.loop last) d s [{ t with pc := p.after last }] [] { t with pc := p.after last }
  | enter {d : Nat} {last cnt : BitVec 16} {s t u : SDSP σ} {l : List (SDSP σ)}
      {ends : List (BitVec 16)} : s.checkExceptions = s →
      p.loopHeader s = some (cnt, last, t) → cnt ≠ 0#16 → p.isLoopEnd last = true →
      ¬p.Covers s.pc last →
      Run p (.passes (p.after s.pc) last cnt.toNat) d (t.firstPass (p.after s.pc) last cnt) l
        ends u →
      Run p (.loop last) (d + 1) s (t.firstPass (p.after s.pc) last cnt :: l) (last :: ends) u

def Follows (p : Program σ) (s : SDSP σ) : List (SDSP σ) → Prop
  | [] => True
  | t :: l => p.step s = t ∧ Follows p t l

end DolphinXR.DSP
