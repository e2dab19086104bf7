import DolphinXR.Lib.NarrowSigned

/- The accumulators of the DSP and the instructions that write and test them
   (Core/DSP/Interpreter/DSPIntArithmetic.cpp, and the product moves and tests of
   DSPIntMultiplier.cpp). An accumulator has 40 bits, held sign-extended in 64. An extension
   operation that runs beside an instruction writes after it: `ZeroWriteBackLog` does nothing, as
   PRECISE_BACKLOG is not defined. -/
namespace DolphinXR.DSP

def isProperlySignExtended (val : BitVec 64) : Bool :=
  let topbits := val &&& 0xffffff8000000000#64
  topbits == 0#64 || 0xffffff8000000000#64 == topbits

/-- A register `$acX`, properly sign-extended. -/
structure LongAcc where
  val : BitVec 64
  extended : isProperlySignExtended val = true
  deriving DecidableEq

/-- The register `$prod`. -/
structure Product where
  l : BitVec 16
  m : BitVec 16
  h : BitVec 16
  m2 : BitVec 16
  deriving DecidableEq

/-- A register `$axX`. -/
structure LongAx where
  l : BitVec 16
  h : BitVec 16
  deriving DecidableEq

structure Registers where
  sr : BitVec 16
  prod : Product
  ax : Fin 2 → LongAx
  ac : Fin 2 → LongAcc

def srCarry : BitVec 16 := 0x0001#16
def srOverflow : BitVec 16 := 0x0002#16
def srArithZero : BitVec 16 := 0x0004#16
def srSign : BitVec 16 := 0x0008#16
def srOverS32 : BitVec 16 := 0x0010#16
def srTop2Bits : BitVec 16 := 0x0020#16
def srOverflowSticky : BitVec 16 := 0x0080#16
def srCmpMask : BitVec 16 := 0x003f#16

open Lib.NarrowSigned

theorem extended_iff (val : BitVec 64) :
    isProperlySignExtended val = true ↔ Fits 39 val.toInt := by
  have htop : (val &&& 0xffffff8000000000#64).toNat = val.toNat / 2 ^ 39 * 2 ^ 39 := by
    have hmask : 0xffffff8000000000#64 = BitVec.allOnes 64 <<< 39 := by decide
    rw [hmask]
    exact toNat_and_high val 39
  have hnat := toNat_eq_toInt val
  have hlow := BitVec.le_toInt val
  have hhigh := BitVec.toInt_lt (x := val)
  rw [isProperlySignExtended]
  simp only [Bool.or_eq_true, beq_iff_eq, ← BitVec.toNat_inj, htop]
  unfold Fits
  simp only [BitVec.toNat_ofNat]
  norm_num at hlow hhigh
  split_ifs at hnat <;> omega

theorem extended_signExtend (value : BitVec 64) :
    isProperlySignExtended ((value <<< 24).sshiftRight 24) = true := by
  rw [extended_iff, toInt_shiftLeft_sshiftRight (k := 39) (d := 24)]
  exact wrap_fits 39 _

/-! ### Register access -/

namespace LongAcc

@[ext]
theorem ext {a b : LongAcc} (h : a.val = b.val) : a = b := by
  cases a
  cases b
  cases h
  rfl

/-- 40-bit sign extension. -/
def ofValue (value : BitVec 64) : LongAcc :=
  ⟨(value <<< 24).sshiftRight 24, extended_signExtend value⟩

def mid (a : LongAcc) : BitVec 16 := (a.val >>> 16).setWidth 16

theorem extended_mid (a : LongAcc) (m : BitVec 16) :
    isProperlySignExtended (a.val &&& ~~~0xffff0000#64 ||| m.setWidth 64 <<< 16) = true := by
  have hm : m.setWidth 64 <<< 16 &&& 0xffffff8000000000#64 = 0#64 := by
    have hmask : 0xffffff8000000000#64 = BitVec.allOnes 64 <<< 39 := by decide
    have hlt := m.isLt
    rw [hmask, ← BitVec.toNat_inj, toNat_and_high, BitVec.toNat_shiftLeft, Nat.shiftLeft_eq,
      BitVec.toNat_setWidth]
    simp only [BitVec.toNat_ofNat]
    omega
  have htop : ~~~0xffff0000#64 &&& 0xffffff8000000000#64 = 0xffffff8000000000#64 := by decide
  have hext := a.extended
  rw [isProperlySignExtended] at hext ⊢
  rw [BitVec.and_or_distrib_right, BitVec.and_assoc, htop, hm, BitVec.or_zero]
  exact hext

/-- `$acX.m` alone is replaced. -/
def setMid (a : LongAcc) (m : BitVec 16) : LongAcc :=
  ⟨a.val &&& ~~~0xffff0000#64 ||| m.setWidth 64 <<< 16, a.extended_mid m⟩

end LongAcc

namespace Registers

def getLongAcc (s : Registers) (reg : Fin 2) : BitVec 64 := (s.ac reg).val

def setLongAcc (s : Registers) (reg : Fin 2) (value : BitVec 64) : Registers :=
  { s with ac := Function.update s.ac reg (.ofValue value) }

def getLongProduct (s : Registers) : BitVec 64 :=
  let val := (s.prod.h.setWidth 8).signExtend 64 <<< 32
  let lowProd := s.prod.m.setWidth 64
  let lowProd := lowProd + s.prod.m2.setWidth 64
  let lowProd := lowProd <<< 16
  let lowProd := lowProd ||| s.prod.l.setWidth 64
  val + lowProd

def getLongProductRounded (s : Registers) : BitVec 64 :=
  let prod := s.getLongProduct
  if prod &&& 0x10000#64 ≠ 0#64 then (prod + 0x8000#64) &&& ~~~0xffff#64
  else (prod + 0x7fff#64) &&& ~~~0xffff#64

def getLongACX (s : Registers) (reg : Fin 2) : BitVec 64 :=
  ((s.ax reg).h.setWidth 32 <<< 16 ||| (s.ax reg).l.setWidth 32).signExtend 64

def isSRFlagSet (s : Registers) (flag : BitVec 16) : Bool := s.sr &&& flag != 0#16

end Registers

def convertLongAcc (val : BitVec 64) : BitVec 64 := (val <<< 24).sshiftRight 24

def roundLongAcc (val : BitVec 64) : BitVec 64 :=
  if val &&& 0x10000#64 ≠ 0#64 then (val + 0x8000#64) &&& ~~~0xffff#64
  else (val + 0x7fff#64) &&& ~~~0xffff#64

/-! ### The status register -/

def isCarryAdd (val result : BitVec 64) : Bool := result.ult val

def isCarrySubtract (val result : BitVec 64) : Bool := result.ule val

def isOverflow (val1 val2 res : BitVec 64) : Bool :=
  ((val1 ^^^ res) &&& (val2 ^^^ res)).slt 0#64

def isOverS32 (acc : BitVec 64) : Bool := acc != (acc.setWidth 32).signExtend 64

/-- The registers after an instruction, and whether its DEBUG_ASSERTs held. -/
structure Checked where
  regs : Registers
  asserted : Bool

namespace Registers

def setFlag (sr flag : BitVec 16) (set : Bool) : BitVec 16 := if set then sr ||| flag else sr

def updateSR16 (s : Registers) (value : BitVec 16) (carry overflow overS32 : Bool) : Registers :=
  let sr := s.sr &&& ~~~srCmpMask
  let sr := setFlag sr srCarry carry
  let sr := setFlag (setFlag sr srOverflow overflow) srOverflowSticky overflow
  let sr := setFlag sr srArithZero (value == 0#16)
  let sr := setFlag sr srSign (value.slt 0#16)
  let sr := setFlag sr srOverS32 overS32
  let sr := setFlag sr srTop2Bits (value >>> 14 == 0#16 || value >>> 14 == 3#16)
  { s with sr }

def updateSR64 (s : Registers) (value : BitVec 64) (carry overflow : Bool) : Checked :=
  let sr := s.sr &&& ~~~srCmpMask
  let sr := setFlag sr srCarry carry
  let sr := setFlag (setFlag sr srOverflow overflow) srOverflowSticky overflow
  let sr := setFlag sr srArithZero (value == 0#64)
  let sr := setFlag sr srSign (value.slt 0#64)
  let sr := setFlag sr srOverS32 (isOverS32 value)
  let sr := setFlag sr srTop2Bits
    (value &&& 0xc0000000#64 == 0#64 || value &&& 0xc0000000#64 == 0xc0000000#64)
  ⟨{ s with sr }, isProperlySignExtended value⟩

def updateSR64Add (s : Registers) (val1 val2 result : BitVec 64) : Checked :=
  let asserted := (val1 + val2) &&& 0xffffffffff#64 == result &&& 0xffffffffff#64 &&
    isProperlySignExtended val1 && isProperlySignExtended val2
  let r := s.updateSR64 result (isCarryAdd val1 result) (isOverflow val1 val2 result)
  ⟨r.regs, asserted && r.asserted⟩

def updateSR64Sub (s : Registers) (val1 val2 result : BitVec 64) : Checked :=
  let asserted := (val1 - val2) &&& 0xffffffffff#64 == result &&& 0xffffffffff#64 &&
    isProperlySignExtended val1 && isProperlySignExtended val2
  let r := s.updateSR64 result (isCarrySubtract val1 result) (isOverflow val1 (-val2) result)
  ⟨r.regs, asserted && r.asserted⟩

def getAccMid (s : Registers) (reg : Fin 2) : BitVec 16 := (s.ac reg).mid

def setAccMid (s : Registers) (reg : Fin 2) (m : BitVec 16) : Registers :=
  { s with ac := Function.update s.ac reg ((s.ac reg).setMid m) }

def getAXHigh (s : Registers) (reg : Fin 2) : BitVec 16 := (s.ax reg).h

def getAXLow (s : Registers) (reg : Fin 2) : BitVec 16 := (s.ax reg).l

/-! ### The instructions

The operands of an instruction are read from its opcode and, where it has a second word, from the
word that `FetchInstruction` returns. -/

theorem neZero_regs : NeZero 2 := ⟨by decide⟩

attribute [local instance] neZero_regs

/-- The one-bit register number at bit `n` of the opcode. -/
def regField (opc : BitVec 16) (n : Nat) : Fin 2 := if opc.getLsbD n then 1 else 0

def moveAcc (s : Registers) (reg : Fin 2) (value : BitVec 64) : Checked :=
  (s.setLongAcc reg value).updateSR64 value false false

def writeAcc (s : Registers) (reg : Fin 2) (value : BitVec 64) : Checked :=
  let s := s.setLongAcc reg value
  s.updateSR64 (s.getLongAcc reg) false false

def addAcc (s : Registers) (reg : Fin 2) (val1 val2 : BitVec 64) : Checked :=
  let s := s.setLongAcc reg (val1 + val2)
  s.updateSR64Add val1 val2 (s.getLongAcc reg)

def subAcc (s : Registers) (reg : Fin 2) (val1 val2 : BitVec 64) : Checked :=
  let s := s.setLongAcc reg (val1 - val2)
  s.updateSR64Sub val1 val2 (s.getLongAcc reg)

def cmpAcc (s : Registers) (val1 val2 : BitVec 64) : Checked :=
  s.updateSR64Sub val1 val2 (convertLongAcc (val1 - val2))

def logicAcc (s : Registers) (reg : Fin 2) (accm : BitVec 16) : Checked :=
  let s := s.setAccMid reg accm
  ⟨s.updateSR16 accm false false (isOverS32 (s.getLongAcc reg)), true⟩

def atMid (x : BitVec 16) : BitVec 64 := x.signExtend 64 <<< 16

def shortImm (opc : BitVec 16) : BitVec 64 := (opc.setWidth 8).signExtend 64 <<< 16

/-- The register `$axS.R` that ADDR, SUBR and MOVR name. -/
def getAX (s : Registers) (opc : BitVec 16) : BitVec 16 :=
  if opc.getLsbD 10 then s.getAXHigh (regField opc 9) else s.getAXLow (regField opc 9)

def clr (s : Registers) (opc : BitVec 16) : Checked := s.moveAcc (regField opc 11) 0#64

def clrl (s : Registers) (opc : BitVec 16) : Checked :=
  let reg := regField opc 8
  s.moveAcc reg (roundLongAcc (s.getLongAcc reg))

def tst (s : Registers) (opc : BitVec 16) : Checked :=
  s.updateSR64 (s.getLongAcc (regField opc 11)) false false

def tstaxh (s : Registers) (opc : BitVec 16) : Checked :=
  ⟨s.updateSR16 (s.getAXHigh (regField opc 8)) false false false, true⟩

def cmp (s : Registers) : Checked := s.cmpAcc (s.getLongAcc 0) (s.getLongAcc 1)

def cmpaxh (s : Registers) (opc : BitVec 16) : Checked :=
  s.cmpAcc (s.getLongAcc (regField opc 11)) (atMid (s.getAXHigh (regField opc 12)))

def cmpi (s : Registers) (opc imm : BitVec 16) : Checked :=
  s.cmpAcc (s.getLongAcc (regField opc 8)) (atMid imm)

def cmpis (s : Registers) (opc : BitVec 16) : Checked :=
  s.cmpAcc (s.getLongAcc (regField opc 8)) (shortImm opc)

def xorr (s : Registers) (opc : BitVec 16) : Checked :=
  let dreg := regField opc 8
  s.logicAcc dreg (s.getAccMid dreg ^^^ s.getAXHigh (regField opc 9))

def andr (s : Registers) (opc : BitVec 16) : Checked :=
  let dreg := regField opc 8
  s.logicAcc dreg (s.getAccMid dreg &&& s.getAXHigh (regField opc 9))

def orr (s : Registers) (opc : BitVec 16) : Checked :=
  let dreg := regField opc 8
  s.logicAcc dreg (s.getAccMid dreg ||| s.getAXHigh (regField opc 9))

def andc (s : Registers) (opc : BitVec 16) : Checked :=
  let dreg := regField opc 8
  s.logicAcc dreg (s.getAccMid dreg &&& s.getAccMid (1 - dreg))

def orc (s : Registers) (opc : BitVec 16) : Checked :=
  let dreg := regField opc 8
  s.logicAcc dreg (s.getAccMid dreg ||| s.getAccMid (1 - dreg))

def xorc (s : Registers) (opc : BitVec 16) : Checked :=
  let dreg := regField opc 8
  s.logicAcc dreg (s.getAccMid dreg ^^^ s.getAccMid (1 - dreg))

def notc (s : Registers) (opc : BitVec 16) : Checked :=
  let dreg := regField opc 8
  s.logicAcc dreg (s.getAccMid dreg ^^^ 0xffff#16)

def xori (s : Registers) (opc imm : BitVec 16) : Checked :=
  let reg := regField opc 8
  s.logicAcc reg (s.getAccMid reg ^^^ imm)

def andi (s : Registers) (opc imm : BitVec 16) : Checked :=
  let reg := regField opc 8
  s.logicAcc reg (s.getAccMid reg &&& imm)

def ori (s : Registers) (opc imm : BitVec 16) : Checked :=
  let reg := regField opc 8
  s.logicAcc reg (s.getAccMid reg ||| imm)

def addr (s : Registers) (opc : BitVec 16) : Checked :=
  let dreg := regField opc 8
  s.addAcc dreg (s.getLongAcc dreg) (atMid (s.getAX opc))

def addax (s : Registers) (opc : BitVec 16) : Checked :=
  let dreg := regField opc 8
  s.addAcc dreg (s.getLongAcc dreg) (s.getLongACX (regField opc 9))

def add (s : Registers) (opc : BitVec 16) : Checked :=
  let dreg := regField opc 8
  s.addAcc dreg (s.getLongAcc dreg) (s.getLongAcc (1 - dreg))

def addp (s : Registers) (opc : BitVec 16) : Checked :=
  let dreg := regField opc 8
  s.addAcc dreg (s.getLongAcc dreg) s.getLongProduct

def addaxl (s : Registers) (opc : BitVec 16) : Checked :=
  let dreg := regField opc 8
  s.addAcc dreg (s.getLongAcc dreg) ((s.getAXLow (regField opc 9)).setWidth 64)

def addi (s : Registers) (opc imm : BitVec 16) : Checked :=
  let areg := regField opc 8
  s.addAcc areg (s.getLongAcc areg) (atMid imm)

def addis (s : Registers) (opc : BitVec 16) : Checked :=
  let dreg := regField opc 8
  s.addAcc dreg (s.getLongAcc dreg) (shortImm opc)

def incm (s : Registers) (opc : BitVec 16) : Checked :=
  let dreg := regField opc 8
  s.addAcc dreg (s.getLongAcc dreg) 0x10000#64

def inc (s : Registers) (opc : BitVec 16) : Checked :=
  let dreg := regField opc 8
  s.addAcc dreg (s.getLongAcc dreg) 1#64

def subr (s : Registers) (opc : BitVec 16) : Checked :=
  let dreg := regField opc 8
  s.subAcc dreg (s.getLongAcc dreg) (atMid (s.getAX opc))

def subax (s : Registers) (opc : BitVec 16) : Checked :=
  let dreg := regField opc 8
  s.subAcc dreg (s.getLongAcc dreg) (s.getLongACX (regField opc 9))

def sub (s : Registers) (opc : BitVec 16) : Checked :=
  let dreg := regField opc 8
  s.subAcc dreg (s.getLongAcc dreg) (s.getLongAcc (1 - dreg))

def subp (s : Registers) (opc : BitVec 16) : Checked :=
  let dreg := regField opc 8
  s.subAcc dreg (s.getLongAcc dreg) s.getLongProduct

def decm (s : Registers) (opc : BitVec 16) : Checked :=
  let dreg := regField opc 8
  s.subAcc dreg (s.getLongAcc dreg) 0x10000#64

def dec (s : Registers) (opc : BitVec 16) : Checked :=
  let dreg := regField opc 8
  s.subAcc dreg (s.getLongAcc dreg) 1#64

def neg (s : Registers) (opc : BitVec 16) : Checked :=
  let dreg := regField opc 8
  s.subAcc dreg 0#64 (s.getLongAcc dreg)

def abs (s : Registers) (opc : BitVec 16) : Checked :=
  let dreg := regField opc 11
  let acc := s.getLongAcc dreg
  s.writeAcc dreg (if acc.slt 0#64 then 0#64 - acc else acc)

def movr (s : Registers) (opc : BitVec 16) : Checked :=
  s.moveAcc (regField opc 8) (atMid (s.getAX opc))

def movax (s : Registers) (opc : BitVec 16) : Checked :=
  s.moveAcc (regField opc 8) (s.getLongACX (regField opc 9))

def mov (s : Registers) (opc : BitVec 16) : Checked :=
  let dreg := regField opc 8
  s.moveAcc dreg (s.getLongAcc (1 - dreg))

def lopped (acc : BitVec 64) : BitVec 64 := acc &&& 0x000000ffffffffff#64

def lsl16 (s : Registers) (opc : BitVec 16) : Checked :=
  let areg := regField opc 8
  s.writeAcc areg (s.getLongAcc areg <<< 16)

def lsr16 (s : Registers) (opc : BitVec 16) : Checked :=
  let areg := regField opc 8
  s.writeAcc areg (lopped (s.getLongAcc areg) >>> 16)

def asr16 (s : Registers) (opc : BitVec 16) : Checked :=
  let areg := regField opc 11
  s.writeAcc areg ((s.getLongAcc areg).sshiftRight 16)

def leftShift (opc : BitVec 16) : Nat := (opc &&& 0x3f#16).toNat

def rightShift (opc : BitVec 16) : Nat :=
  if opc &&& 0x3f#16 = 0#16 then 0 else 0x40 - (opc &&& 0x3f#16).toNat

/-- The lower seven bits of a register, signed, as the shifts by a register take them. -/
def shiftBy (x : BitVec 16) : Int :=
  if x &&& 0x3f#16 = 0#16 then 0
  else if x &&& 0x40#16 ≠ 0#16 then -0x40 + (x &&& 0x3f#16).toNat
  else (x &&& 0x3f#16).toNat

def lsl (s : Registers) (opc : BitVec 16) : Checked :=
  let rreg := regField opc 8
  s.writeAcc rreg (s.getLongAcc rreg <<< leftShift opc)

def lsr (s : Registers) (opc : BitVec 16) : Checked :=
  let rreg := regField opc 8
  s.writeAcc rreg (lopped (s.getLongAcc rreg) >>> rightShift opc)

def asl (s : Registers) (opc : BitVec 16) : Checked :=
  let rreg := regField opc 8
  s.writeAcc rreg (s.getLongAcc rreg <<< leftShift opc)

def asr (s : Registers) (opc : BitVec 16) : Checked :=
  let dreg := regField opc 8
  s.writeAcc dreg ((s.getLongAcc dreg).sshiftRight (rightShift opc))

/-- To the left where the number is positive, logically to the right where it is negative. -/
def logicalShift (acc : BitVec 64) (shift : Int) : BitVec 64 :=
  if shift > 0 then acc <<< shift.toNat
  else if shift < 0 then acc >>> (-shift).toNat
  else acc

/-- To the left where the number is positive, arithmetically to the right where it is
    negative. -/
def arithmeticShift (acc : BitVec 64) (shift : Int) : BitVec 64 :=
  if shift > 0 then acc <<< shift.toNat
  else if shift < 0 then acc.sshiftRight (-shift).toNat
  else acc

-- LSRN and ASRN shift to the right by a positive number, the others to the left

def lsrn (s : Registers) : Checked :=
  s.writeAcc 0 (logicalShift (lopped (s.getLongAcc 0)) (-shiftBy (s.getAccMid 1)))

def asrn (s : Registers) : Checked :=
  s.writeAcc 0 (arithmeticShift (s.getLongAcc 0) (-shiftBy (s.getAccMid 1)))

def lsrnrx (s : Registers) (opc : BitVec 16) : Checked :=
  let dreg := regField opc 8
  let shift := shiftBy (s.getAXHigh (regField opc 9))
  s.writeAcc dreg (logicalShift (lopped (s.getLongAcc dreg)) shift)

def asrnrx (s : Registers) (opc : BitVec 16) : Checked :=
  let dreg := regField opc 8
  let shift := shiftBy (s.getAXHigh (regField opc 9))
  s.writeAcc dreg (arithmeticShift (s.getLongAcc dreg) shift)

def lsrnr (s : Registers) (opc : BitVec 16) : Checked :=
  let dreg := regField opc 8
  let shift := shiftBy (s.getAccMid (1 - dreg))
  s.writeAcc dreg (logicalShift (lopped (s.getLongAcc dreg)) shift)

def asrnr (s : Registers) (opc : BitVec 16) : Checked :=
  let dreg := regField opc 8
  let shift := shiftBy (s.getAccMid (1 - dreg))
  s.writeAcc dreg (arithmeticShift (s.getLongAcc dreg) shift)

def tstprod (s : Registers) : Checked := s.updateSR64 s.getLongProduct false false

def movp (s : Registers) (opc : BitVec 16) : Checked :=
  s.moveAcc (regField opc 8) s.getLongProduct

def movnp (s : Registers) (opc : BitVec 16) : Checked :=
  s.moveAcc (regField opc 8) (-s.getLongProduct)

def movpz (s : Registers) (opc : BitVec 16) : Checked :=
  s.moveAcc (regField opc 8) s.getLongProductRounded

end Registers

inductive Instr where
  | clr | clrl | tst | tstaxh | cmp | cmpaxh | cmpi | cmpis
  | xorr | andr | orr | andc | orc | xorc | notc | xori | andi | ori
  | addr | addax | add | addp | addaxl | addi | addis | incm | inc
  | subr | subax | sub | subp | decm | dec | neg | abs
  | movr | movax | mov
  | lsl16 | lsr16 | asr16 | lsl | lsr | asl | asr
  | lsrn | asrn | lsrnrx | asrnrx | lsrnr | asrnr
  | tstprod | movp | movnp | movpz
  deriving DecidableEq, Repr

def Instr.run (i : Instr) (opc imm : BitVec 16) (s : Registers) : Checked :=
  match i with
  | .clr => s.clr opc
  | .clrl => s.clrl opc
  | .tst => s.tst opc
  | .tstaxh => s.tstaxh opc
  | .cmp => s.cmp
  | .cmpaxh => s.cmpaxh opc
  | .cmpi => s.cmpi opc imm
  | .cmpis => s.cmpis opc
  | .xorr => s.xorr opc
  | .andr => s.andr opc
  | .orr => s.orr opc
  | .andc => s.andc opc
  | .orc => s.orc opc
  | .xorc => s.xorc opc
  | .notc => s.notc opc
  | .xori => s.xori opc imm
  | .andi => s.andi opc imm
  | .ori => s.ori opc imm
  | .addr => s.addr opc
  | .addax => s.addax opc
  | .add => s.add opc
  | .addp => s.addp opc
  | .addaxl => s.addaxl opc
  | .addi => s.addi opc imm
  | .addis => s.addis opc
  | .incm => s.incm opc
  | .inc => s.inc opc
  | .subr => s.subr opc
  | .subax => s.subax opc
  | .sub => s.sub opc
  | .subp => s.subp opc
  | .decm => s.decm opc
  | .dec => s.dec opc
  | .neg => s.neg opc
  | .abs => s.abs opc
  | .movr => s.movr opc
  | .movax => s.movax opc
  | .mov => s.mov opc
  | .lsl16 => s.lsl16 opc
  | .lsr16 => s.lsr16 opc
  | .asr16 => s.asr16 opc
  | .lsl => s.lsl opc
  | .lsr => s.lsr opc
  | .asl => s.asl opc
  | .asr => s.asr opc
  | .lsrn => s.lsrn
  | .asrn => s.asrn
  | .lsrnrx => s.lsrnrx opc
  | .asrnrx => s.asrnrx opc
  | .lsrnr => s.lsrnr opc
  | .asrnr => s.asrnr opc
  | .tstprod => s.tstprod
  | .movp => s.movp opc
  | .movnp => s.movnp opc
  | .movpz => s.movpz opc

end DolphinXR.DSP
