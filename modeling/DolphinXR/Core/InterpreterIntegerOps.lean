import DolphinXR.Core.InterpreterInteger

/- The other integer instructions of the interpreter (Core/PowerPC/Interpreter/Interpreter_Integer.cpp):
   the immediates, the comparisons, the logical instructions, rotations and shifts, multiplication
   and division. The signed multiplication of `mulli` is taken to wrap. The traps, which are of
   another type, are left out. -/
namespace DolphinXR.PowerPC

namespace UGeckoInstruction
variable (inst : UGeckoInstruction)

def uimm : BitVec 16 := inst.extractLsb' 0 16
def sh : Nat := (inst.extractLsb' 11 5).toNat
def mb : Nat := (inst.extractLsb' 6 5).toNat
def me : Nat := (inst.extractLsb' 1 5).toNat

end UGeckoInstruction

open PowerPCState UGeckoInstruction

def makeRotationMask (mb me : Nat) : BitVec 32 :=
  -- first make 001111111111111 part
  let first := 0xFFFFFFFF#32 >>> mb
  -- then make 000000000001111 part, which is used to flip the bits of the first one
  let last := 0x7FFFFFFF#32 >>> me
  let mask := first ^^^ last
  if me < mb then ~~~mask else mask

namespace Interpreter

def addi (s : PowerPCState) (inst : UGeckoInstruction) : PowerPCState :=
  if inst.ra ≠ 0 then writeGpr s inst.rd (s.gpr inst.ra + inst.simm16.signExtend 32)
  else writeGpr s inst.rd (inst.simm16.signExtend 32)

def addis (s : PowerPCState) (inst : UGeckoInstruction) : PowerPCState :=
  if inst.ra ≠ 0 then writeGpr s inst.rd (s.gpr inst.ra + inst.simm16.signExtend 32 <<< 16)
  else writeGpr s inst.rd (inst.simm16.signExtend 32 <<< 16)

def addicRc (s : PowerPCState) (inst : UGeckoInstruction) : PowerPCState :=
  let s := addic s inst
  helperUpdateCR0 s (s.gpr inst.rd)

def mulli (s : PowerPCState) (inst : UGeckoInstruction) : PowerPCState :=
  writeGpr s inst.rd (s.gpr inst.ra * inst.simm16.signExtend 32)

/-- `UIMM` in the lower and in the upper half. -/
def uimmLow (inst : UGeckoInstruction) : BitVec 32 := inst.uimm.setWidth 32
def uimmHigh (inst : UGeckoInstruction) : BitVec 32 := inst.uimm.setWidth 32 <<< 16

def andiRc (s : PowerPCState) (inst : UGeckoInstruction) : PowerPCState :=
  let s := writeGpr s inst.ra (s.gpr inst.rs &&& uimmLow inst)
  helperUpdateCR0 s (s.gpr inst.ra)

def andisRc (s : PowerPCState) (inst : UGeckoInstruction) : PowerPCState :=
  let s := writeGpr s inst.ra (s.gpr inst.rs &&& uimmHigh inst)
  helperUpdateCR0 s (s.gpr inst.ra)

def ori (s : PowerPCState) (inst : UGeckoInstruction) : PowerPCState :=
  writeGpr s inst.ra (s.gpr inst.rs ||| uimmLow inst)

def oris (s : PowerPCState) (inst : UGeckoInstruction) : PowerPCState :=
  writeGpr s inst.ra (s.gpr inst.rs ||| uimmHigh inst)

def xori (s : PowerPCState) (inst : UGeckoInstruction) : PowerPCState :=
  writeGpr s inst.ra (s.gpr inst.rs ^^^ uimmLow inst)

def xoris (s : PowerPCState) (inst : UGeckoInstruction) : PowerPCState :=
  writeGpr s inst.ra (s.gpr inst.rs ^^^ uimmHigh inst)

def cmpi (s : PowerPCState) (inst : UGeckoInstruction) : PowerPCState :=
  helperIntCompare s inst.crfd (s.gpr inst.ra).toInt inst.simm16.toInt

def cmpli (s : PowerPCState) (inst : UGeckoInstruction) : PowerPCState :=
  helperIntCompare s inst.crfd (s.gpr inst.ra).toNat inst.uimm.toNat

def cmp (s : PowerPCState) (inst : UGeckoInstruction) : PowerPCState :=
  helperIntCompare s inst.crfd (s.gpr inst.ra).toInt (s.gpr inst.rb).toInt

def cmpl (s : PowerPCState) (inst : UGeckoInstruction) : PowerPCState :=
  helperIntCompare s inst.crfd (s.gpr inst.ra).toNat (s.gpr inst.rb).toNat

/-! ### Logical instructions, rotations and shifts -/

/-- `gpr[RA] = result`, and with Rc the first field of CR. -/
def writeRa (s : PowerPCState) (inst : UGeckoInstruction) (result : BitVec 32) : PowerPCState :=
  let s := writeGpr s inst.ra result
  if inst.rc then helperUpdateCR0 s (s.gpr inst.ra) else s

section
variable (s : PowerPCState) (inst : UGeckoInstruction)

def andx : PowerPCState := writeRa s inst (s.gpr inst.rs &&& s.gpr inst.rb)
def andcx : PowerPCState := writeRa s inst (s.gpr inst.rs &&& ~~~s.gpr inst.rb)
def orx : PowerPCState := writeRa s inst (s.gpr inst.rs ||| s.gpr inst.rb)
def norx : PowerPCState := writeRa s inst (~~~(s.gpr inst.rs ||| s.gpr inst.rb))
def xorx : PowerPCState := writeRa s inst (s.gpr inst.rs ^^^ s.gpr inst.rb)
def orcx : PowerPCState := writeRa s inst (s.gpr inst.rs ||| ~~~s.gpr inst.rb)
def nandx : PowerPCState := writeRa s inst (~~~(s.gpr inst.rs &&& s.gpr inst.rb))
def eqvx : PowerPCState := writeRa s inst (~~~(s.gpr inst.rs ^^^ s.gpr inst.rb))
def cntlzwx : PowerPCState := writeRa s inst (s.gpr inst.rs).clz
def extsbx : PowerPCState := writeRa s inst (((s.gpr inst.rs).setWidth 8).signExtend 32)
def extshx : PowerPCState := writeRa s inst (((s.gpr inst.rs).setWidth 16).signExtend 32)

end

def rlwimix (s : PowerPCState) (inst : UGeckoInstruction) : PowerPCState :=
  let mask := makeRotationMask inst.mb inst.me
  writeRa s inst ((s.gpr inst.ra &&& ~~~mask) ||| ((s.gpr inst.rs).rotateLeft inst.sh &&& mask))

def rlwinmx (s : PowerPCState) (inst : UGeckoInstruction) : PowerPCState :=
  let mask := makeRotationMask inst.mb inst.me
  writeRa s inst ((s.gpr inst.rs).rotateLeft inst.sh &&& mask)

def rlwnmx (s : PowerPCState) (inst : UGeckoInstruction) : PowerPCState :=
  let mask := makeRotationMask inst.mb inst.me
  writeRa s inst ((s.gpr inst.rs).rotateLeft (s.gpr inst.rb &&& 0x1F).toNat &&& mask)

def slwx (s : PowerPCState) (inst : UGeckoInstruction) : PowerPCState :=
  let amount := s.gpr inst.rb
  writeRa s inst (if amount &&& 0x20 != 0 then 0 else s.gpr inst.rs <<< (amount &&& 0x1F))

def srwx (s : PowerPCState) (inst : UGeckoInstruction) : PowerPCState :=
  let amount := s.gpr inst.rb
  writeRa s inst (if amount &&& 0x20 != 0 then 0 else s.gpr inst.rs >>> (amount &&& 0x1F))

def losesBits (rrs : BitVec 32) (amount : Nat) : Bool :=
  rrs.msb && 0 < amount && rrs <<< (32 - amount) != 0

def srawx (s : PowerPCState) (inst : UGeckoInstruction) : PowerPCState :=
  let rb := s.gpr inst.rb
  let s :=
    if rb &&& 0x20 != 0 then
      if s.gpr inst.rs &&& 0x80000000 != 0 then
        (writeGpr s inst.ra 0xFFFFFFFF).setCarry true
      else
        (writeGpr s inst.ra 0).setCarry false
    else
      let amount := (rb &&& 0x1F).toNat
      let rrs := s.gpr inst.rs
      (writeGpr s inst.ra (rrs.sshiftRight amount)).setCarry (losesBits rrs amount)
  if inst.rc then helperUpdateCR0 s (s.gpr inst.ra) else s

def srawix (s : PowerPCState) (inst : UGeckoInstruction) : PowerPCState :=
  let amount := inst.sh
  let rrs := s.gpr inst.rs
  let s := (writeGpr s inst.ra (rrs.sshiftRight amount)).setCarry (losesBits rrs amount)
  if inst.rc then helperUpdateCR0 s (s.gpr inst.ra) else s

/-- `gpr[RD] = result`, with OE the overflow bit and with Rc the first field of CR. -/
def writeRd (s : PowerPCState) (inst : UGeckoInstruction) (result : BitVec 32) (overflow : Bool) :
    PowerPCState :=
  let s := writeGpr s inst.rd result
  let s := if inst.oe then s.setXerOv overflow else s
  if inst.rc then helperUpdateCR0 s (s.gpr inst.rd) else s

def divwx (s : PowerPCState) (inst : UGeckoInstruction) : PowerPCState :=
  let a := s.gpr inst.ra
  let b := s.gpr inst.rb
  let overflow := b == 0 || (a == 0x80000000#32 && b == 0xFFFFFFFF#32)
  writeRd s inst (if overflow then if a.msb then 0xFFFFFFFF else 0 else a.sdiv b) overflow

def divwux (s : PowerPCState) (inst : UGeckoInstruction) : PowerPCState :=
  let a := s.gpr inst.ra
  let b := s.gpr inst.rb
  let overflow := b == 0
  writeRd s inst (if overflow then 0 else a / b) overflow

def mullwx (s : PowerPCState) (inst : UGeckoInstruction) : PowerPCState :=
  let a := (s.gpr inst.ra).signExtend 64
  let b := (s.gpr inst.rb).signExtend 64
  let result := a * b
  writeRd s inst (result.setWidth 32)
    (result.toInt < -0x80000000 || 0x7FFFFFFF < result.toInt)

def negx (s : PowerPCState) (inst : UGeckoInstruction) : PowerPCState :=
  let a := s.gpr inst.ra
  writeRd s inst (~~~a + 1) (a == 0x80000000)

def mulhwx (s : PowerPCState) (inst : UGeckoInstruction) : PowerPCState :=
  let a := (s.gpr inst.ra).signExtend 64
  let b := (s.gpr inst.rb).signExtend 64
  let d := ((a * b).sshiftRight 32).setWidth 32
  let s := writeGpr s inst.rd d
  if inst.rc then helperUpdateCR0 s d else s

def mulhwux (s : PowerPCState) (inst : UGeckoInstruction) : PowerPCState :=
  let a := (s.gpr inst.ra).setWidth 64
  let b := (s.gpr inst.rb).setWidth 64
  let d := ((a * b) >>> 32).setWidth 32
  let s := writeGpr s inst.rd d
  if inst.rc then helperUpdateCR0 s d else s

/-! ### What the instructions with Rc end with -/

theorem writeRa_eq (s : PowerPCState) (inst : UGeckoInstruction) (result : BitVec 32) :
    writeRa s inst result =
      let s := writeGpr s inst.ra result
      if inst.rc then helperUpdateCR0 s result else s := by
  rw [writeRa, writeGpr_gpr]

theorem setXerOv_gpr (s : PowerPCState) (value : Bool) : (s.setXerOv value).gpr = s.gpr := rfl

theorem writeRd_eq (s : PowerPCState) (inst : UGeckoInstruction) (result : BitVec 32)
    (overflow : Bool) :
    writeRd s inst result overflow =
      let s := writeGpr s inst.rd result
      let s := if inst.oe then s.setXerOv overflow else s
      if inst.rc then helperUpdateCR0 s result else s := by
  have hgpr : (if inst.oe then (writeGpr s inst.rd result).setXerOv overflow
      else writeGpr s inst.rd result).gpr inst.rd = result := by
    split
    · rw [setXerOv_gpr, writeGpr_gpr]
    · exact writeGpr_gpr s inst.rd result
  rw [writeRd, hgpr]

theorem srawx_eq (s : PowerPCState) (inst : UGeckoInstruction) :
    srawx s inst =
      let rb := s.gpr inst.rb
      let rrs := s.gpr inst.rs
      let far := rb &&& 0x20 != 0
      let amount := (rb &&& 0x1F).toNat
      let result := if far then if rrs &&& 0x80000000 != 0 then 0xFFFFFFFF else 0
        else rrs.sshiftRight amount
      let carry := if far then rrs &&& 0x80000000 != 0 else losesBits rrs amount
      let s := (writeGpr s inst.ra result).setCarry carry
      if inst.rc then helperUpdateCR0 s result else s := by
  by_cases hfar : (s.gpr inst.rb &&& 0x20 != 0) = true
  · by_cases hneg : (s.gpr inst.rs &&& 0x80000000 != 0) = true
    · simp only [srawx, hfar, hneg, if_true, setCarry_gpr, writeGpr_gpr]
    · simp only [srawx, hfar, Bool.of_not_eq_true hneg, if_true, Bool.false_eq_true, if_false,
        setCarry_gpr, writeGpr_gpr]
  · simp only [srawx, Bool.of_not_eq_true hfar, Bool.false_eq_true, if_false, setCarry_gpr,
      writeGpr_gpr]

theorem srawix_eq (s : PowerPCState) (inst : UGeckoInstruction) :
    srawix s inst =
      let result := (s.gpr inst.rs).sshiftRight inst.sh
      let s := (writeGpr s inst.ra result).setCarry (losesBits (s.gpr inst.rs) inst.sh)
      if inst.rc then helperUpdateCR0 s result else s := by
  rw [srawix, setCarry_gpr, writeGpr_gpr]

end Interpreter

end DolphinXR.PowerPC
