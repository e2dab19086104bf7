import DolphinXR.Core.PowerPCState
import DolphinXR.Lib.AddCarry

/- The integer instructions of the interpreter (Core/PowerPC/Interpreter/Interpreter_Integer.cpp)
   that add: what they write to their target register, to the carry and overflow bits of XER and,
   with Rc, to the first field of CR. The signed subtraction of `subfic` is taken to wrap. -/
namespace DolphinXR.PowerPC
open Lib PowerPCState UGeckoInstruction

attribute [local instance] neZero_gprs neZero_crFields

namespace Interpreter

def writeGpr (s : PowerPCState) (reg : Fin 32) (value : BitVec 32) : PowerPCState :=
  { s with gpr := Function.update s.gpr reg value }

def helperUpdateCR0 (s : PowerPCState) (value : BitVec 32) : PowerPCState :=
  let crVal : BitVec 64 := value.signExtend 64
  -- GT must stay unset when SO makes a zero value non-zero, which bit 63 sees to
  let crVal := if value = 0 then crVal ||| 1#64 <<< 63 else crVal
  let crVal := (crVal &&& ~~~(1#64 <<< crEmuSoBit)) ||| s.getXerSo.setWidth 64 <<< crEmuSoBit
  { s with cr := { fields := Function.update s.cr.fields 0 crVal } }

def helperCarry (value1 value2 : BitVec 32) : Bool := (~~~value1).ult value2

/-- `Helper_IntCompare`, of the numbers that the template's type makes of the operands. -/
def helperIntCompare {T : Type*} [LT T] [DecidableLT T] (s : PowerPCState) (crfd : Fin 8)
    (a b : T) : PowerPCState :=
  let crField : BitVec 4 := if a < b then crLt else if b < a then crGt else crEq
  let crField := if s.getXerSo != 0 then crField ||| crSo else crField
  { s with cr := s.cr.setField crfd crField }

def hasAddOverflowed (x y result : BitVec 32) : Bool :=
  ((x ^^^ result) &&& (y ^^^ result)) >>> 31 != 0

def finish (inst : UGeckoInstruction) (s : PowerPCState) (x y result : BitVec 32) : PowerPCState :=
  let s := if inst.oe then s.setXerOv (hasAddOverflowed x y result) else s
  if inst.rc then helperUpdateCR0 s result else s

def addic (s : PowerPCState) (inst : UGeckoInstruction) : PowerPCState :=
  let a := s.gpr inst.ra
  let imm := inst.simm16.signExtend 32
  (writeGpr s inst.rd (a + imm)).setCarry (helperCarry a imm)

def subfic (s : PowerPCState) (inst : UGeckoInstruction) : PowerPCState :=
  let a := s.gpr inst.ra
  let immediate := inst.simm16.signExtend 32
  (writeGpr s inst.rd (immediate - a)).setCarry (a == 0 || helperCarry (0 - a) immediate)

def addx (s : PowerPCState) (inst : UGeckoInstruction) : PowerPCState :=
  let a := s.gpr inst.ra
  let b := s.gpr inst.rb
  let result := a + b
  finish inst (writeGpr s inst.rd result) a b result

def addcx (s : PowerPCState) (inst : UGeckoInstruction) : PowerPCState :=
  let a := s.gpr inst.ra
  let b := s.gpr inst.rb
  let result := a + b
  finish inst ((writeGpr s inst.rd result).setCarry (helperCarry a b)) a b result

def addex (s : PowerPCState) (inst : UGeckoInstruction) : PowerPCState :=
  let carry := s.getCarry
  let a := s.gpr inst.ra
  let b := s.gpr inst.rb
  let result := a + b + carry
  finish inst ((writeGpr s inst.rd result).setCarry
    (helperCarry a b || carry != 0 && helperCarry (a + b) carry)) a b result

def addmex (s : PowerPCState) (inst : UGeckoInstruction) : PowerPCState :=
  let carry := s.getCarry
  let a := s.gpr inst.ra
  let b := 0xFFFFFFFF#32
  let result := a + b + carry
  finish inst ((writeGpr s inst.rd result).setCarry (helperCarry a (carry - 1))) a b result

def addzex (s : PowerPCState) (inst : UGeckoInstruction) : PowerPCState :=
  let carry := s.getCarry
  let a := s.gpr inst.ra
  let result := a + carry
  finish inst ((writeGpr s inst.rd result).setCarry (helperCarry a carry)) a 0 result

def subfx (s : PowerPCState) (inst : UGeckoInstruction) : PowerPCState :=
  let a := ~~~s.gpr inst.ra
  let b := s.gpr inst.rb
  let result := a + b + 1
  finish inst (writeGpr s inst.rd result) a b result

def subfcx (s : PowerPCState) (inst : UGeckoInstruction) : PowerPCState :=
  let a := ~~~s.gpr inst.ra
  let b := s.gpr inst.rb
  let result := a + b + 1
  finish inst ((writeGpr s inst.rd result).setCarry
    (a == 0xFFFFFFFF#32 || helperCarry b (a + 1))) a b result

def subfex (s : PowerPCState) (inst : UGeckoInstruction) : PowerPCState :=
  let a := ~~~s.gpr inst.ra
  let b := s.gpr inst.rb
  let carry := s.getCarry
  let result := a + b + carry
  finish inst ((writeGpr s inst.rd result).setCarry
    (helperCarry a b || helperCarry (a + b) carry)) a b result

def subfmex (s : PowerPCState) (inst : UGeckoInstruction) : PowerPCState :=
  let a := ~~~s.gpr inst.ra
  let b := 0xFFFFFFFF#32
  let carry := s.getCarry
  let result := a + b + carry
  finish inst ((writeGpr s inst.rd result).setCarry (helperCarry a (carry - 1))) a b result

def subfzex (s : PowerPCState) (inst : UGeckoInstruction) : PowerPCState :=
  let a := ~~~s.gpr inst.ra
  let carry := s.getCarry
  let result := a + carry
  finish inst ((writeGpr s inst.rd result).setCarry (helperCarry a carry)) a 0 result

/-! ### The instructions as sums -/

inductive AddOp where
  | addx | addcx | addex | addmex | addzex
  | subfx | subfcx | subfex | subfmex | subfzex
  | addic | subfic
  deriving DecidableEq

namespace AddOp

def exec : AddOp → PowerPCState → UGeckoInstruction → PowerPCState
  | addx => Interpreter.addx
  | addcx => Interpreter.addcx
  | addex => Interpreter.addex
  | addmex => Interpreter.addmex
  | addzex => Interpreter.addzex
  | subfx => Interpreter.subfx
  | subfcx => Interpreter.subfcx
  | subfex => Interpreter.subfex
  | subfmex => Interpreter.subfmex
  | subfzex => Interpreter.subfzex
  | addic => Interpreter.addic
  | subfic => Interpreter.subfic

/-- The first operand: RA, which the subtractions complement. -/
def left (op : AddOp) (s : PowerPCState) (inst : UGeckoInstruction) : BitVec 32 :=
  match op with
  | addx | addcx | addex | addmex | addzex | addic => s.gpr inst.ra
  | subfx | subfcx | subfex | subfmex | subfzex | subfic => ~~~s.gpr inst.ra

/-- The second operand: RB, minus one, zero or the immediate. -/
def right (op : AddOp) (s : PowerPCState) (inst : UGeckoInstruction) : BitVec 32 :=
  match op with
  | addx | addcx | addex | subfx | subfcx | subfex => s.gpr inst.rb
  | addmex | subfmex => 0xFFFFFFFF#32
  | addzex | subfzex => 0
  | addic | subfic => inst.simm16.signExtend 32

def carryIn (op : AddOp) (s : PowerPCState) : Bool :=
  match op with
  | addx | addcx | addic => false
  | subfx | subfcx | subfic => true
  | addex | addmex | addzex | subfex | subfmex | subfzex => s.ca

def SetsCarry (op : AddOp) : Prop := op ≠ addx ∧ op ≠ subfx

def HasOe (op : AddOp) : Prop := op ≠ addic ∧ op ≠ subfic

def sum (op : AddOp) (s : PowerPCState) (inst : UGeckoInstruction) : Nat :=
  exactSum (op.left s inst) (op.right s inst) (op.carryIn s)

def signedSum (op : AddOp) (s : PowerPCState) (inst : UGeckoInstruction) : Int :=
  exactSignedSum (op.left s inst) (op.right s inst) (op.carryIn s)

end AddOp

/-- The instruction computes the exact sum: its low word, its carry and its overflow. -/
structure Exact (op : AddOp) (s : PowerPCState) (inst : UGeckoInstruction) : Prop where
  target : (op.exec s inst).gpr inst.rd = BitVec.ofNat 32 (op.sum s inst)
  carry : op.SetsCarry → (op.exec s inst).getCarry = flag 32 ((op.sum s inst).testBit 32)
  overflow : op.HasOe → inst.oe = true →
    ((op.exec s inst).getXerOv = 1 ↔ SignedOverflow 32 (op.signedSum s inst))

/-! ### What the parts of an instruction write -/

@[simp] theorem helperUpdateCR0_gpr (s : PowerPCState) (value : BitVec 32) :
    (helperUpdateCR0 s value).gpr = s.gpr := rfl

@[simp] theorem helperUpdateCR0_getCarry (s : PowerPCState) (value : BitVec 32) :
    (helperUpdateCR0 s value).getCarry = s.getCarry := rfl

@[simp] theorem helperUpdateCR0_getXerOv (s : PowerPCState) (value : BitVec 32) :
    (helperUpdateCR0 s value).getXerOv = s.getXerOv := rfl

@[simp] theorem writeGpr_gpr (s : PowerPCState) (reg : Fin 32) (value : BitVec 32) :
    (writeGpr s reg value).gpr reg = value := by simp [writeGpr]

@[simp] theorem setCarry_gpr (s : PowerPCState) (ca : Bool) : (s.setCarry ca).gpr = s.gpr := rfl

@[simp] theorem setCarry_getCarry (s : PowerPCState) (ca : Bool) :
    (s.setCarry ca).getCarry = flag 32 ca := by cases ca <;> rfl

@[simp] theorem finish_gpr (inst : UGeckoInstruction) (s : PowerPCState) (x y r : BitVec 32) :
    (finish inst s x y r).gpr = s.gpr := by
  unfold finish
  split <;> split <;> rfl

@[simp] theorem finish_getCarry (inst : UGeckoInstruction) (s : PowerPCState)
    (x y r : BitVec 32) : (finish inst s x y r).getCarry = s.getCarry := by
  unfold finish
  split <;> split <;> rfl

theorem getXerOv_setXerOv (s : PowerPCState) (value : Bool) :
    (s.setXerOv value).getXerOv = flag 32 value := by
  have hbyte : ∀ (x : BitVec 8) (value : Bool),
      ((((x &&& 0xFE) ||| flag 8 value) ||| flag 8 value <<< 1) &&& 1).setWidth 32 =
        flag 32 value := by decide
  exact hbyte s.xerSoOv value

theorem finish_getXerOv {inst : UGeckoInstruction} (hoe : inst.oe = true) (s : PowerPCState)
    (x y r : BitVec 32) :
    (finish inst s x y r).getXerOv = flag 32 (hasAddOverflowed x y r) := by
  rw [finish, if_pos hoe]
  split
  · exact getXerOv_setXerOv _ _
  · exact getXerOv_setXerOv _ _

theorem flag_eq_one (b : Bool) : flag 32 b = 1 ↔ b = true := by
  cases b <;> decide

theorem hasAddOverflowed_eq (x y r : BitVec 32) :
    hasAddOverflowed x y r = ((x ^^^ r) &&& (y ^^^ r)).msb := by
  rw [hasAddOverflowed]
  generalize (x ^^^ r) &&& (y ^^^ r) = z
  have hz := z.isLt
  rw [BitVec.msb_eq_decide, Bool.eq_iff_iff, bne_iff_ne, decide_eq_true_eq, ne_eq,
    ← BitVec.toNat_inj, BitVec.toNat_ushiftRight, Nat.shiftRight_eq_div_pow]
  show ¬ z.toNat / 2 ^ 31 = 0 ↔ 2 ^ 31 ≤ z.toNat
  omega

/-! ### The sums as words -/

theorem toNat_flag (c : Bool) : (flag 32 c).toNat = c.toNat := by
  cases c <;> rfl

theorem ofNat_exactSum (x y : BitVec 32) (c : Bool) :
    BitVec.ofNat 32 (exactSum x y c) = x + y + flag 32 c := by
  apply BitVec.eq_of_toNat_eq
  rw [BitVec.toNat_ofNat, BitVec.toNat_add, BitVec.toNat_add, toNat_flag, exactSum]
  omega

theorem getCarry_eq (s : PowerPCState) : s.getCarry = flag 32 s.ca := by
  have hbyte : ∀ x : BitVec 8, x.toNat < 2 → x.setWidth 32 = flag 32 (x.getLsbD 0) := by decide
  exact hbyte s.xerCa s.ca_lt

theorem sub_eq_not_add (x y : BitVec 32) : y - x = ~~~x + y + flag 32 true := by
  have hone : flag 32 true = 1#32 := rfl
  rw [hone, BitVec.sub_eq_add_neg, BitVec.neg_eq_not_add, BitVec.add_comm (~~~x) y,
    BitVec.add_assoc]

theorem exec_target (op : AddOp) (s : PowerPCState) (inst : UGeckoInstruction) :
    (op.exec s inst).gpr inst.rd = BitVec.ofNat 32 (op.sum s inst) := by
  have hzero : flag 32 false = 0#32 := rfl
  rw [AddOp.sum, ofNat_exactSum]
  cases op with
  | addx => simp [AddOp.exec, addx, AddOp.left, AddOp.right, AddOp.carryIn, hzero]
  | addcx => simp [AddOp.exec, addcx, AddOp.left, AddOp.right, AddOp.carryIn, hzero]
  | addic => simp [AddOp.exec, addic, AddOp.left, AddOp.right, AddOp.carryIn, hzero]
  | addex => simp [AddOp.exec, addex, AddOp.left, AddOp.right, AddOp.carryIn, getCarry_eq]
  | addmex => simp [AddOp.exec, addmex, AddOp.left, AddOp.right, AddOp.carryIn, getCarry_eq]
  | addzex => simp [AddOp.exec, addzex, AddOp.left, AddOp.right, AddOp.carryIn, getCarry_eq]
  | subfx =>
    simp only [AddOp.exec, subfx, finish_gpr, writeGpr_gpr]
    rfl
  | subfcx =>
    simp only [AddOp.exec, subfcx, finish_gpr, setCarry_gpr, writeGpr_gpr]
    rfl
  | subfic =>
    simp only [AddOp.exec, subfic, setCarry_gpr, writeGpr_gpr, sub_eq_not_add]
    rfl
  | subfex => simp [AddOp.exec, subfex, AddOp.left, AddOp.right, AddOp.carryIn, getCarry_eq]
  | subfmex => simp [AddOp.exec, subfmex, AddOp.left, AddOp.right, AddOp.carryIn, getCarry_eq]
  | subfzex => simp [AddOp.exec, subfzex, AddOp.left, AddOp.right, AddOp.carryIn, getCarry_eq]

theorem exec_finish {op : AddOp} (hop : op.HasOe) (s : PowerPCState) (inst : UGeckoInstruction) :
    ∃ t, op.exec s inst = finish inst t (op.left s inst) (op.right s inst) (t.gpr inst.rd) := by
  cases op with
  | addic => exact absurd rfl hop.1
  | subfic => exact absurd rfl hop.2
  | addx | addcx | addex | addmex | addzex | subfx | subfcx | subfex | subfmex | subfzex =>
    simp only [AddOp.exec, addx, addcx, addex, addmex, addzex, subfx, subfcx, subfex, subfmex,
      subfzex]
    exact ⟨_, congrArg (finish inst _ _ _) (by simp)⟩

theorem exec_overflow {op : AddOp} (hop : op.HasOe) (s : PowerPCState) {inst : UGeckoInstruction}
    (hoe : inst.oe = true) :
    (op.exec s inst).getXerOv = 1 ↔ SignedOverflow 32 (op.signedSum s inst) := by
  obtain ⟨t, ht⟩ := exec_finish hop s inst
  have hword : ((op.exec s inst).gpr inst.rd).toNat = op.sum s inst % 2 ^ 32 := by
    rw [exec_target, BitVec.toNat_ofNat]
  rw [ht, finish_gpr] at hword
  rw [ht, finish_getXerOv hoe, flag_eq_one, hasAddOverflowed_eq]
  exact msb_xor_and_xor (by decide) hword

/-! ### The carries -/

theorem helperCarry_eq (a b : BitVec 32) :
    helperCarry a b = decide (2 ^ 32 ≤ a.toNat + b.toNat) := ult_not_eq a b

theorem carry_add (a b : BitVec 32) :
    helperCarry a b = decide (2 ^ 32 ≤ exactSum a b false) := helperCarry_eq a b

theorem carry_add_zero (a : BitVec 32) (c : Bool) :
    helperCarry a (flag 32 c) = decide (2 ^ 32 ≤ exactSum a 0 c) := by
  rw [helperCarry_eq, toNat_flag, exactSum]
  rfl

theorem carry_add_add (a b : BitVec 32) (c : Bool) :
    (helperCarry a b || helperCarry (a + b) (flag 32 c)) =
      decide (2 ^ 32 ≤ exactSum a b c) := by
  have hc : c.toNat ≤ 1 := Bool.toNat_le c
  have ha := a.isLt
  have hb := b.isLt
  rw [helperCarry_eq, helperCarry_eq, toNat_flag, BitVec.toNat_add, exactSum, Bool.eq_iff_iff,
    Bool.or_eq_true, decide_eq_true_eq, decide_eq_true_eq, decide_eq_true_eq]
  omega

theorem helperCarry_zero (a : BitVec 32) : helperCarry a 0 = false := by
  rw [helperCarry_eq, decide_eq_false_iff_not]
  have := a.isLt
  show ¬ 2 ^ 32 ≤ a.toNat + 0
  omega

theorem carry_add_one (a b : BitVec 32) :
    (a == 0xFFFFFFFF#32 || helperCarry b (a + 1)) = decide (2 ^ 32 ≤ exactSum a b true) := by
  have ha := a.isLt
  have hb := b.isLt
  have hone : (1#32).toNat = 1 := rfl
  have hmax : (0xFFFFFFFF#32).toNat = 2 ^ 32 - 1 := rfl
  have htrue : true.toNat = 1 := rfl
  rw [helperCarry_eq, BitVec.toNat_add, exactSum, Bool.eq_iff_iff, Bool.or_eq_true, beq_iff_eq,
    ← BitVec.toNat_inj, decide_eq_true_eq, decide_eq_true_eq, hmax, htrue]
  show a.toNat = 2 ^ 32 - 1 ∨ 2 ^ 32 ≤ b.toNat + (a.toNat + 1) % 2 ^ 32 ↔ _
  omega

theorem carry_sub (a b : BitVec 32) :
    (a == 0 || helperCarry (0 - a) b) = decide (2 ^ 32 ≤ exactSum (~~~a) b true) := by
  have ha := a.isLt
  have hb := b.isLt
  have hnot := toNat_not_add a
  have htrue : true.toNat = 1 := rfl
  have hneg : (0#32 - a).toNat = (2 ^ 32 - a.toNat) % 2 ^ 32 := by
    rw [BitVec.toNat_sub]
    rfl
  have hzero : (a == 0#32) = decide (a.toNat = 0) := by
    rw [Bool.eq_iff_iff, beq_iff_eq, decide_eq_true_eq, ← BitVec.toNat_inj]
    rfl
  show (a == 0#32 || helperCarry (0#32 - a) b) = _
  rw [helperCarry_eq, hneg, exactSum, Bool.eq_iff_iff, Bool.or_eq_true, hzero, htrue,
    decide_eq_true_eq, decide_eq_true_eq, decide_eq_true_eq]
  omega

theorem carry_minus_one (a : BitVec 32) (c : Bool) :
    helperCarry a (flag 32 c - 1) = decide (2 ^ 32 ≤ exactSum a 0xFFFFFFFF#32 c) ↔ c = false := by
  have ha := a.isLt
  have hmax : (0xFFFFFFFF#32).toNat = 2 ^ 32 - 1 := rfl
  cases c with
  | false =>
    have hword : flag 32 false - 1 = 0xFFFFFFFF#32 := rfl
    rw [hword, helperCarry_eq, exactSum]
    simp
  | true =>
    have hword : flag 32 true - 1 = 0#32 := rfl
    have hsum : 2 ^ 32 ≤ exactSum a 0xFFFFFFFF#32 true := by
      rw [exactSum, hmax, Bool.toNat_true]
      omega
    rw [hword, show helperCarry a 0#32 = false from helperCarry_zero a, decide_eq_true hsum]
    simp

/-- Every instruction that writes the carry writes the one of the exact sum, but for the two that
    add minus one, which are right only without a carry-in. -/
theorem exec_carry {op : AddOp} (hop : op.SetsCarry) (s : PowerPCState)
    (inst : UGeckoInstruction) :
    (op.exec s inst).getCarry = flag 32 (decide (2 ^ 32 ≤ op.sum s inst)) ↔
      (op = .addmex ∨ op = .subfmex → s.ca = false) := by
  have hflag : ∀ a b : Bool, flag 32 a = flag 32 b ↔ a = b := by decide
  cases op with
  | addx => exact absurd rfl hop.1
  | subfx => exact absurd rfl hop.2
  | addmex =>
    simp only [AddOp.exec, addmex, finish_getCarry, setCarry_getCarry, hflag, getCarry_eq s,
      true_or, true_implies]
    exact carry_minus_one _ _
  | subfmex =>
    simp only [AddOp.exec, subfmex, finish_getCarry, setCarry_getCarry, hflag, getCarry_eq s,
      or_true, true_implies]
    exact carry_minus_one _ _
  | addcx =>
    simp only [AddOp.exec, addcx, finish_getCarry, setCarry_getCarry, hflag, carry_add]
    exact iff_of_true rfl nofun
  | addic =>
    simp only [AddOp.exec, addic, setCarry_getCarry, hflag, carry_add]
    exact iff_of_true rfl nofun
  | addzex =>
    simp only [AddOp.exec, addzex, finish_getCarry, setCarry_getCarry, hflag, getCarry_eq s,
      carry_add_zero]
    exact iff_of_true rfl nofun
  | subfzex =>
    simp only [AddOp.exec, subfzex, finish_getCarry, setCarry_getCarry, hflag, getCarry_eq s,
      carry_add_zero]
    exact iff_of_true rfl nofun
  | subfcx =>
    simp only [AddOp.exec, subfcx, finish_getCarry, setCarry_getCarry, hflag, carry_add_one]
    exact iff_of_true rfl nofun
  | subfic =>
    simp only [AddOp.exec, subfic, setCarry_getCarry, hflag, carry_sub]
    exact iff_of_true rfl nofun
  | subfex =>
    simp only [AddOp.exec, subfex, finish_getCarry, setCarry_getCarry, hflag, getCarry_eq s,
      carry_add_add]
    exact iff_of_true rfl nofun
  | addex =>
    -- without a carry-in the second comparison finds nothing either
    have hguard : ∀ a : BitVec 32, ∀ c : Bool,
        (flag 32 c != 0 && helperCarry a (flag 32 c)) = helperCarry a (flag 32 c) := by
      intro a c
      cases c with
      | false => exact (helperCarry_zero a).symm
      | true => exact Bool.true_and _
    simp only [AddOp.exec, addex, finish_getCarry, setCarry_getCarry, hflag, getCarry_eq s, hguard,
      carry_add_add]
    exact iff_of_true rfl nofun

/-- An instruction is exact unless it adds minus one and finds the carry set. -/
theorem exact_iff (op : AddOp) (s : PowerPCState) (inst : UGeckoInstruction) :
    Exact op s inst ↔ (op = .addmex ∨ op = .subfmex → s.ca = false) := by
  have hbit : (op.sum s inst).testBit 32 = decide (2 ^ 32 ≤ op.sum s inst) :=
    exactSum_testBit _ _ _
  constructor
  · intro h hmex
    have hsets : op.SetsCarry := by
      obtain rfl | rfl := hmex
      · exact ⟨nofun, nofun⟩
      · exact ⟨nofun, nofun⟩
    exact (exec_carry hsets s inst).1 (hbit ▸ h.carry hsets) hmex
  · intro hca
    refine ⟨exec_target op s inst, fun hsets => ?_, fun hoe => exec_overflow hoe s⟩
    rw [hbit]
    exact (exec_carry hsets s inst).2 hca

/-- `addme r3, r4` with zero in the register and the carry set: the sum of zero, minus one and
    one is 2 ^ 32, but the carry is cleared. -/
theorem addmex_not_exact :
    let s : PowerPCState :=
      { gpr := fun _ => 0, cr := { fields := fun _ => 0 }, xerCa := 1, xerSoOv := 0,
        xerStringctrl := 0, ca_lt := by decide, soOv_lt := by decide }
    ¬ Exact .addmex s 0x7C6401D4#32 := by
  intro s h
  exact absurd (h.carry ⟨nofun, nofun⟩) (by decide)

end Interpreter

end DolphinXR.PowerPC
