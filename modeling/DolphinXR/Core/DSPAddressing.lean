import Mathlib.Data.Nat.Bits
import Mathlib.Data.Nat.Find
import Mathlib.Algebra.Group.Nat.Defs

/- The address registers of the DSP (Core/DSP/Interpreter/DSPInterpreter.cpp). A wrap register
   holds the size of a circular buffer, less one. Whether an address leaves the buffer is read off
   the carries of the addition: with `k` the least number of bits, one or more, that hold the wrap
   register, all four functions look at no carry but the one into bit `k`. -/
namespace DolphinXR.DSP

structure AddressRegisters where
  ar : Fin 4 → BitVec 16
  wr : Fin 4 → BitVec 16

namespace AddressRegisters

def incrementAddressRegister (r : AddressRegisters) (reg : Fin 4) : BitVec 16 :=
  let ar := (r.ar reg).setWidth 32
  let wr := (r.wr reg).setWidth 32
  let nar := ar + 1#32
  let nar := if nar ^^^ ar > (wr ||| 1#32) <<< 1 then nar - (wr + 1#32) else nar
  nar.setWidth 16

def decrementAddressRegister (r : AddressRegisters) (reg : Fin 4) : BitVec 16 :=
  let ar := (r.ar reg).setWidth 32
  let wr := (r.wr reg).setWidth 32
  let nar := ar + wr
  let nar := if (nar ^^^ ar) &&& ((wr ||| 1#32) <<< 1) > wr then nar - (wr + 1#32) else nar
  nar.setWidth 16

def increaseAddressRegister (r : AddressRegisters) (reg : Fin 4) (ix : BitVec 16) : BitVec 16 :=
  let ar := (r.ar reg).setWidth 32
  let wr := (r.wr reg).setWidth 32
  let ix := ix.signExtend 32
  let mx := (wr ||| 1#32) <<< 1
  let nar := ar + ix
  let dar := (nar ^^^ ar ^^^ ix) &&& mx
  let nar :=
    if 0 ≤ ix.toInt then if dar > wr then nar - (wr + 1#32) else nar
    else if ((nar + wr + 1#32) ^^^ nar) &&& dar ≤ wr then nar + (wr + 1#32) else nar
  nar.setWidth 16

def decreaseAddressRegister (r : AddressRegisters) (reg : Fin 4) (ix : BitVec 16) : BitVec 16 :=
  let ar := (r.ar reg).setWidth 32
  let wr := (r.wr reg).setWidth 32
  let ix := ix.signExtend 32
  let mx := (wr ||| 1#32) <<< 1
  let nar := ar - ix
  let dar := (nar ^^^ ar ^^^ ~~~ix) &&& mx
  let nar :=
    if ix > 0xFFFF8000 then if dar > wr then nar - (wr + 1#32) else nar
    else if ((nar + wr + 1#32) ^^^ nar) &&& dar ≤ wr then nar + (wr + 1#32) else nar
  nar.setWidth 16

end AddressRegisters

/-! ### The carry that is looked at -/

theorem or_one_eq (n : Nat) : n ||| 1 = n / 2 * 2 + 1 := by
  have hhalf : (n ||| 1) / 2 = n / 2 ||| 1 / 2 := Nat.or_div_two
  have hodd : (n ||| 1) % 2 = 1 := Nat.or_mod_two_eq_one.2 (.inr rfl)
  rw [show 1 / 2 = 0 from rfl, Nat.or_zero] at hhalf
  omega

/-- `k` is the least number of bits, from one on, that hold the wrap register. -/
structure WrapBits (wr : BitVec 32) (k : Nat) : Prop where
  pos : 1 ≤ k
  wr_lt : wr.toNat < 2 ^ k
  least : ∀ j, 1 ≤ j → wr.toNat < 2 ^ j → k ≤ j
  le : k ≤ 16

namespace WrapBits
variable {wr : BitVec 32} {k : Nat}

theorem two_pow (h : WrapBits wr k) : 2 * 2 ^ (k - 1) = 2 ^ k := by
  rw [← Nat.pow_succ', Nat.succ_eq_add_one, Nat.sub_add_cancel h.pos]

theorem pow_le_or_one (h : WrapBits wr k) : 2 ^ (k - 1) ≤ wr.toNat ||| 1 := by
  have hone := or_one_eq wr.toNat
  obtain hk | hk := Nat.eq_or_lt_of_le h.pos
  · rw [← hk]
    omega
  · refine Nat.le_of_not_lt fun hlt => ?_
    have := h.least (k - 1) (by omega) (by omega)
    omega

theorem or_one_lt (h : WrapBits wr k) : (wr.toNat ||| 1) < 2 ^ k := by
  have hone := or_one_eq wr.toNat
  have heven := h.two_pow
  have hwr := h.wr_lt
  omega

theorem pow_le_pow (h : WrapBits wr k) : 2 ^ k ≤ 2 ^ 16 := Nat.pow_le_pow_right (by decide) h.le

theorem toNat_mask (h : WrapBits wr k) : ((wr ||| 1#32) <<< 1).toNat = 2 * (wr.toNat ||| 1) := by
  have hlt := h.or_one_lt
  have hk := h.pow_le_pow
  have hor : (wr ||| 1#32).toNat = wr.toNat ||| 1 := BitVec.toNat_or wr 1#32
  rw [BitVec.toNat_shiftLeft, hor, Nat.shiftLeft_eq]
  omega

theorem and_mask_gt_iff (h : WrapBits wr k) (x : BitVec 32) :
    x &&& ((wr ||| 1#32) <<< 1) > wr ↔ x.getLsbD k = true := by
  have hmask := h.toNat_mask
  have hlow := h.pow_le_or_one
  have hhigh := h.or_one_lt
  have htwo := h.two_pow
  have hone := or_one_eq wr.toNat
  have hwr := h.wr_lt
  generalize (wr ||| 1#32) <<< 1 = mx at *
  rw [gt_iff_lt, BitVec.lt_def, BitVec.toNat_and, ← BitVec.testBit_toNat]
  have hmx : mx.toNat / 2 ^ k = 1 := by
    rw [Nat.div_eq_iff (Nat.two_pow_pos k)]
    omega
  have hbit : mx.toNat.testBit k = true := by
    rw [Nat.testBit_eq_decide_div_mod_eq, hmx]
    rfl
  constructor
  · intro hgt
    by_cases hx : x.toNat.testBit k = true
    · exact hx
    · exfalso
      -- without bit `k` there is no more left than the mask has below it
      have hdiv : (x.toNat &&& mx.toNat) / 2 ^ k = 0 := by
        rw [Nat.and_div_two_pow, hmx, Nat.and_one_is_mod]
        rw [Nat.testBit_eq_decide_div_mod_eq, decide_eq_true_eq] at hx
        omega
      have hmod : (x.toNat &&& mx.toNat) % 2 ^ k ≤ mx.toNat % 2 ^ k := by
        rw [Nat.and_mod_two_pow]
        exact Nat.and_le_right
      have hx' := Nat.div_add_mod (x.toNat &&& mx.toNat) (2 ^ k)
      have hmx' := Nat.div_add_mod mx.toNat (2 ^ k)
      rw [hdiv, Nat.mul_zero, Nat.zero_add] at hx'
      rw [hmx, Nat.mul_one] at hmx'
      omega
  · intro hx
    have hand : (x.toNat &&& mx.toNat).testBit k = true := by
      rw [Nat.testBit_and, hx, hbit]
      rfl
    exact Nat.lt_of_lt_of_le hwr (Nat.ge_two_pow_of_testBit hand)

/-! The carries, by the low `k` bits of the operands. -/

theorem lt_width (h : WrapBits wr k) : k < 32 := Nat.lt_of_le_of_lt h.le (by decide)

theorem carry_add (h : WrapBits wr k) (x y : BitVec 32) :
    ((x + y) ^^^ x ^^^ y).getLsbD k = decide (2 ^ k ≤ x.toNat % 2 ^ k + y.toNat % 2 ^ k) := by
  rw [BitVec.getLsbD_xor, BitVec.getLsbD_xor, BitVec.getLsbD_add h.lt_width, BitVec.carry]
  simp only [Bool.toNat_false, Nat.add_zero, ge_iff_le]
  cases x.getLsbD k <;> cases y.getLsbD k <;> simp

theorem toNat_not_mod (h : WrapBits wr k) (x : BitVec 32) :
    (~~~x).toNat % 2 ^ k = 2 ^ k - 1 - x.toNat % 2 ^ k := by
  have hk := h.lt_width
  obtain ⟨c, hc⟩ : 2 ^ k ∣ 2 ^ 32 := Nat.pow_dvd_pow 2 (Nat.le_of_lt hk)
  have hx := Nat.div_add_mod x.toNat (2 ^ k)
  have hlt := Nat.mod_lt x.toNat (Nat.two_pow_pos k)
  have hq : x.toNat / 2 ^ k < c := by
    rw [Nat.div_lt_iff_lt_mul (Nat.two_pow_pos k), Nat.mul_comm, ← hc]
    exact x.isLt
  have hnot : (~~~x).toNat = 2 ^ k * (c - 1 - x.toNat / 2 ^ k) + (2 ^ k - 1 - x.toNat % 2 ^ k) := by
    rw [BitVec.toNat_not, hc, Nat.mul_sub, Nat.mul_sub, Nat.mul_one]
    have hle : 2 ^ k * (x.toNat / 2 ^ k + 1) ≤ 2 ^ k * c := Nat.mul_le_mul_left _ hq
    rw [Nat.mul_add] at hle
    omega
  rw [hnot, Nat.mul_add_mod, Nat.mod_eq_of_lt (by omega)]

theorem carry_sub (h : WrapBits wr k) (x y : BitVec 32) :
    ((x - y) ^^^ x ^^^ ~~~y).getLsbD k = decide (y.toNat % 2 ^ k ≤ x.toNat % 2 ^ k) := by
  have hsub : x - y = x + ~~~y + BitVec.setWidth 32 (BitVec.ofBool true) := by
    rw [BitVec.sub_eq_add_neg, BitVec.neg_eq_not_add, BitVec.add_assoc]
    rfl
  have hy := h.toNat_not_mod y
  have hlt := Nat.mod_lt y.toNat (Nat.two_pow_pos k)
  have hpos := Nat.two_pow_pos k
  rw [BitVec.getLsbD_xor, BitVec.getLsbD_xor, hsub, BitVec.getLsbD_add_add_bool h.lt_width,
    BitVec.carry, hy]
  have hiff : (x.toNat % 2 ^ k + (2 ^ k - 1 - y.toNat % 2 ^ k) + true.toNat ≥ 2 ^ k) ↔
      y.toNat % 2 ^ k ≤ x.toNat % 2 ^ k := by
    rw [Bool.toNat_true]
    omega
  simp only [hiff]
  cases x.getLsbD k <;> cases (~~~y).getLsbD k <;> simp

theorem wr_bit (h : WrapBits wr k) : wr.getLsbD k = false := by
  rw [← BitVec.testBit_toNat]
  exact Nat.testBit_lt_two_pow h.wr_lt

theorem carry_wr (h : WrapBits wr k) (x : BitVec 32) :
    ((x + wr) ^^^ x).getLsbD k = decide (2 ^ k ≤ x.toNat % 2 ^ k + wr.toNat) := by
  have hcarry := h.carry_add x wr
  rwa [BitVec.getLsbD_xor, h.wr_bit, Bool.xor_false, Nat.mod_eq_of_lt h.wr_lt] at hcarry

theorem carry_wr_one (h : WrapBits wr k) (x : BitVec 32) :
    ((x + wr + 1#32) ^^^ x).getLsbD k = decide (2 ^ k ≤ x.toNat % 2 ^ k + wr.toNat + 1) := by
  have hone : x + wr + 1#32 = x + wr + BitVec.setWidth 32 (BitVec.ofBool true) := rfl
  rw [BitVec.getLsbD_xor, hone, BitVec.getLsbD_add_add_bool h.lt_width, BitVec.carry, h.wr_bit,
    Nat.mod_eq_of_lt h.wr_lt, Bool.toNat_true]
  cases x.getLsbD k <;> simp

theorem xor_succ_gt_iff (h : WrapBits wr k) (x : BitVec 32) (hx : x.toNat < 2 ^ 16) :
    (x + 1#32) ^^^ x > (wr ||| 1#32) <<< 1 ↔ 2 ^ k ≤ x.toNat % 2 ^ k + 1 := by
  have hmask := h.toNat_mask
  have hlow := h.pow_le_or_one
  have hhigh := h.or_one_lt
  have htwo := h.two_pow
  have hpos := Nat.two_pow_pos k
  have hsucc : (x + 1#32).toNat = x.toNat + 1 := by bv_omega
  rw [gt_iff_lt, BitVec.lt_def, hmask, BitVec.toNat_xor, hsucc]
  generalize x.toNat = n at *
  have hn := Nat.div_add_mod n (2 ^ k)
  have hmod := Nat.mod_lt n hpos
  have hxor := Nat.div_add_mod ((n + 1) ^^^ n) (2 ^ k)
  rw [Nat.xor_div_two_pow, Nat.xor_mod_two_pow] at hxor
  by_cases hlast : n % 2 ^ k + 1 = 2 ^ k
  · have hnext : n + 1 = 2 ^ k * (n / 2 ^ k + 1) := by rw [Nat.mul_add, Nat.mul_one]; omega
    have hdiv : (n + 1) / 2 ^ k = n / 2 ^ k + 1 := by rw [hnext, Nat.mul_div_cancel_left _ hpos]
    have hzero : (n + 1) % 2 ^ k = 0 := by rw [hnext, Nat.mul_mod_right]
    have hne : (n / 2 ^ k + 1) ^^^ (n / 2 ^ k) ≠ 0 := by
      intro hzero
      have hodd : ((n / 2 ^ k + 1) ^^^ (n / 2 ^ k)) % 2 = 1 := by
        rw [Nat.xor_mod_two_eq_one]
        omega
      omega
    rw [hdiv, hzero, Nat.zero_xor] at hxor
    have hge : 2 ^ k * 1 ≤ 2 ^ k * ((n / 2 ^ k + 1) ^^^ (n / 2 ^ k)) :=
      Nat.mul_le_mul_left _ (Nat.one_le_iff_ne_zero.2 hne)
    omega
  · have hnext : n + 1 = 2 ^ k * (n / 2 ^ k) + (n % 2 ^ k + 1) := by omega
    have hdiv : (2 ^ k * (n / 2 ^ k) + (n % 2 ^ k + 1)) / 2 ^ k = n / 2 ^ k := by
      have hlt : n % 2 ^ k + 1 < 2 ^ k := by omega
      rw [Nat.mul_add_div hpos, Nat.div_eq_of_lt hlt, Nat.add_zero]
    rw [← hnext] at hdiv
    have hlt : ((n + 1) % 2 ^ k ^^^ n % 2 ^ k) < 2 ^ k := Nat.xor_lt_two_pow (Nat.mod_lt _ hpos) hmod
    rw [hdiv, Nat.xor_self, Nat.mul_zero, Nat.zero_add] at hxor
    omega

end WrapBits

theorem exists_wrapBits (wr : BitVec 16) : ∃ k, WrapBits (wr.setWidth 32) k := by
  have hwr : (wr.setWidth 32).toNat < 2 ^ 16 := by
    rw [BitVec.toNat_setWidth]
    omega
  have hex : ∃ j, 1 ≤ j ∧ (wr.setWidth 32).toNat < 2 ^ j := ⟨16, by decide, hwr⟩
  obtain ⟨hpos, hlt⟩ := Nat.find_spec hex
  exact ⟨Nat.find hex, hpos, hlt, fun j hj hlt => Nat.find_min' hex ⟨hj, hlt⟩,
    Nat.find_min' hex ⟨by decide, hwr⟩⟩

/-! ### What the functions compute -/

namespace AddressRegisters
variable (r : AddressRegisters) (reg : Fin 4)

def ar32 : BitVec 32 := (r.ar reg).setWidth 32

def wr32 : BitVec 32 := (r.wr reg).setWidth 32

theorem toNat_ar32 : (r.ar32 reg).toNat = (r.ar reg).toNat := by
  rw [ar32, BitVec.toNat_setWidth]
  omega

theorem toNat_wr32 : (r.wr32 reg).toNat = (r.wr reg).toNat := by
  rw [wr32, BitVec.toNat_setWidth]
  omega

variable {r reg} {k : Nat}

def wrapDown (wr nar : BitVec 32) (leaves : Prop) [Decidable leaves] : BitVec 16 :=
  (if leaves then nar - (wr + 1#32) else nar).setWidth 16

def wrapUp (wr nar : BitVec 32) (leaves : Prop) [Decidable leaves] : BitVec 16 :=
  (if leaves then nar + (wr + 1#32) else nar).setWidth 16

theorem wrapDown_congr (wr nar : BitVec 32) {p q : Prop} [Decidable p] [Decidable q] (h : p ↔ q) :
    wrapDown wr nar p = wrapDown wr nar q := by
  simp only [wrapDown, h]

theorem wrapUp_congr (wr nar : BitVec 32) {p q : Prop} [Decidable p] [Decidable q] (h : p ↔ q) :
    wrapUp wr nar p = wrapUp wr nar q := by
  simp only [wrapUp, h]

theorem incrementAddressRegister_eq (h : WrapBits (r.wr32 reg) k) :
    r.incrementAddressRegister reg =
      wrapDown (r.wr32 reg) (r.ar32 reg + 1#32) (2 ^ k ≤ (r.ar32 reg).toNat % 2 ^ k + 1) := by
  have har : (r.ar32 reg).toNat < 2 ^ 16 := r.toNat_ar32 reg ▸ (r.ar reg).isLt
  rw [← wrapDown_congr _ _ (h.xor_succ_gt_iff (r.ar32 reg) har)]
  rfl

theorem decrementAddressRegister_eq (h : WrapBits (r.wr32 reg) k) :
    r.decrementAddressRegister reg =
      wrapDown (r.wr32 reg) (r.ar32 reg + r.wr32 reg)
        (2 ^ k ≤ (r.ar32 reg).toNat % 2 ^ k + (r.wr32 reg).toNat) := by
  have hiff := h.and_mask_gt_iff ((r.ar32 reg + r.wr32 reg) ^^^ r.ar32 reg)
  rw [h.carry_wr, decide_eq_true_eq] at hiff
  rw [← wrapDown_congr _ _ hiff]
  rfl

theorem underflow_iff (h : WrapBits (r.wr32 reg) k) (nar c : BitVec 32) :
    ((nar + r.wr32 reg + 1#32) ^^^ nar) &&& (c &&& ((r.wr32 reg ||| 1#32) <<< 1)) ≤ r.wr32 reg ↔
      ¬(c.getLsbD k = true ∧ 2 ^ k ≤ nar.toNat % 2 ^ k + (r.wr32 reg).toNat + 1) := by
  rw [← BitVec.and_assoc, ← BitVec.not_lt, ← gt_iff_lt, h.and_mask_gt_iff, BitVec.getLsbD_and,
    h.carry_wr_one, Bool.and_eq_true, decide_eq_true_eq, and_comm]

theorem increaseAddressRegister_of_nonneg (h : WrapBits (r.wr32 reg) k) {ix : BitVec 16}
    (hix : 0 ≤ (ix.signExtend 32).toInt) :
    r.increaseAddressRegister reg ix =
      wrapDown (r.wr32 reg) (r.ar32 reg + ix.signExtend 32)
        (2 ^ k ≤ (r.ar32 reg).toNat % 2 ^ k + (ix.signExtend 32).toNat % 2 ^ k) := by
  have hiff := h.and_mask_gt_iff
    ((r.ar32 reg + ix.signExtend 32) ^^^ r.ar32 reg ^^^ ix.signExtend 32)
  rw [h.carry_add, decide_eq_true_eq] at hiff
  rw [← wrapDown_congr _ _ hiff]
  simp only [increaseAddressRegister, if_pos hix, wrapDown, ar32, wr32]
  rfl

theorem increaseAddressRegister_of_neg (h : WrapBits (r.wr32 reg) k) {ix : BitVec 16}
    (hix : ¬0 ≤ (ix.signExtend 32).toInt) :
    r.increaseAddressRegister reg ix =
      wrapUp (r.wr32 reg) (r.ar32 reg + ix.signExtend 32)
        (¬(2 ^ k ≤ (r.ar32 reg).toNat % 2 ^ k + (ix.signExtend 32).toNat % 2 ^ k ∧
          2 ^ k ≤ (r.ar32 reg + ix.signExtend 32).toNat % 2 ^ k + (r.wr32 reg).toNat + 1)) := by
  have hiff := underflow_iff h (r.ar32 reg + ix.signExtend 32)
    ((r.ar32 reg + ix.signExtend 32) ^^^ r.ar32 reg ^^^ ix.signExtend 32)
  rw [h.carry_add, decide_eq_true_eq] at hiff
  rw [← wrapUp_congr _ _ hiff]
  simp only [increaseAddressRegister, if_neg hix, wrapUp, ar32, wr32]
  rfl

theorem decreaseAddressRegister_of_gt (h : WrapBits (r.wr32 reg) k) {ix : BitVec 16}
    (hix : ix.signExtend 32 > 0xFFFF8000) :
    r.decreaseAddressRegister reg ix =
      wrapDown (r.wr32 reg) (r.ar32 reg - ix.signExtend 32)
        ((ix.signExtend 32).toNat % 2 ^ k ≤ (r.ar32 reg).toNat % 2 ^ k) := by
  have hiff := h.and_mask_gt_iff
    ((r.ar32 reg - ix.signExtend 32) ^^^ r.ar32 reg ^^^ ~~~ix.signExtend 32)
  rw [h.carry_sub, decide_eq_true_eq] at hiff
  rw [← wrapDown_congr _ _ hiff]
  simp only [decreaseAddressRegister, if_pos hix, wrapDown, ar32, wr32]
  rfl

theorem decreaseAddressRegister_of_le (h : WrapBits (r.wr32 reg) k) {ix : BitVec 16}
    (hix : ¬ix.signExtend 32 > 0xFFFF8000) :
    r.decreaseAddressRegister reg ix =
      wrapUp (r.wr32 reg) (r.ar32 reg - ix.signExtend 32)
        (¬((ix.signExtend 32).toNat % 2 ^ k ≤ (r.ar32 reg).toNat % 2 ^ k ∧
          2 ^ k ≤ (r.ar32 reg - ix.signExtend 32).toNat % 2 ^ k + (r.wr32 reg).toNat + 1)) := by
  have hiff := underflow_iff h (r.ar32 reg - ix.signExtend 32)
    ((r.ar32 reg - ix.signExtend 32) ^^^ r.ar32 reg ^^^ ~~~ix.signExtend 32)
  rw [h.carry_sub, decide_eq_true_eq] at hiff
  rw [← wrapUp_congr _ _ hiff]
  simp only [decreaseAddressRegister, if_neg hix, wrapUp, ar32, wr32]
  rfl

theorem sub_mod_of_le {n x b : Nat} (h : x ≤ n % b) : (n - x) % b = n % b - x := by
  obtain rfl | hpos := Nat.eq_zero_or_pos b
  · simp
  · have hn := Nat.div_add_mod n b
    have hlt := Nat.mod_lt n hpos
    have hsub : n - x = b * (n / b) + (n % b - x) := by omega
    rw [hsub, Nat.mul_add_mod, Nat.mod_eq_of_lt (by omega)]

theorem incrementAddressRegister_eq_increase (r : AddressRegisters) (reg : Fin 4) :
    r.incrementAddressRegister reg = r.increaseAddressRegister reg 1 := by
  obtain ⟨k, h⟩ := exists_wrapBits (r.wr reg)
  have hone : (1 : BitVec 16).signExtend 32 = 1#32 := by decide
  have hmod : (1#32).toNat % 2 ^ k = 1 :=
    Nat.mod_eq_of_lt (Nat.one_lt_two_pow (Nat.ne_of_gt h.pos))
  rw [incrementAddressRegister_eq h, increaseAddressRegister_of_nonneg h (by rw [hone]; decide), hone,
    hmod]

theorem decrementAddressRegister_eq_decrease (r : AddressRegisters) (reg : Fin 4) :
    r.decrementAddressRegister reg = r.decreaseAddressRegister reg 1 := by
  obtain ⟨k, h⟩ := exists_wrapBits (r.wr reg)
  have hwr : (r.wr32 reg).toNat < 2 ^ k := h.wr_lt
  have hone : (1 : BitVec 16).signExtend 32 = 1#32 := by decide
  have hmod : (1#32).toNat % 2 ^ k = 1 :=
    Nat.mod_eq_of_lt (Nat.one_lt_two_pow (Nat.ne_of_gt h.pos))
  rw [decrementAddressRegister_eq h, decreaseAddressRegister_of_le h (by rw [hone]; decide), hone,
    hmod, wrapDown, wrapUp]
  congr 1
  by_cases hover : 2 ^ k ≤ (r.ar32 reg).toNat % 2 ^ k + (r.wr32 reg).toNat
  · -- the subtraction borrows nothing from bit `k`
    have hle : 1 ≤ (r.ar32 reg).toNat % 2 ^ k := by omega
    have hpos : 1 ≤ (r.ar32 reg).toNat := Nat.le_trans hle (Nat.mod_le _ _)
    have hsub : (r.ar32 reg - 1#32).toNat % 2 ^ k = (r.ar32 reg).toNat % 2 ^ k - 1 := by
      rw [show (r.ar32 reg - 1#32).toNat = (r.ar32 reg).toNat - 1 by bv_omega, sub_mod_of_le hle]
    rw [if_pos hover, if_neg (not_not.2 ⟨hle, by omega⟩)]
    bv_omega
  · have hunder : ¬(1 ≤ (r.ar32 reg).toNat % 2 ^ k ∧
        2 ^ k ≤ (r.ar32 reg - 1#32).toNat % 2 ^ k + (r.wr32 reg).toNat + 1) := by
      rintro ⟨hle, hge⟩
      have hpos : 1 ≤ (r.ar32 reg).toNat := Nat.le_trans hle (Nat.mod_le _ _)
      rw [show (r.ar32 reg - 1#32).toNat = (r.ar32 reg).toNat - 1 by bv_omega, sub_mod_of_le hle]
        at hge
      omega
    rw [if_neg hover, if_pos hunder]
    bv_omega

end AddressRegisters

end DolphinXR.DSP
