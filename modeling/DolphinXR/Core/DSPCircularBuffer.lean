import Mathlib.Data.Int.ModEq
import DolphinXR.Core.DSPAddressing

/- Circular buffers of the DSP. A buffer is the last part of a block of addresses, and a step of at
   most its size, less one, leaves it at one end only: upwards with the carry out of the block's
   bits, downwards with a borrow from them, or below the buffer's first address. One size less, or
   more, leads back. -/
namespace DolphinXR.DSP

/-- The buffer of a wrap register: the last `wr + 1` addresses of a block of `2 ^ bits` ones, which is
    the smallest, of two or more, that has room for them. -/
structure CircularBuffer (wr : BitVec 16) where
  bits : Nat
  start : Nat
  pos : 1 ≤ bits
  wr_lt : wr.toNat < 2 ^ bits
  least : ∀ j, 1 ≤ j → wr.toNat < 2 ^ j → bits ≤ j
  aligned : 2 ^ bits ∣ start

namespace CircularBuffer
variable {wr : BitVec 16} (b : CircularBuffer wr)

def first : Nat := b.start + 2 ^ b.bits - (wr.toNat + 1)

def Holds (a : BitVec 16) : Prop := b.first ≤ a.toNat ∧ a.toNat < b.start + 2 ^ b.bits

def offset (a : BitVec 16) : Int := a.toNat - b.first

theorem wrapBits : WrapBits (wr.setWidth 32) b.bits := by
  have hwr : (wr.setWidth 32).toNat = wr.toNat := by
    rw [BitVec.toNat_setWidth]
    omega
  exact ⟨b.pos, hwr.symm ▸ b.wr_lt, fun j hj hlt => b.least j hj (hwr ▸ hlt),
    b.least 16 (by decide) wr.isLt⟩

variable {b} in
theorem Holds.low {a : BitVec 16} (h : b.Holds a) :
    a.toNat % 2 ^ b.bits + b.start = a.toNat ∧ b.start + 2 ^ b.bits ≤ 2 ^ 16 := by
  obtain ⟨hfirst, hlast⟩ := h
  obtain ⟨q, hq⟩ := b.aligned
  have hwr := b.wr_lt
  have hbits : b.bits ≤ 16 := b.wrapBits.le
  obtain ⟨p, hp⟩ : 2 ^ b.bits ∣ 2 ^ 16 := Nat.pow_dvd_pow 2 hbits
  have ha := a.isLt
  unfold first at hfirst
  have hmod : a.toNat % 2 ^ b.bits = a.toNat - b.start := by
    have hadd : a.toNat = 2 ^ b.bits * q + (a.toNat - b.start) := by omega
    rw [hadd, Nat.mul_add_mod, Nat.mod_eq_of_lt (by omega)]
    omega
  refine ⟨by omega, ?_⟩
  have hqp : q < p := by
    have : 2 ^ b.bits * q < 2 ^ b.bits * p := by omega
    exact Nat.lt_of_mul_lt_mul_left this
  have := Nat.mul_le_mul_left (2 ^ b.bits) hqp
  rw [Nat.mul_succ] at this
  omega

theorem holds_iff (a : BitVec 16) : b.Holds a ↔ 0 ≤ b.offset a ∧ b.offset a < wr.toNat + 1 := by
  have hwr := b.wr_lt
  unfold Holds offset first
  omega

theorem offset_injective {a a' : BitVec 16} (h : b.offset a = b.offset a') : a = a' := by
  unfold offset at h
  bv_omega

theorem emod_of_turns {v o n : Int} (q : Int) (h : v + n * q = o) (h0 : 0 ≤ v) (hn : v < n) :
    o % n = v := by
  rw [← h, Int.add_mul_emod_self_left, Int.emod_eq_of_lt h0 hn]

variable {b} {a : BitVec 16}

theorem offset_wrapDown (h : b.Holds a) {x : Nat} (hx : x ≤ wr.toNat) {nar : BitVec 32}
    (hnar : nar.toNat = a.toNat + x) {leaves : Prop} [Decidable leaves]
    (hleaves : leaves ↔ wr.toNat + 1 ≤ b.offset a + x) :
    b.offset (AddressRegisters.wrapDown (wr.setWidth 32) nar leaves) =
      (b.offset a + x) % (wr.toNat + 1 : Nat) := by
  obtain ⟨-, htop⟩ := h.low
  have hin := (b.holds_iff a).1 h
  have hwr : (wr.setWidth 32 + 1#32).toNat = wr.toNat + 1 := by bv_omega
  have hlt := b.wr_lt
  symm
  unfold AddressRegisters.wrapDown
  by_cases hp : leaves
  · have hge := hleaves.1 hp
    rw [if_pos hp]
    generalize wr.setWidth 32 + 1#32 = size at hwr
    have hval : ((nar - size).setWidth 16).toNat = a.toNat + x - (wr.toNat + 1) := by
      unfold offset first at *
      bv_omega
    refine emod_of_turns 1 ?_ ?_ ?_ <;> unfold offset first at * <;> omega
  · have hlt' := mt hleaves.2 hp
    rw [if_neg hp]
    have hval : (nar.setWidth 16).toNat = a.toNat + x := by
      unfold offset first at *
      bv_omega
    refine emod_of_turns 0 ?_ ?_ ?_ <;> unfold offset first at * <;> omega

theorem offset_wrapUp (h : b.Holds a) {x : Nat} (hx : x ≤ wr.toNat) {nar : BitVec 32}
    (hnar : nar = a.setWidth 32 - BitVec.ofNat 32 x) {leaves : Prop} [Decidable leaves]
    (hleaves : leaves ↔ b.offset a < x) :
    b.offset (AddressRegisters.wrapUp (wr.setWidth 32) nar leaves) =
      (b.offset a - x) % (wr.toNat + 1 : Nat) := by
  obtain ⟨-, htop⟩ := h.low
  have hin := (b.holds_iff a).1 h
  have hwr : (wr.setWidth 32 + 1#32).toNat = wr.toNat + 1 := by bv_omega
  have hlt := b.wr_lt
  symm
  unfold AddressRegisters.wrapUp
  by_cases hp : leaves
  · have hlow := hleaves.1 hp
    rw [if_pos hp]
    generalize wr.setWidth 32 + 1#32 = size at hwr
    have hval : ((nar + size).setWidth 16).toNat = a.toNat + (wr.toNat + 1) - x := by
      unfold offset first at *
      bv_omega
    refine emod_of_turns (-1) ?_ ?_ ?_ <;> unfold offset first at * <;> omega
  · have hlow := mt hleaves.2 hp
    rw [if_neg hp]
    have hval : (nar.setWidth 16).toNat = a.toNat - x := by
      unfold offset first at *
      bv_omega
    refine emod_of_turns 0 ?_ ?_ ?_ <;> unfold offset first at * <;> omega

end CircularBuffer

section Walk
variable {r : AddressRegisters} {reg : Fin 4} {b : CircularBuffer (r.wr reg)} {ix : BitVec 16}

theorem toInt_signExtend (ix : BitVec 16) : (ix.signExtend 32).toInt = ix.toInt :=
  BitVec.toInt_signExtend_of_le (by decide)

/-! The steps up and down, by their sizes. -/

theorem signExtend_of_nonneg (h : 0 ≤ ix.toInt) :
    ∃ x : Nat, ix.toInt = x ∧ ix.signExtend 32 = BitVec.ofNat 32 x := by
  refine ⟨ix.toInt.toNat, (Int.toNat_of_nonneg h).symm, ?_⟩
  rw [BitVec.signExtend, ← BitVec.ofInt_natCast, Int.toNat_of_nonneg h]

theorem signExtend_of_neg (h : ¬0 ≤ ix.toInt) :
    ∃ x : Nat, ix.toInt = -x ∧ 0 < x ∧ x ≤ 2 ^ 15 ∧ ix.signExtend 32 = -BitVec.ofNat 32 x := by
  have hmin : -2 ^ 15 ≤ ix.toInt := BitVec.le_toInt ix
  refine ⟨(-ix.toInt).toNat, by omega, by omega, by omega, ?_⟩
  rw [BitVec.signExtend, ← BitVec.ofInt_natCast, Int.toNat_of_nonneg (by omega), BitVec.ofInt_neg,
    BitVec.neg_neg]

theorem toNat_neg_mod {k x : Nat} (hk : k ≤ 16) (hpos : 0 < x) (hx : x < 2 ^ k) :
    (-BitVec.ofNat 32 x).toNat % 2 ^ k = 2 ^ k - x := by
  obtain ⟨p, hp⟩ : 2 ^ k ∣ 2 ^ 32 := Nat.pow_dvd_pow 2 (by omega)
  have hk' : 2 ^ k ≤ 2 ^ 16 := Nat.pow_le_pow_right (by decide) hk
  have hp0 : 0 < p := by
    rcases p with _ | p
    · simp at hp
    · omega
  have hneg : (-BitVec.ofNat 32 x).toNat = 2 ^ k * (p - 1) + (2 ^ k - x) := by
    have hmul : 2 ^ k * p = 2 ^ k * (p - 1) + 2 ^ k := by
      rw [← Nat.mul_succ, Nat.succ_eq_add_one, Nat.sub_add_cancel hp0]
    bv_omega
  rw [hneg, Nat.mul_add_mod, Nat.mod_eq_of_lt (by omega)]

theorem toNat_ofNat_mod {k x : Nat} (hk : k ≤ 16) (hx : x < 2 ^ k) :
    (BitVec.ofNat 32 x).toNat % 2 ^ k = x := by
  have hk' : 2 ^ k ≤ 2 ^ 16 := Nat.pow_le_pow_right (by decide) hk
  rw [show (BitVec.ofNat 32 x).toNat = x by bv_omega, Nat.mod_eq_of_lt hx]

theorem leaves_up_iff (h : b.Holds (r.ar reg)) (x : Nat) :
    2 ^ b.bits ≤ (r.ar32 reg).toNat % 2 ^ b.bits + x ↔
      (r.wr reg).toNat + 1 ≤ b.offset (r.ar reg) + x := by
  have hwr := b.wr_lt
  have hlow := h.low.1
  rw [r.toNat_ar32 reg]
  unfold CircularBuffer.offset CircularBuffer.first
  omega

theorem leaves_down_iff (h : b.Holds (r.ar reg)) {x : Nat} (hx : x ≤ (r.wr reg).toNat) :
    ¬(x ≤ (r.ar32 reg).toNat % 2 ^ b.bits ∧
      2 ^ b.bits ≤ (r.ar32 reg - BitVec.ofNat 32 x).toNat % 2 ^ b.bits + (r.wr32 reg).toNat + 1) ↔
      b.offset (r.ar reg) < x := by
  have hwr := b.wr_lt
  have hlow := h.low.1
  have har := r.toNat_ar32 reg
  have hwr32 := r.toNat_wr32 reg
  by_cases hle : x ≤ (r.ar32 reg).toNat % 2 ^ b.bits
  · have hsub : (r.ar32 reg - BitVec.ofNat 32 x).toNat % 2 ^ b.bits =
        (r.ar32 reg).toNat % 2 ^ b.bits - x := by
      have hle' : x ≤ (r.ar32 reg).toNat := Nat.le_trans hle (Nat.mod_le _ _)
      rw [show (r.ar32 reg - BitVec.ofNat 32 x).toNat = (r.ar32 reg).toNat - x by bv_omega,
        AddressRegisters.sub_mod_of_le hle]
    rw [hsub, hwr32]
    rw [har] at hle ⊢
    unfold CircularBuffer.offset CircularBuffer.first
    omega
  · refine iff_of_true (fun hcon => hle hcon.1) ?_
    rw [har] at hle
    unfold CircularBuffer.offset CircularBuffer.first
    omega

theorem offset_increase (h : b.Holds (r.ar reg)) (hix : |ix.toInt| ≤ (r.wr reg).toNat) :
    b.offset (r.increaseAddressRegister reg ix) =
      (b.offset (r.ar reg) + ix.toInt) % ((r.wr reg).toNat + 1 : Nat) := by
  have hbits := b.wrapBits
  have hlt := b.wr_lt
  by_cases hsign : 0 ≤ ix.toInt
  · obtain ⟨x, hx, hext⟩ := signExtend_of_nonneg hsign
    rw [hx, abs_of_nonneg (by omega)] at hix
    have hxle : x ≤ (r.wr reg).toNat := by omega
    rw [AddressRegisters.increaseAddressRegister_of_nonneg hbits (by rwa [toInt_signExtend]),
      hext, toNat_ofNat_mod hbits.le (by omega), hx]
    have har := r.toNat_ar32 reg
    exact CircularBuffer.offset_wrapDown h hxle (by bv_omega) (leaves_up_iff h x)
  · obtain ⟨x, hx, hpos, hmax, hext⟩ := signExtend_of_neg hsign
    rw [hx, abs_of_nonpos (by omega)] at hix
    have hxle : x ≤ (r.wr reg).toNat := by omega
    rw [AddressRegisters.increaseAddressRegister_of_neg hbits (by rwa [toInt_signExtend]),
      hext, toNat_neg_mod hbits.le hpos (by omega), ← BitVec.sub_eq_add_neg, hx, ← Int.sub_eq_add_neg]
    refine CircularBuffer.offset_wrapUp h hxle rfl ?_
    rw [← leaves_down_iff h hxle, not_iff_not]
    exact and_congr_left fun _ => by omega

theorem offset_decrease (h : b.Holds (r.ar reg)) (hix : |ix.toInt| ≤ (r.wr reg).toNat)
    (hmin : ix.toInt ≠ -0x8000) :
    b.offset (r.decreaseAddressRegister reg ix) =
      (b.offset (r.ar reg) - ix.toInt) % ((r.wr reg).toNat + 1 : Nat) := by
  have hbits := b.wrapBits
  have hlt := b.wr_lt
  by_cases hsign : 0 ≤ ix.toInt
  · obtain ⟨x, hx, hext⟩ := signExtend_of_nonneg hsign
    have hmax : ix.toInt < 2 ^ 15 := BitVec.toInt_lt
    rw [hx, abs_of_nonneg (by omega)] at hix
    have hxle : x ≤ (r.wr reg).toNat := by omega
    rw [AddressRegisters.decreaseAddressRegister_of_le hbits (by rw [hext]; bv_omega),
      hext, toNat_ofNat_mod hbits.le (by omega), hx]
    exact CircularBuffer.offset_wrapUp h hxle rfl (leaves_down_iff h hxle)
  · obtain ⟨x, hx, hpos, hmax, hext⟩ := signExtend_of_neg hsign
    rw [hx, abs_of_nonpos (by omega)] at hix
    have hxle : x ≤ (r.wr reg).toNat := by omega
    rw [AddressRegisters.decreaseAddressRegister_of_gt hbits (by rw [hext]; bv_omega),
      hext, toNat_neg_mod hbits.le hpos (by omega), hx, Int.sub_neg]
    have har := r.toNat_ar32 reg
    refine CircularBuffer.offset_wrapDown h hxle (by bv_omega) ?_
    rw [← leaves_up_iff h]
    omega

end Walk

namespace AddressRegisters

abbrev setAr (r : AddressRegisters) (reg : Fin 4) (a : BitVec 16) : AddressRegisters :=
  { r with ar := Function.update r.ar reg a }

@[simp] theorem setAr_ar (r : AddressRegisters) (reg : Fin 4) (a : BitVec 16) :
    (r.setAr reg a).ar reg = a :=
  Function.update_self reg _ r.ar

/-- A step up and a step down move the address in the buffer, and each takes the other back. -/
structure Walks (r : AddressRegisters) (reg : Fin 4) (b : CircularBuffer (r.wr reg))
    (ix : BitVec 16) : Prop where
  increase_holds : b.Holds (r.increaseAddressRegister reg ix)
  decrease_holds : b.Holds (r.decreaseAddressRegister reg ix)
  increase_offset : b.offset (r.increaseAddressRegister reg ix) =
    (b.offset (r.ar reg) + ix.toInt) % ((r.wr reg).toNat + 1 : Nat)
  decrease_offset : b.offset (r.decreaseAddressRegister reg ix) =
    (b.offset (r.ar reg) - ix.toInt) % ((r.wr reg).toNat + 1 : Nat)
  decrease_increase :
    (r.setAr reg (r.increaseAddressRegister reg ix)).decreaseAddressRegister reg ix = r.ar reg
  increase_decrease :
    (r.setAr reg (r.decreaseAddressRegister reg ix)).increaseAddressRegister reg ix = r.ar reg

theorem walks {r : AddressRegisters} {reg : Fin 4} {b : CircularBuffer (r.wr reg)} {ix : BitVec 16}
    (h : b.Holds (r.ar reg)) (hix : |ix.toInt| ≤ (r.wr reg).toNat) (hmin : ix.toInt ≠ -0x8000) :
    r.Walks reg b ix := by
  have hup := offset_increase h hix
  have hdown := offset_decrease h hix hmin
  have hpos : (0 : Int) < ((r.wr reg).toNat + 1 : Nat) := by omega
  have hin := (b.holds_iff _).1 h
  have hsame : b.offset (r.ar reg) % ((r.wr reg).toNat + 1 : Nat) = b.offset (r.ar reg) :=
    Int.emod_eq_of_lt hin.1 (by omega)
  have hupin : b.Holds (r.increaseAddressRegister reg ix) := by
    rw [b.holds_iff, hup]
    exact ⟨Int.emod_nonneg _ (by omega), Int.emod_lt_of_pos _ hpos⟩
  have hdownin : b.Holds (r.decreaseAddressRegister reg ix) := by
    rw [b.holds_iff, hdown]
    exact ⟨Int.emod_nonneg _ (by omega), Int.emod_lt_of_pos _ hpos⟩
  refine ⟨hupin, hdownin, hup, hdown, b.offset_injective ?_, b.offset_injective ?_⟩
  · have hback := offset_decrease (r := r.setAr reg (r.increaseAddressRegister reg ix)) (b := b)
      (by rwa [setAr_ar]) hix hmin
    rw [setAr_ar, hup] at hback
    rw [hback]
    change ((b.offset (r.ar reg) + ix.toInt) % ((r.wr reg).toNat + 1 : Nat) - ix.toInt) %
      ((r.wr reg).toNat + 1 : Nat) = _
    rw [Int.emod_sub_emod, Int.add_sub_cancel, hsame]
  · have hback := offset_increase (r := r.setAr reg (r.decreaseAddressRegister reg ix)) (b := b)
      (by rwa [setAr_ar]) hix
    rw [setAr_ar, hdown] at hback
    rw [hback]
    change ((b.offset (r.ar reg) - ix.toInt) % ((r.wr reg).toNat + 1 : Nat) + ix.toInt) %
      ((r.wr reg).toNat + 1 : Nat) = _
    rw [Int.emod_add_emod, Int.sub_add_cancel, hsame]

/-- The four functions are one walk around the buffer. -/
theorem circular_addressing (r : AddressRegisters) (reg : Fin 4) :
    r.incrementAddressRegister reg = r.increaseAddressRegister reg 1 ∧
    r.decrementAddressRegister reg = r.decreaseAddressRegister reg 1 ∧
    ∀ (b : CircularBuffer (r.wr reg)) (ix : BitVec 16), b.Holds (r.ar reg) →
      |ix.toInt| ≤ (r.wr reg).toNat → ix.toInt ≠ -0x8000 → r.Walks reg b ix :=
  ⟨r.incrementAddressRegister_eq_increase reg, r.decrementAddressRegister_eq_decrease reg,
    fun _ _ h hix hmin => walks h hix hmin⟩

/-- Six addresses from 0x1002 to 0x1007. -/
def sixAddresses : CircularBuffer 5 where
  bits := 3
  start := 0x1000
  pos := by decide
  wr_lt := by decide
  least := fun j hj hlt => by
    match j, hj, hlt with
    | 1, _, hlt => exact absurd hlt (by decide)
    | 2, _, hlt => exact absurd hlt (by decide)
    | j + 3, _, _ => exact Nat.le_add_left 3 j
  aligned := by decide

theorem circular_addressing_six :
    (AddressRegisters.mk (fun _ => 0x1006) (fun _ => 5)).Walks 0 sixAddresses 3 :=
  (circular_addressing (.mk (fun _ => 0x1006) (fun _ => 5)) 0).2.2 sixAddresses 3 ⟨by decide, by decide⟩
    (by decide) (by decide)

end AddressRegisters

end DolphinXR.DSP
