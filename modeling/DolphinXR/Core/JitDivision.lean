import DolphinXR.Core.SignedDivisionConstants
import DolphinXR.Core.UnsignedDivisionConstants
import DolphinXR.Lib.SignedWord

/- The code that Jit64 emits for a division by a constant (the parts of `divwux` and `divwx` in
   Core/PowerPC/Jit64/Jit_Integer.cpp that use the constants, without the overflow flag), and the
   host instructions it is made of. A guest register is held, extended with zeros, by a host
   register of its own.

   To see which divisions are exact, the emitted code is run on registers that hold anything
   but the dividend; what it leaves is brought to the product of dividend and multiplier, divided by
   the power of the shift, of which the constants' modules say when it is the quotient. All unsigned
   divisors are exact. Negative ones are not if their multiplier needs the top bit, where the code
   shifts the wrong register, or if the search was stopped by a bound that leaves out the least
   dividend. -/
namespace DolphinXR.PowerPC.Jit64
open JitCommon Lib

inductive X64Reg where
  | rscratch
  | guest (i : Fin 32)
  deriving DecidableEq

abbrev Host := X64Reg → BitVec 64

/-- The instructions, with the width they work at; of 32 bits they clear the upper half of their
    target. Immediate operands of `IMUL` are sign-extended, shift counts taken modulo the width. -/
inductive Instr where
  | mov32 (dst src : X64Reg)
  | mov64 (dst src : X64Reg)
  | movImm32 (dst : X64Reg) (imm : BitVec 32)
  | movsx (dst src : X64Reg)
  | imul64 (dst src : X64Reg)
  | imulImm64 (dst src : X64Reg) (imm : BitVec 32)
  | add32 (dst src : X64Reg)
  | add64 (dst src : X64Reg)
  | sub32 (dst src : X64Reg)
  | shr32 (dst : X64Reg) (count : Nat)
  | shr64 (dst : X64Reg) (count : Nat)
  | sar32 (dst : X64Reg) (count : Nat)
  | sar64 (dst : X64Reg) (count : Nat)
  deriving DecidableEq

def low (x : BitVec 64) : BitVec 32 := x.setWidth 32

def write32 (host : Host) (dst : X64Reg) (value : BitVec 32) : Host :=
  Function.update host dst (value.setWidth 64)

def write64 (host : Host) (dst : X64Reg) (value : BitVec 64) : Host :=
  Function.update host dst value

def Instr.run (host : Host) : Instr → Host
  | mov32 dst src => write32 host dst (low (host src))
  | mov64 dst src => write64 host dst (host src)
  | movImm32 dst imm => write32 host dst imm
  | movsx dst src => write64 host dst ((low (host src)).signExtend 64)
  | imul64 dst src => write64 host dst (host dst * host src)
  | imulImm64 dst src imm => write64 host dst (host src * imm.signExtend 64)
  | add32 dst src => write32 host dst (low (host dst) + low (host src))
  | add64 dst src => write64 host dst (host dst + host src)
  | sub32 dst src => write32 host dst (low (host dst) - low (host src))
  | shr32 dst count => write32 host dst (low (host dst) >>> (count % 32))
  | shr64 dst count => write64 host dst (host dst >>> (count % 64))
  | sar32 dst count => write32 host dst ((low (host dst)).sshiftRight (count % 32))
  | sar64 dst count => write64 host dst ((host dst).sshiftRight (count % 64))

def run (code : List Instr) (host : Host) : Host := code.foldl Instr.run host

/-- `divwux` of the guest registers `d` and `a` by the divisor that the constants belong to. -/
def divwux (a d : Fin 32) (m : UnsignedMagic) : List Instr :=
  let ra := X64Reg.guest a
  let rd := X64Reg.guest d
  if !m.fast then
    [Instr.movImm32 .rscratch m.multiplier] ++
    (if d ≠ a then [Instr.mov32 rd ra] else []) ++
    [Instr.imul64 rd .rscratch,
     Instr.add64 rd .rscratch,
     Instr.shr64 rd (m.shift + 32)]
  else
    (if m.multiplier &&& 0x80000000#32 = 0#32 then
      [Instr.imulImm64 rd ra m.multiplier]
    else if d = a then
      [Instr.movImm32 .rscratch m.multiplier, Instr.imul64 rd .rscratch]
    else
      [Instr.movImm32 rd m.multiplier, Instr.imul64 rd ra]) ++
    [Instr.shr64 rd (m.shift + 32)]

/-- `divwx` of the guest registers `d` and `a` by `divisor`, whose constants these are. -/
def divwx (a d : Fin 32) (divisor : BitVec 32) (m : SignedMagic) : List Instr :=
  let ra := X64Reg.guest a
  let rd := X64Reg.guest d
  [Instr.movsx .rscratch ra] ++
  (if 0 < divisor.toInt ∧ m.multiplier.toInt < 0 then
    [Instr.imulImm64 rd .rscratch m.multiplier,
     Instr.shr64 rd 32,
     Instr.add32 rd .rscratch,
     Instr.shr32 .rscratch 31,
     Instr.sar32 rd m.shift]
  else if divisor.toInt < 0 ∧ 0 < m.multiplier.toInt then
    [Instr.imulImm64 rd .rscratch m.multiplier,
     Instr.shr64 .rscratch 32,
     Instr.sub32 .rscratch rd,
     Instr.mov32 rd .rscratch,
     Instr.shr32 rd 31,
     Instr.sar32 .rscratch m.shift]
  else if 0 < m.multiplier.toInt then
    [Instr.imulImm64 rd .rscratch m.multiplier,
     Instr.shr32 .rscratch 31,
     Instr.sar64 rd (32 + m.shift)]
  else
    [Instr.imulImm64 .rscratch .rscratch m.multiplier,
     Instr.mov64 rd .rscratch,
     Instr.shr64 .rscratch 63,
     Instr.sar64 rd (32 + m.shift)]) ++
  [Instr.add32 rd .rscratch]

/-! ### Running the code -/

section
variable (host : Host) (dst src r : X64Reg) (code : List Instr)

@[simp] theorem run_nil : run [] host = host := rfl

@[simp] theorem run_cons (i : Instr) : run (i :: code) host = run code (i.run host) := rfl

@[simp] theorem write32_same (value : BitVec 32) :
    write32 host dst value dst = value.setWidth 64 := Function.update_self _ _ _

@[simp] theorem write64_same (value : BitVec 64) :
    write64 host dst value dst = value := Function.update_self _ _ _

theorem write32_of_ne (h : r ≠ dst) (value : BitVec 32) : write32 host dst value r = host r :=
  Function.update_of_ne h _ _

theorem write64_of_ne (h : r ≠ dst) (value : BitVec 64) : write64 host dst value r = host r :=
  Function.update_of_ne h _ _

@[simp] theorem low_setWidth (x : BitVec 32) : low (x.setWidth 64) = x :=
  BitVec.setWidth_setWidth_of_le x (by norm_num) |>.trans (BitVec.setWidth_eq x)

@[simp] theorem low_setWidth_ushiftRight (x : BitVec 32) (n : Nat) :
    low (x.setWidth 64 >>> n) = x >>> n := by
  apply BitVec.eq_of_toNat_eq
  have hle : x.toNat >>> n < 2 ^ 32 := Nat.lt_of_le_of_lt (Nat.shiftRight_le _ _) x.isLt
  rw [low, BitVec.toNat_setWidth, BitVec.toNat_ushiftRight, BitVec.toNat_ushiftRight,
    BitVec.toNat_setWidth_of_le (by norm_num), Nat.mod_eq_of_lt hle]

end

section unsigned
variable {a d : Fin 32} {m : UnsignedMagic} {host : Host} {dividend : BitVec 32}

theorem run_divwux_slow (hm : m.fast = false) (hhost : host (.guest a) = dividend.setWidth 64) :
    run (divwux a d m) host (.guest d) =
      (dividend.setWidth 64 * m.multiplier.setWidth 64 + m.multiplier.setWidth 64) >>>
        ((m.shift + 32) % 64) := by
  by_cases hd : d = a
  · subst hd
    simp [divwux, hm, Instr.run, write32_of_ne, write64_of_ne, hhost]
  · simp [divwux, hm, hd, Instr.run, write32_of_ne, write64_of_ne, hhost]

theorem run_divwux_fast (hm : m.fast = true) (hhost : host (.guest a) = dividend.setWidth 64) :
    run (divwux a d m) host (.guest d) =
      (dividend.setWidth 64 * m.multiplier.setWidth 64) >>> ((m.shift + 32) % 64) := by
  by_cases htop : m.multiplier &&& 0x80000000#32 = 0#32
  · have hmsb : m.multiplier.msb = false := by
      have hbit := congrArg (BitVec.getLsbD · 31) htop
      simpa [BitVec.msb_eq_getLsbD_last] using hbit
    simp [divwux, hm, htop, Instr.run, hhost, BitVec.signExtend_eq_setWidth_of_msb_false hmsb]
  · by_cases hd : d = a
    · subst hd
      simp [divwux, hm, htop, Instr.run, write32_of_ne, hhost]
    · have hne : X64Reg.guest a ≠ .guest d := by simpa using Ne.symm hd
      simp [divwux, hm, htop, hd, Instr.run, write32_of_ne, hne, hhost, BitVec.mul_comm]

theorem toNat_mul_setWidth (x y : BitVec 32) :
    (x.setWidth 64 * y.setWidth 64).toNat = x.toNat * y.toNat := by
  have hx := x.isLt
  have hy := y.isLt
  have hlt : x.toNat * y.toNat < 2 ^ 64 := by
    calc x.toNat * y.toNat < 2 ^ 32 * 2 ^ 32 := Nat.mul_lt_mul'' hx hy
      _ = 2 ^ 64 := by norm_num
  rw [BitVec.toNat_mul, BitVec.toNat_setWidth_of_le (by norm_num),
    BitVec.toNat_setWidth_of_le (by norm_num), Nat.mod_eq_of_lt hlt]

theorem toNat_mul_add_setWidth (x y : BitVec 32) :
    (x.setWidth 64 * y.setWidth 64 + y.setWidth 64).toNat = y.toNat * (x.toNat + 1) := by
  have hx := x.isLt
  have hy := y.isLt
  have hlt : y.toNat * (x.toNat + 1) < 2 ^ 64 := by
    calc y.toNat * (x.toNat + 1) < 2 ^ 32 * 2 ^ 32 :=
        Nat.mul_lt_mul_of_lt_of_le hy hx (by norm_num)
      _ = 2 ^ 64 := by norm_num
  rw [BitVec.toNat_add, toNat_mul_setWidth, BitVec.toNat_setWidth_of_le (by norm_num),
    Nat.mul_comm x.toNat, ← Nat.mul_succ, Nat.mod_eq_of_lt hlt]

/-- The constants of the divisor are computed without leaving a word, and the code emitted for them
    leaves the quotient in the register of `d`, whatever else the host holds. -/
def UnsignedExact (divisor : BitVec 32) : Prop :=
  ∃ m, unsignedDivisionConstants divisor = .ok m ∧
    ∀ (a d : Fin 32) (dividend : BitVec 32) (host : Host),
      host (.guest a) = dividend.setWidth 64 →
        run (divwux a d m) host (.guest d) = (dividend / divisor).setWidth 64

theorem unsignedExact {divisor : BitVec 32} (h : UnsignedArgument divisor) :
    UnsignedExact divisor := by
  refine ⟨_, h.unsignedDivisionConstants_eq, ?_⟩
  intro a d dividend host hhost
  have hlog := h.log2_le
  have hm := h.multiplier_lt
  have hquot : ((dividend / divisor).setWidth 64).toNat = dividend.toNat / divisor.toNat := by
    rw [BitVec.toNat_setWidth_of_le (by norm_num), BitVec.toNat_udiv]
  apply BitVec.eq_of_toNat_eq
  rw [hquot]
  by_cases hup : RoundsUp divisor.toNat
  · have hreduced : (2 ^ (32 + divisor.toNat.log2) / divisor.toNat + 1) >>>
        trailingZeroes divisor.toNat < 2 ^ 32 :=
      Nat.lt_of_le_of_lt (Nat.shiftRight_le _ _) hm
    have hshift : (divisor.toNat.log2 - trailingZeroes divisor.toNat + 32) % 64 =
        32 + (divisor.toNat.log2 - trailingZeroes divisor.toNat) := by omega
    rw [if_pos hup, run_divwux_fast rfl hhost, BitVec.toNat_ushiftRight, toNat_mul_setWidth,
      BitVec.toNat_ofNat, Nat.mod_eq_of_lt hreduced, hshift, Nat.shiftRight_eq_div_pow,
      h.reduced_mul_div, h.round_up hup dividend.isLt]
  · have hshift : (divisor.toNat.log2 + 32) % 64 = 32 + divisor.toNat.log2 := by omega
    rw [if_neg hup, run_divwux_slow rfl hhost, BitVec.toNat_ushiftRight, toNat_mul_add_setWidth,
      BitVec.toNat_ofNat, Nat.mod_eq_of_lt (by omega), hshift, Nat.shiftRight_eq_div_pow,
      h.round_down hup dividend.isLt]

end unsigned

section signed
variable {a d : Fin 32} {divisor : BitVec 32} {m : SignedMagic} {host : Host} {dividend : BitVec 32}

def product (dividend : BitVec 32) (m : SignedMagic) : BitVec 64 :=
  dividend.signExtend 64 * m.multiplier.signExtend 64

theorem low_signExtend (x : BitVec 32) : low (x.signExtend 64) = x := by
  rw [BitVec.signExtend, low, SignedWord.setWidth_ofInt (by norm_num), BitVec.ofInt_toInt]

theorem run_divwx_pos_neg (hd : 0 < divisor.toInt) (hm : m.multiplier.toInt < 0)
    (hhost : host (.guest a) = dividend.setWidth 64) :
    run (divwx a d divisor m) host (.guest d) =
      ((low (product dividend m >>> 32) + dividend).sshiftRight (m.shift % 32) +
        dividend >>> 31).setWidth 64 := by
  simp [divwx, hd, hm, Instr.run, write32_of_ne, write64_of_ne, hhost, low_signExtend, product]

theorem run_divwx_neg_pos (hd : divisor.toInt < 0) (hm : 0 < m.multiplier.toInt)
    (hhost : host (.guest a) = dividend.setWidth 64) :
    run (divwx a d divisor m) host (.guest d) =
      ((low (dividend.signExtend 64 >>> 32) - low (product dividend m)) >>> 31 +
        (low (dividend.signExtend 64 >>> 32) - low (product dividend m)).sshiftRight
          (m.shift % 32)).setWidth 64 := by
  have hd' : ¬0 < divisor.toInt := by omega
  simp [divwx, hd, hd', hm, Instr.run, write32_of_ne, write64_of_ne, hhost, product]

theorem run_divwx_pos_pos (hd : 0 < divisor.toInt) (hm : 0 < m.multiplier.toInt)
    (hhost : host (.guest a) = dividend.setWidth 64) :
    run (divwx a d divisor m) host (.guest d) =
      (low ((product dividend m).sshiftRight ((32 + m.shift) % 64)) +
        dividend >>> 31).setWidth 64 := by
  have hd' : ¬divisor.toInt < 0 := by omega
  have hm' : ¬m.multiplier.toInt < 0 := by omega
  simp [divwx, hd, hd', hm, hm', Instr.run, write32_of_ne, write64_of_ne, hhost, low_signExtend,
    product]

theorem run_divwx_neg_neg (hd : divisor.toInt < 0) (hm : m.multiplier.toInt < 0)
    (hhost : host (.guest a) = dividend.setWidth 64) :
    run (divwx a d divisor m) host (.guest d) =
      (low ((product dividend m).sshiftRight ((32 + m.shift) % 64)) +
        low (product dividend m >>> 63)).setWidth 64 := by
  have hd' : ¬0 < divisor.toInt := by omega
  have hm' : ¬0 < m.multiplier.toInt := by omega
  simp [divwx, hd', hm', Instr.run, write64_of_ne, hhost, product]

theorem low_ofInt (z : Int) : low (BitVec.ofInt 64 z) = BitVec.ofInt 32 z :=
  SignedWord.setWidth_ofInt (by norm_num) z

theorem product_eq (dividend : BitVec 32) (m : SignedMagic) :
    product dividend m = BitVec.ofInt 64 (dividend.toInt * m.multiplier.toInt) := by
  rw [product, BitVec.signExtend, BitVec.signExtend, BitVec.ofInt_mul]

theorem product_bounds (x y : BitVec 32) :
    -2 ^ 62 ≤ x.toInt * y.toInt ∧ x.toInt * y.toInt ≤ 2 ^ 62 := by
  have hx : |x.toInt| ≤ 2 ^ 31 := abs_le.2 ⟨BitVec.le_toInt x, BitVec.toInt_lt.le⟩
  have hy : |y.toInt| ≤ 2 ^ 31 := abs_le.2 ⟨BitVec.le_toInt y, BitVec.toInt_lt.le⟩
  have hxy : |x.toInt * y.toInt| ≤ 2 ^ 62 := by
    rw [abs_mul]
    calc |x.toInt| * |y.toInt| ≤ 2 ^ 31 * 2 ^ 31 :=
        mul_le_mul hx hy (abs_nonneg _) (by norm_num)
      _ = 2 ^ 62 := by norm_num
  exact abs_le.1 hxy

theorem sign_bit (x : BitVec 32) : x >>> 31 = BitVec.ofInt 32 (if x.toInt < 0 then 1 else 0) := by
  have hsign := SignedWord.ushiftRight_sign (w := 32) (by norm_num) (BitVec.le_toInt x)
    BitVec.toInt_lt
  rw [BitVec.ofInt_toInt] at hsign
  exact hsign

theorem low_product_sar {k : Nat} :
    low ((product dividend m).sshiftRight k) =
      BitVec.ofInt 32 (dividend.toInt * m.multiplier.toInt / 2 ^ k) := by
  obtain ⟨hlow, hhigh⟩ := product_bounds dividend m.multiplier
  rw [product_eq, SignedWord.sshiftRight_ofInt (by norm_num) (by norm_num; omega)
    (by norm_num; omega), low_ofInt]

theorem low_product_sign :
    low (product dividend m >>> 63) =
      BitVec.ofInt 32 (if dividend.toInt * m.multiplier.toInt < 0 then 1 else 0) := by
  obtain ⟨hlow, hhigh⟩ := product_bounds dividend m.multiplier
  have hsign := SignedWord.ushiftRight_sign (w := 64) (by norm_num) (by norm_num; omega)
    (by norm_num; omega : dividend.toInt * m.multiplier.toInt < 2 ^ (64 - 1))
  rw [product_eq]
  exact (congrArg low hsign).trans (low_ofInt _)

theorem low_product_high :
    low (product dividend m >>> 32) =
      BitVec.ofInt 32 (dividend.toInt * m.multiplier.toInt / 2 ^ 32) := by
  rw [product_eq]
  exact SignedWord.setWidth_ushiftRight_ofInt 32 32 _

theorem toInt_ofNat_lt {M : Nat} (hM : M < 2 ^ 31) : (BitVec.ofNat 32 M).toInt = M := by
  rw [BitVec.toInt_eq_toNat_of_lt (by rw [BitVec.toNat_ofNat]; omega), BitVec.toNat_ofNat,
    Nat.mod_eq_of_lt (by omega)]

theorem toInt_ofNat_ge {M : Nat} (hM : 2 ^ 31 ≤ M) (hM' : M < 2 ^ 32) :
    (BitVec.ofNat 32 M).toInt = M - 2 ^ 32 := by
  rw [BitVec.toInt_eq_toNat_cond, BitVec.toNat_ofNat, Nat.mod_eq_of_lt hM', if_neg (by omega)]
  norm_num

theorem toInt_neg_ofNat_lt {M : Nat} (hM : M < 2 ^ 31) : (-BitVec.ofNat 32 M).toInt = -M := by
  rw [BitVec.neg_ofNat_eq_ofInt_neg, BitVec.toInt_ofInt_eq_self (by norm_num)]
  · norm_num
    omega
  · norm_num
    omega

theorem toInt_neg_ofNat_gt {M : Nat} (hM : 2 ^ 31 < M) (hM' : M < 2 ^ 32) :
    (-BitVec.ofNat 32 M).toInt = 2 ^ 32 - M := by
  have hwrap : -BitVec.ofNat 32 M = BitVec.ofNat 32 (2 ^ 32 - M) := by
    apply BitVec.eq_of_toNat_eq
    rw [BitVec.toNat_neg, BitVec.toNat_ofNat, BitVec.toNat_ofNat, Nat.mod_eq_of_lt hM']
  rw [hwrap, toInt_ofNat_lt (by omega)]
  omega

theorem high_bounds (x : BitVec 32) {M : Nat} (hM : M ≤ 2 ^ 32) :
    -2 ^ 31 ≤ x.toInt * M / 2 ^ 32 ∧ x.toInt * M / 2 ^ 32 < 2 ^ 31 := by
  have hlow : -2 ^ 31 ≤ x.toInt := BitVec.le_toInt x
  have hlt : x.toInt < 2 ^ 31 := BitVec.toInt_lt
  have hhigh : x.toInt + 1 ≤ 2 ^ 31 := Int.add_one_le_of_lt hlt
  have hM' : (M : Int) ≤ 2 ^ 32 := by exact_mod_cast hM
  have hM0 : (0 : Int) ≤ M := Int.natCast_nonneg M
  constructor
  · rw [Int.le_ediv_iff_mul_le (by norm_num)]
    nlinarith only [mul_nonneg (sub_nonneg.2 hlow) hM0, hM']
  · rw [Int.ediv_lt_iff_lt_mul (by norm_num)]
    nlinarith only [mul_nonneg (sub_nonneg.2 hhigh) hM0, hM']

theorem run_divwx_pos {M k : Nat} (hd : 0 < divisor.toInt) (hM : 0 < M) (hM' : M < 2 ^ 32)
    (hk : 32 ≤ k) (hk' : k ≤ 62) (hhost : host (.guest a) = dividend.setWidth 64) :
    run (divwx a d divisor { multiplier := BitVec.ofNat 32 M, shift := k - 32 }) host (.guest d) =
      (BitVec.ofInt 32 (dividend.toInt * M / (2 ^ k : Nat) +
        if dividend.toInt * M < 0 then 1 else 0)).setWidth 64 := by
  have hsign : dividend.toInt * M < 0 ↔ dividend.toInt < 0 := by
    have hM'' : (0 : Int) < M := by omega
    rw [mul_neg_iff]
    omega
  rw [if_congr hsign rfl rfl, BitVec.ofInt_add, ← sign_bit]
  push_cast
  by_cases hsmall : M < 2 ^ 31
  · have hm := toInt_ofNat_lt hsmall
    have hshift : (32 + (k - 32)) % 64 = k := by omega
    rw [run_divwx_pos_pos hd (by rw [hm]; omega) hhost, low_product_sar, hm, hshift]
  · -- the multiplier has lost `2 ^ 32`, which adding the dividend to the upper half makes up for
    have hm := toInt_ofNat_ge (Nat.le_of_not_lt hsmall) hM'
    have hshift : (k - 32) % 32 = k - 32 := by omega
    have hadd : dividend.toInt * (M - 2 ^ 32) / 2 ^ 32 + dividend.toInt =
        dividend.toInt * M / 2 ^ 32 := by
      have hsplit : dividend.toInt * M = dividend.toInt * (M - 2 ^ 32) + dividend.toInt * 2 ^ 32 := by
        ring
      rw [hsplit, Int.add_mul_ediv_right _ _ (by norm_num)]
    have hhigh : low (product dividend { multiplier := BitVec.ofNat 32 M, shift := k - 32 } >>> 32) +
        dividend = BitVec.ofInt 32 (dividend.toInt * M / 2 ^ 32) := by
      rw [low_product_high, hm]
      nth_rewrite 2 [← BitVec.ofInt_toInt (x := dividend)]
      rw [← BitVec.ofInt_add, hadd]
    obtain ⟨hlow, hup⟩ := high_bounds dividend hM'.le
    have hpow : (2 : Int) ^ k = 2 ^ 32 * 2 ^ (k - 32) := by
      rw [← pow_add]
      congr 1
      omega
    rw [run_divwx_pos_neg hd (by rw [hm]; omega) hhost, hhigh, hshift,
      SignedWord.sshiftRight_ofInt (by norm_num) hlow hup, Int.ediv_ediv_of_nonneg (by norm_num),
      ← hpow]

theorem run_divwx_neg {M k : Nat} (hd : divisor.toInt < 0) (hM : 0 < M) (hM' : M < 2 ^ 31)
    (hk : 32 ≤ k) (hk' : k ≤ 62) (hhost : host (.guest a) = dividend.setWidth 64) :
    run (divwx a d divisor { multiplier := -BitVec.ofNat 32 M, shift := k - 32 }) host (.guest d) =
      (BitVec.ofInt 32 (dividend.toInt * -M / (2 ^ k : Nat) +
        if dividend.toInt * -M < 0 then 1 else 0)).setWidth 64 := by
  have hm := toInt_neg_ofNat_lt hM'
  have hshift : (32 + (k - 32)) % 64 = k := by omega
  rw [run_divwx_neg_neg hd (by rw [hm]; omega) hhost, low_product_sar, low_product_sign, hm, hshift,
    ← BitVec.ofInt_add]
  push_cast
  rfl

/-- With a larger one, the code does not come to the quotient -1 of the divisor's magnitude: what
    it shifts is the error of the multiplier, which is not negative. -/
theorem run_divwx_neg_wrong {M k : Nat} (hd : divisor.toInt < 0)
    (hd' : divisor.toInt.natAbs < 2 ^ 31) (hM : 2 ^ 31 < M) (hM' : M < 2 ^ 32)
    (hk : 32 ≤ k) (hk' : k ≤ 62) {δ : Nat} (hδ : δ < 2 ^ 31)
    (hmul : M * divisor.toInt.natAbs = 2 ^ k + δ)
    (hhost : host (.guest a) = (BitVec.ofNat 32 divisor.toInt.natAbs).setWidth 64) :
    run (divwx a d divisor { multiplier := -BitVec.ofNat 32 M, shift := k - 32 }) host (.guest d) ≠
      (BitVec.ofInt 32 ((BitVec.ofNat 32 divisor.toInt.natAbs).toInt.tdiv divisor.toInt)).setWidth
        64 := by
  have hm := toInt_neg_ofNat_gt hM hM'
  have had := toInt_ofNat_lt hd'
  have hquot : (divisor.toInt.natAbs : Int).tdiv divisor.toInt = -1 := by
    have habs : (divisor.toInt.natAbs : Int) = -divisor.toInt := by omega
    rw [habs, Int.neg_tdiv, Int.tdiv_self (by omega)]
  have hshift : (k - 32) % 32 = k - 32 := by omega
  have hhigh : low ((BitVec.ofNat 32 divisor.toInt.natAbs).signExtend 64 >>> 32) = 0#32 := by
    rw [BitVec.signExtend, had]
    refine (SignedWord.setWidth_ushiftRight_ofInt 32 32 _).trans ?_
    rw [Int.ediv_eq_zero_of_lt (by omega) (by omega)]
    rfl
  have hprod : low (product (BitVec.ofNat 32 divisor.toInt.natAbs)
      { multiplier := -BitVec.ofNat 32 M, shift := k - 32 }) = BitVec.ofInt 32 (-δ) := by
    have hcongr : (divisor.toInt.natAbs : Int) * (2 ^ 32 - M) =
        -δ + 2 ^ 32 * (divisor.toInt.natAbs - 2 ^ (k - 32)) := by
      have hpow : (2 : Int) ^ k = 2 ^ 32 * 2 ^ (k - 32) := by
        rw [← pow_add]
        congr 1
        omega
      have hmul' : (M : Int) * divisor.toInt.natAbs = 2 ^ k + δ := by exact_mod_cast hmul
      rw [hpow] at hmul'
      calc (divisor.toInt.natAbs : Int) * (2 ^ 32 - (M : Int))
          = 2 ^ 32 * (divisor.toInt.natAbs : Int) - (M : Int) * divisor.toInt.natAbs := by ring
        _ = 2 ^ 32 * (divisor.toInt.natAbs : Int) - (2 ^ 32 * 2 ^ (k - 32) + (δ : Int)) := by
          rw [hmul']
        _ = -(δ : Int) + 2 ^ 32 * ((divisor.toInt.natAbs : Int) - 2 ^ (k - 32)) := by ring
    rw [product_eq, low_ofInt, hm, had, hcongr, BitVec.ofInt_add, BitVec.ofInt_mul]
    have hzero : BitVec.ofInt 32 (2 ^ 32) = 0#32 := by decide
    rw [hzero, BitVec.zero_mul, BitVec.add_zero]
  have hvalue : (0#32 - BitVec.ofInt 32 (-δ)) >>> 31 +
      (0#32 - BitVec.ofInt 32 (-δ)).sshiftRight (k - 32) = BitVec.ofInt 32 (δ / 2 ^ (k - 32)) := by
    have hneg : 0#32 - BitVec.ofInt 32 (-δ) = BitVec.ofInt 32 δ := by
      rw [BitVec.ofInt_neg, BitVec.zero_sub, BitVec.neg_neg]
    have hδ' : (δ : Int) < 2 ^ (32 - 1) := by exact_mod_cast hδ
    rw [hneg, SignedWord.ushiftRight_sign (w := 32) (by norm_num) (by omega) hδ',
      SignedWord.sshiftRight_ofInt (by norm_num) (by omega) hδ', if_neg (by omega),
      ← BitVec.ofInt_add, Int.zero_add]
  rw [run_divwx_neg_pos hd (by rw [hm]; omega) hhost, hhigh, hprod, hshift, hvalue, had, hquot]
  intro heq
  have hle : (δ : Int) / 2 ^ (k - 32) ≤ δ := Int.ediv_le_self _ (by omega)
  have hpos : (0 : Int) ≤ (δ : Int) / 2 ^ (k - 32) := Int.ediv_nonneg (by omega) (by positivity)
  have hone : (BitVec.ofInt 32 (-1)).toInt = -1 := by decide
  have hlow := congrArg low heq
  rw [low_setWidth, low_setWidth] at hlow
  have htoInt := congrArg BitVec.toInt hlow
  rw [BitVec.toInt_ofInt_eq_self (by norm_num) (by omega) (by omega), hone] at htoInt
  omega

/-- The search for the constants of the divisor ends with `m`, and no step of it leaves a word or
    divides by zero. -/
def SignedReturns (divisor : BitVec 32) (m : SignedMagic) : Prop :=
  ∃ enough, ∀ rounds, enough ≤ rounds → signedDivisionConstants rounds divisor = .ok (some m)

/-- The code emitted for the constants of the divisor leaves the quotient in the register of `d`,
    whatever else the host holds. -/
def SignedExact (divisor : BitVec 32) : Prop :=
  ∃ m, SignedReturns divisor m ∧
    ∀ (a d : Fin 32) (dividend : BitVec 32) (host : Host),
      host (.guest a) = dividend.setWidth 64 →
        run (divwx a d divisor m) host (.guest d) =
          (BitVec.ofInt 32 (dividend.toInt.tdiv divisor.toInt)).setWidth 64

/-- The divisors that the emitted code serves: the positive ones, and the negative ones whose
    multiplier fits into a signed word and whose magnitude does not divide `2 ^ 31 + 1`. -/
def Served (divisor : BitVec 32) : Prop :=
  0 < divisor.toInt ∨ ¬divisor.toInt.natAbs ∣ 2 ^ 31 + 1 ∧
    Settles divisor.toInt.natAbs (anc divisor) (31 + divisor.toInt.natAbs.log2)

instance (divisor : BitVec 32) : Decidable (Served divisor) :=
  inferInstanceAs (Decidable (_ ∨ _ ∧ _))

theorem signedReturns_unique {m m' : SignedMagic} (h : SignedReturns divisor m)
    (h' : SignedReturns divisor m') : m = m' := by
  obtain ⟨enough, h⟩ := h
  obtain ⟨enough', h'⟩ := h'
  have heq := (h (max enough enough') (Nat.le_max_left _ _)).symm.trans
    (h' (max enough enough') (Nat.le_max_right _ _))
  exact Option.some.inj (Except.ok.inj heq)

theorem exists_signedReturns (h : SignedArgument divisor) :
    ∃ k, FirstSettled divisor.toInt.natAbs (anc divisor) k ∧ k ≤ 62 ∧ SignedReturns divisor {
      multiplier :=
        if divisor.toInt < 0 then -BitVec.ofNat 32 (2 ^ k / divisor.toInt.natAbs + 1)
        else BitVec.ofNat 32 (2 ^ k / divisor.toInt.natAbs + 1)
      shift := k - 32 } := by
  have hanc := h.anc_le
  obtain ⟨k, hk, hk62⟩ := exists_firstSettled h.magnitude_lt (by omega : anc divisor < 2 ^ 31)
  exact ⟨k, hk, hk62, 31, fun rounds hrounds => h.signedDivisionConstants_eq hk hk62 hrounds⟩

theorem natAbs_toInt_le (x : BitVec 32) : x.toInt.natAbs ≤ 2 ^ 31 := by
  have hlow : -2 ^ 31 ≤ x.toInt := BitVec.le_toInt x
  have hhigh : x.toInt < 2 ^ 31 := BitVec.toInt_lt
  omega

theorem signedExact_of_pos (h : SignedArgument divisor) (hd : 0 < divisor.toInt) :
    SignedExact divisor := by
  obtain ⟨k, hk, hk62, hret⟩ := exists_signedReturns h
  have hd' : ¬divisor.toInt < 0 := by omega
  rw [if_neg hd'] at hret
  refine ⟨_, hret, ?_⟩
  intro a d dividend host hhost
  rw [run_divwx_pos hd (Nat.succ_pos _) (h.multiplier_lt hk) hk.le hk62 hhost]
  congr 2
  apply h.quotient_eq hk (natAbs_toInt_le dividend)
  · rw [Int.sign_eq_one_of_pos hd, Int.mul_one]
  · intro hmax
    -- only a negative dividend has this magnitude
    have hlt : dividend.toInt < 2 ^ 31 := BitVec.toInt_lt
    exact .inl (Int.mul_neg_of_neg_of_pos (by omega) (Int.natCast_pos.2 (Nat.succ_pos _)))

theorem signedExact_of_served (h : SignedArgument divisor) (hserved : Served divisor) :
    SignedExact divisor := by
  by_cases hd : 0 < divisor.toInt
  · exact signedExact_of_pos h hd
  · obtain ⟨hdvd, hsettles⟩ := hserved.resolve_left hd
    have hthree := h.three_le
    have hneg : divisor.toInt < 0 := by omega
    obtain ⟨k, hk, hk62, hret⟩ := exists_signedReturns h
    rw [if_pos hneg] at hret
    refine ⟨_, hret, ?_⟩
    intro a d dividend host hhost
    rw [run_divwx_neg hneg (Nat.succ_pos _) ((h.multiplier_lt_iff hk).2 hsettles) hk.le hk62 hhost]
    congr 2
    apply h.quotient_eq hk (natAbs_toInt_le dividend)
    · rw [Int.sign_eq_neg_one_of_neg hneg]
      ring
    · exact fun _ => .inr hdvd

theorem run_divwx_min_wrong (h : SignedArgument divisor) {k : Nat}
    (hk : FirstSettled divisor.toInt.natAbs (anc divisor) k) (hk62 : k ≤ 62)
    (hneg : divisor.toInt < 0) (hdvd : divisor.toInt.natAbs ∣ 2 ^ 31 + 1)
    (hsmall : 2 ^ k / divisor.toInt.natAbs + 1 < 2 ^ 31)
    (hhost : host (.guest a) = (BitVec.intMin 32).setWidth 64) :
    run (divwx a d divisor {
        multiplier := -BitVec.ofNat 32 (2 ^ k / divisor.toInt.natAbs + 1)
        shift := k - 32 }) host (.guest d) ≠
      (BitVec.ofInt 32 ((BitVec.intMin 32).toInt.tdiv divisor.toInt)).setWidth 64 := by
  have hthree := h.three_le
  have had : 0 < divisor.toInt.natAbs := by omega
  have hmul := h.multiplier_mul k
  have hle := hk.le
  have hmin : (BitVec.intMin 32).toInt = -2 ^ 31 := by decide
  have hquot : (-2 ^ 31 : Int).tdiv divisor.toInt = (2 ^ 31 / divisor.toInt.natAbs : Nat) := by
    rw [DivisionByMultiplication.tdiv_eq_natAbs _ (by omega), Int.sign_eq_neg_one_of_neg hneg,
      if_neg (by norm_num)]
    rfl
  rw [run_divwx_neg (M := 2 ^ k / divisor.toInt.natAbs + 1) hneg (Nat.succ_pos _) hsmall hk.le
    hk62 hhost, hmin, hquot]
  generalize 2 ^ k / divisor.toInt.natAbs + 1 = M at hmul hsmall ⊢
  have hnum : (-2 ^ 31 : Int) * -M / (2 ^ k : Nat) = (M * 2 ^ 31 / 2 ^ k : Nat) := by
    have hprod : (-2 ^ 31 : Int) * -M = (M * 2 ^ 31 : Nat) := by
      push_cast
      ring
    rw [hprod, Int.natCast_ediv]
  have hnonneg : ¬(-2 ^ 31 : Int) * -M < 0 := by omega
  rw [hnum, if_neg hnonneg, Int.add_zero]
  intro heq
  have hlow := congrArg low heq
  rw [low_setWidth, low_setWidth, BitVec.ofInt_natCast, BitVec.ofInt_natCast] at hlow
  have htoNat := congrArg BitVec.toNat hlow
  have hleft : M * 2 ^ 31 / 2 ^ k < 2 ^ 32 := by
    calc M * 2 ^ 31 / 2 ^ k ≤ M * 2 ^ 31 / 2 ^ 31 :=
        Nat.div_le_div_left (Nat.pow_le_pow_right (by norm_num) (by omega)) (by norm_num)
      _ = M := Nat.mul_div_cancel M (by norm_num)
      _ < 2 ^ 32 := by omega
  have hright : 2 ^ 31 / divisor.toInt.natAbs < 2 ^ 32 :=
    Nat.lt_of_le_of_lt (Nat.div_le_self _ _) (by norm_num)
  rw [BitVec.toNat_ofNat, BitVec.toNat_ofNat, Nat.mod_eq_of_lt hleft,
    Nat.mod_eq_of_lt hright] at htoNat
  have hlt := (DivisionByMultiplication.mul_div_eq_div_iff had (Nat.two_pow_pos k) hmul).1 htoNat
  rw [(h.error_eq hk hdvd).2] at hlt
  exact absurd hlt (Nat.lt_irrefl _)

/-- A multiplier of `2 ^ 31` or more, and a divisor whose magnitude divides `2 ^ 31 + 1`, go wrong
    at the divisor's magnitude and at the least dividend. -/
theorem served_of_signedExact (h : SignedArgument divisor) (hexact : SignedExact divisor) :
    Served divisor := by
  by_cases hd : 0 < divisor.toInt
  · exact .inl hd
  right
  have hthree := h.three_le
  have had : 0 < divisor.toInt.natAbs := by omega
  have hneg : divisor.toInt < 0 := by omega
  obtain ⟨k, hk, hk62, hret⟩ := exists_signedReturns h
  rw [if_pos hneg] at hret
  obtain ⟨m, hm, hruns⟩ := hexact
  obtain rfl := signedReturns_unique hret hm
  have hlt := h.multiplier_lt hk
  have hne := h.multiplier_ne hk.le
  have hsmall : 2 ^ k / divisor.toInt.natAbs + 1 < 2 ^ 31 := by
    by_contra hlarge
    have hδ : divisor.toInt.natAbs - 2 ^ k % divisor.toInt.natAbs < 2 ^ 31 :=
      Nat.lt_of_le_of_lt (Nat.sub_le _ _) h.magnitude_lt
    have hrun := hruns 0 0 (BitVec.ofNat 32 divisor.toInt.natAbs)
      (fun _ => (BitVec.ofNat 32 divisor.toInt.natAbs).setWidth 64) rfl
    exact run_divwx_neg_wrong hneg h.magnitude_lt (by omega) hlt hk.le hk62 hδ (h.multiplier_mul k)
      rfl hrun
  refine ⟨?_, (h.multiplier_lt_iff hk).1 hsmall⟩
  intro hdvd
  have hrun := hruns 0 0 (BitVec.intMin 32) (fun _ => (BitVec.intMin 32).setWidth 64) rfl
  exact run_divwx_min_wrong h hk hk62 hneg hdvd hsmall rfl hrun

end signed

/-- Every division by a constant that the recompiler leaves to the constants is exact. -/
def DivisionByConstantsExact : Prop :=
  (∀ divisor, UnsignedArgument divisor → UnsignedExact divisor) ∧
    ∀ divisor, SignedArgument divisor → SignedExact divisor

theorem ne_two_pow_of_odd {n : Nat} (hodd : n % 2 = 1) (hn : 1 < n) (k : Nat) : n ≠ 2 ^ k := by
  rintro rfl
  cases k with
  | zero => exact absurd hn (by norm_num)
  | succ k =>
    rw [Nat.pow_succ] at hodd
    omega

theorem signedArgument_of_odd {divisor : BitVec 32} (h : 3 ≤ divisor.toInt.natAbs)
    (hodd : divisor.toInt.natAbs % 2 = 1) : SignedArgument divisor :=
  ⟨h, ne_two_pow_of_odd hodd (by omega)⟩

/-- The constants are computed without a fault for every divisor. The unsigned divisions are all
    exact, and the signed ones by a divisor exactly if it is served. -/
theorem divisionByConstants_exact_iff (divisor : BitVec 32) :
    (UnsignedArgument divisor → UnsignedExact divisor) ∧
      (SignedArgument divisor →
        (∃ m, SignedReturns divisor m) ∧ (SignedExact divisor ↔ Served divisor)) := by
  refine ⟨fun h => unsignedExact h, fun h => ⟨?_, ?_⟩⟩
  · obtain ⟨k, -, -, hret⟩ := exists_signedReturns h
    exact ⟨_, hret⟩
  · exact ⟨served_of_signedExact h, signedExact_of_served h⟩

/-- Seven is served, in both ways, and its opposite is not. -/
theorem divisionByConstants_exact_iff_seven :
    UnsignedExact 7#32 ∧ SignedExact 7#32 ∧ ¬SignedExact (BitVec.ofInt 32 (-7)) := by
  have hseven : SignedArgument 7#32 := signedArgument_of_odd (by decide) (by decide)
  have hminus : SignedArgument (BitVec.ofInt 32 (-7)) :=
    signedArgument_of_odd (by decide) (by decide)
  refine ⟨?_, ?_, ?_⟩
  · exact (divisionByConstants_exact_iff 7#32).1
      ⟨by decide, ne_two_pow_of_odd (by decide) (by decide)⟩
  · exact ((divisionByConstants_exact_iff _).2 hseven).2.2 (by decide)
  · exact mt ((divisionByConstants_exact_iff _).2 hminus).2.1 (by decide)

/-- With -7 the code divides 7 to 1: it takes the upper half of the dividend where that of the
    product is wanted. -/
theorem divwx_seven_not_exact :
    signedDivisionConstants 31 (BitVec.ofInt 32 (-7)) =
        .ok (some { multiplier := 0x6DB6DB6D#32, shift := 2 }) ∧
      run (divwx 3 4 (BitVec.ofInt 32 (-7)) { multiplier := 0x6DB6DB6D#32, shift := 2 })
        (fun _ => 7#64) (.guest 4) = 1#64 ∧
      ¬DivisionByConstantsExact := by
  have harg : SignedArgument (BitVec.ofInt 32 (-7)) := signedArgument_of_odd (by decide) (by decide)
  refine ⟨by decide +kernel, by decide +kernel, ?_⟩
  intro hall
  exact absurd (served_of_signedExact harg (hall.2 _ harg)) (by decide)

end DolphinXR.PowerPC.Jit64
