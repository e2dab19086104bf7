import DolphinXR.Core.DSPAccelerator
import DolphinXR.Lib.SignedWord

/- What the samples of a voice are as numbers: the sample that is stored at an address, and the
   value that is made of it and of the two values before it. The accelerator computes them in
   words of 32 bits; only the prediction of an ADPCM sample can pass their range. -/
namespace DolphinXR.DSP.Accelerator
open Lib
variable {σ : Type}

/-- The sample at an address in the size of a format: half a byte, the upper half first, a byte, or
    two bytes, the upper one first. -/
def storedAt (o : Owner σ) (s : σ) (format : BitVec 16) (n : Nat) : Nat :=
  let byte := fun address => (o.readMemory s (BitVec.ofNat 32 address)).toNat
  match format.toNat % 4 with
  | 0 => if n % 2 = 0 then byte (n / 2) / 16 else byte (n / 2) % 16
  | 1 => byte n
  | 2 => 256 * byte (2 * n) + byte (2 * n + 1)
  | _ => 0

def coefsOf (coefs : Vector (BitVec 16) 16) (predScale : BitVec 16) : Int × Int :=
  ((coefs.get ⟨2 * (predScale.toNat / 16 % 8), by omega⟩).toInt,
    (coefs.get ⟨2 * (predScale.toNat / 16 % 8) + 1, by omega⟩).toInt)

def saturated (x : Int) : BitVec 16 := BitVec.ofInt 16 (max (-32768) (min x 32767))

/-- The value of an ADPCM sample: its signed nibble at the predictor's scale, and what is predicted
    of the two values before it. -/
def adpcmValue (coefs : Vector (BitVec 16) 16) (predScale : BitVec 16) (stored : Nat)
    (yn1 yn2 : BitVec 16) : BitVec 16 :=
  let c := coefsOf coefs predScale
  let predicted := (1024 + c.1 * yn1.toInt + c.2 * yn2.toInt).bmod (2 ^ 32) / 2048
  saturated (2 ^ (predScale.toNat % 16) * (stored : Int).bmod 16 + predicted)

/-- What a format divides PCM products by. -/
def gainScale (format : BitVec 16) : Int :=
  match format.toNat / 16 % 4 with
  | 0 => 2048
  | 2 => 65536
  | _ => 1

/-- The value of a PCM sample, of which the low sixteen bits are kept. -/
def pcmValue (format gain : BitVec 16) (coefs : Vector (BitVec 16) 16) (predScale : BitVec 16)
    (stored : Nat) (yn1 yn2 : BitVec 16) : BitVec 16 :=
  let c := coefsOf coefs predScale
  BitVec.ofInt 16 (gain.toInt * (stored : Int).bmod 65536 / gainScale format +
    (c.1 * yn1.toInt / gainScale format + c.2 * yn2.toInt / gainScale format))

/-! ### The stored samples -/

def sampleAt (o : Owner σ) (s : σ) (format : BitVec 16) (n : Nat) : BitVec 16 :=
  { initial with sampleFormat := format, currentAddress := BitVec.ofNat 32 n }.getCurrentSample o s

theorem toNat_sampleAt (o : Owner σ) (s : σ) (format : BitVec 16) {n : Nat} (hn : n < 2 ^ 30) :
    (sampleAt o s format n).toNat = storedAt o s format n := by
  have hbyte : ∀ address : BitVec 32,
      ((o.readMemory s address).setWidth 16).toNat = (o.readMemory s address).toNat := by
    intro address
    rw [BitVec.toNat_setWidth, Nat.mod_eq_of_lt (by omega)]
  have hhalf : BitVec.ofNat 32 n >>> 1 = BitVec.ofNat 32 (n / 2) := by
    apply BitVec.eq_of_toNat_eq
    rw [BitVec.toNat_ushiftRight, BitVec.toNat_ofNat, BitVec.toNat_ofNat,
      Nat.shiftRight_eq_div_pow]
    omega
  have heven : BitVec.ofNat 32 n &&& 1 = 0 ↔ n % 2 = 0 := by
    rw [← BitVec.toNat_inj, BitVec.toNat_and]
    change (BitVec.ofNat 32 n).toNat &&& 1 = 0 ↔ _
    rw [Nat.and_one_is_mod, BitVec.toNat_ofNat]
    omega
  have hdouble : BitVec.ofNat 32 n * 2 = BitVec.ofNat 32 (2 * n) := by
    rw [Nat.mul_comm, BitVec.ofNat_mul]
    rfl
  have hnext : BitVec.ofNat 32 n * 2 + 1 = BitVec.ofNat 32 (2 * n + 1) := by
    rw [hdouble, BitVec.ofNat_add]
    rfl
  have hfour : format.toNat % 4 = 0 ∨ format.toNat % 4 = 1 ∨ format.toNat % 4 = 2 ∨
      format.toNat % 4 = 3 := by omega
  rcases hfour with hsize | hsize | hsize | hsize
  · simp only [sampleAt, getCurrentSample, formatSize, storedAt, hsize, hhalf]
    by_cases hzero : n % 2 = 0
    · rw [if_pos (heven.2 hzero), if_pos hzero, BitVec.toNat_ushiftRight, hbyte,
        Nat.shiftRight_eq_div_pow]
    · rw [if_neg (fun h => hzero (heven.1 h)), if_neg hzero, BitVec.toNat_and, hbyte]
      exact Nat.and_two_pow_sub_one_eq_mod _ 4
  · simp only [sampleAt, getCurrentSample, formatSize, storedAt, hsize, hbyte]
  · simp only [sampleAt, getCurrentSample, formatSize, storedAt, hsize]
    rw [hnext, hdouble]
    have hlow := (o.readMemory s (BitVec.ofNat 32 (2 * n + 1))).isLt
    have hhigh := (o.readMemory s (BitVec.ofNat 32 (2 * n))).isLt
    rw [BitVec.toNat_or, BitVec.toNat_shiftLeft, hbyte, hbyte,
      Nat.mod_eq_of_lt (by rw [Nat.shiftLeft_eq]; omega), ← Nat.shiftLeft_add_eq_or_of_lt hlow,
      Nat.shiftLeft_eq]
    omega
  · simp only [sampleAt, getCurrentSample, formatSize, storedAt, hsize]
    rfl

/-! ### The values -/

theorem saturatingCast_eq (x : BitVec 32) : saturatingCast x = saturated x.toInt := by
  unfold saturatingCast saturated
  split
  next hhigh => rw [min_eq_right (by omega), max_eq_right (by decide)]; rfl
  next hhigh =>
    split
    next hlow => rw [min_eq_left (by omega), max_eq_left (by omega)]
    next hlow =>
      rw [min_eq_left (by omega), max_eq_right (by omega), ← BitVec.ofInt_toInt (x := x),
        SignedWord.setWidth_ofInt (by decide), BitVec.ofInt_toInt]

theorem mul_bounds (x y : BitVec 16) :
    -2 ^ 30 ≤ x.toInt * y.toInt ∧ x.toInt * y.toInt ≤ 2 ^ 30 := by
  have hx := x.le_toInt
  have hx' := x.toInt_lt
  have hy := y.le_toInt
  have hy' := y.toInt_lt
  norm_num at hx hx' hy hy'
  constructor
  · nlinarith
  · nlinarith

theorem mul_signExtend (x y : BitVec 16) :
    x.signExtend 32 * y.signExtend 32 = BitVec.ofInt 32 (x.toInt * y.toInt) :=
  (BitVec.ofInt_mul ..).symm

theorem getD_coefs (coefs : Vector (BitVec 16) 16) {i : Nat} (hi : i < 16) :
    coefs.toList.getD i 0 = coefs.get ⟨i, hi⟩ := by
  rw [List.getD_eq_getElem?_getD, List.getElem?_eq_getElem (by simpa using hi), Option.getD_some]
  simp [Vector.get]

theorem getD_coefIdx (coefs : Vector (BitVec 16) 16) (predScale : BitVec 16) :
    (coefs.toList.getD ((predScale >>> 4 &&& 0x7).toNat * 2) 0).toInt = (coefsOf coefs predScale).1 ∧
    (coefs.toList.getD ((predScale >>> 4 &&& 0x7).toNat * 2 + 1) 0).toInt =
      (coefsOf coefs predScale).2 := by
  have hidx : (predScale >>> 4 &&& 0x7).toNat = predScale.toNat / 16 % 8 := by
    rw [BitVec.toNat_and, BitVec.toNat_ushiftRight, Nat.shiftRight_eq_div_pow]
    exact Nat.and_two_pow_sub_one_eq_mod _ 3
  rw [hidx, Nat.mul_comm, getD_coefs coefs (by omega), getD_coefs coefs (by omega)]
  exact ⟨rfl, rfl⟩

theorem toInt_nibble (raw : BitVec 16) :
    (if 8 ≤ (raw &&& 0xF).toNat then (raw &&& 0xF) - 16 else raw &&& 0xF).toInt =
      (raw.toNat : Int).bmod 16 := by
  have hlow : (raw &&& 0xF).toNat = raw.toNat % 16 := by
    rw [BitVec.toNat_and]
    exact Nat.and_two_pow_sub_one_eq_mod _ 4
  rw [Int.bmod_def]
  split
  next hle =>
    have hsub : ((raw &&& 0xF) - 16).toNat = 65536 + raw.toNat % 16 - 16 := by
      rw [BitVec.toNat_sub, hlow]
      change (65536 - 16 + raw.toNat % 16) % 65536 = _
      omega
    rw [BitVec.toInt_eq_toNat_cond, hsub, if_neg (by omega), if_neg (by omega)]
    omega
  next hlt =>
    rw [BitVec.toInt_eq_toNat_cond, hlow, if_pos (by omega), if_pos (by omega)]
    omega

theorem scale_mul (predScale raw : BitVec 16) (hlow : -8 ≤ raw.toInt) (hhigh : raw.toInt ≤ 7) :
    ((1 <<< (predScale &&& 0xF).toNat : Nat) : BitVec 32) * raw.signExtend 32 =
        BitVec.ofInt 32 (2 ^ (predScale.toNat % 16) * raw.toInt) ∧
      -2 ^ 18 ≤ 2 ^ (predScale.toNat % 16) * raw.toInt ∧
      2 ^ (predScale.toNat % 16) * raw.toInt < 2 ^ 18 := by
  have hidx : (predScale &&& 0xF).toNat = predScale.toNat % 16 := by
    rw [BitVec.toNat_and]
    exact Nat.and_two_pow_sub_one_eq_mod _ 4
  have hlt : predScale.toNat % 16 < 16 := Nat.mod_lt _ (by decide)
  generalize predScale.toNat % 16 = k at hidx hlt
  have hpow : (1 : Int) ≤ 2 ^ k ∧ (2 : Int) ^ k ≤ 2 ^ 15 :=
    ⟨one_le_pow₀ (by norm_num), pow_le_pow_right₀ (by norm_num) (by omega)⟩
  refine ⟨?_, by nlinarith, by nlinarith⟩
  have hnat : (2 : Int) ^ k = ((2 ^ k : Nat) : Int) := by
    push_cast
    rfl
  rw [BitVec.ofInt_mul, hidx, hnat, BitVec.ofInt_natCast, Nat.shiftLeft_eq, Nat.one_mul]
  rfl

theorem decodeAdpcm_eq (coefs : Vector (BitVec 16) 16) (raw : BitVec 16) (a : Accelerator) :
    a.decodeAdpcm (coefs.toList.getD ((a.predScale >>> 4 &&& 0x7).toNat * 2) 0)
        (coefs.toList.getD ((a.predScale >>> 4 &&& 0x7).toNat * 2 + 1) 0) raw =
      adpcmValue coefs a.predScale raw.toNat a.yn1 a.yn2 := by
  obtain ⟨hone, htwo⟩ := getD_coefIdx coefs a.predScale
  have hnibble := toInt_nibble raw
  have hrange : -8 ≤ (raw.toNat : Int).bmod 16 ∧ (raw.toNat : Int).bmod 16 ≤ 7 := by
    rw [Int.bmod_def]
    split
    all_goals omega
  obtain ⟨hscaled, hlow, hhigh⟩ := scale_mul a.predScale
    (if 8 ≤ (raw &&& 0xF).toNat then (raw &&& 0xF) - 16 else raw &&& 0xF)
    (hnibble ▸ hrange.1) (hnibble ▸ hrange.2)
  rw [hnibble] at hscaled hlow hhigh
  unfold decodeAdpcm adpcmValue
  dsimp only
  rw [hscaled, mul_signExtend, mul_signExtend, hone, htwo]
  have hconst : (0x400 : BitVec 32) = BitVec.ofInt 32 1024 := rfl
  rw [hconst, ← BitVec.ofInt_add, ← BitVec.ofInt_add]
  generalize 1024 + (coefsOf coefs a.predScale).1 * a.yn1.toInt +
    (coefsOf coefs a.predScale).2 * a.yn2.toInt = z
  -- The sum is wrapped before it is shifted.
  have hwrap : BitVec.ofInt 32 z = BitVec.ofInt 32 (z.bmod (2 ^ 32)) := by
    apply BitVec.eq_of_toInt_eq
    rw [BitVec.toInt_ofInt, BitVec.toInt_ofInt, Int.bmod_bmod]
  have hlow' : -2 ^ 31 ≤ z.bmod (2 ^ 32) := by
    have := Int.le_bmod (x := z) (m := 2 ^ 32) (by decide)
    omega
  have hhigh' : z.bmod (2 ^ 32) < 2 ^ 31 := by
    have := Int.bmod_lt (x := z) (m := 2 ^ 32) (by decide)
    omega
  rw [hwrap]
  generalize z.bmod (2 ^ 32) = predicted at hlow' hhigh' ⊢
  have hbounds : -2 ^ 20 ≤ predicted / 2 ^ 11 ∧ predicted / 2 ^ 11 < 2 ^ 20 := by omega
  rw [SignedWord.sshiftRight_ofInt (by decide) hlow' hhigh', ← BitVec.ofInt_add,
    saturatingCast_eq, BitVec.toInt_ofInt_eq_self (by decide) (by omega) (by omega)]
  rfl

theorem decodePcm_eq (coefs : Vector (BitVec 16) 16) (raw : BitVec 16) (a : Accelerator) :
    a.decodePcm (coefs.toList.getD ((a.predScale >>> 4 &&& 0x7).toNat * 2) 0)
        (coefs.toList.getD ((a.predScale >>> 4 &&& 0x7).toNat * 2 + 1) 0) raw =
      pcmValue a.sampleFormat a.gain coefs a.predScale raw.toNat a.yn1 a.yn2 := by
  have hscale : (2 : Int) ^ a.gainShift = gainScale a.sampleFormat := by
    unfold gainShift gainScale
    split <;> simp_all
  obtain ⟨hone, htwo⟩ := getD_coefIdx coefs a.predScale
  have hraw : (raw.toNat : Int).bmod 65536 = raw.toInt := (BitVec.toInt_eq_toNat_bmod raw).symm
  have hshift : ∀ x y : BitVec 16, (BitVec.ofInt 32 (x.toInt * y.toInt)).sshiftRight a.gainShift =
      BitVec.ofInt 32 (x.toInt * y.toInt / gainScale a.sampleFormat) := by
    intro x y
    rw [← hscale]
    obtain ⟨hlow, hhigh⟩ := mul_bounds x y
    exact SignedWord.sshiftRight_ofInt (by decide) (by norm_num at hlow ⊢; omega)
      (by norm_num at hhigh ⊢; omega) _
  unfold decodePcm pcmValue
  dsimp only
  rw [mul_signExtend, mul_signExtend, mul_signExtend, hshift, hshift, hshift, ← BitVec.ofInt_add,
    ← BitVec.ofInt_add, SignedWord.setWidth_ofInt (by decide), hone, htwo, hraw]

end DolphinXR.DSP.Accelerator
