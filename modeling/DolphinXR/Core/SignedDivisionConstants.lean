import DolphinXR.Core.DivUtils
import DolphinXR.Lib.DivisionByMultiplication

/- What the search for signed constants finds: it runs over the powers of two from `2 ^ 32` on, in
   each round with the exact quotients and remainders of the power, and stops at the first power
   that `Settles`. No step of it leaves its word, and it stops at `2 ^ 62` at the latest. -/
namespace DolphinXR.JitCommon
open Lib CheckedWord

/-- The distance of the power to the next multiple of `ad` leaves room for `anc`. -/
def Settles (ad anc p : Nat) : Prop := anc * (ad - 2 ^ p % ad) < 2 ^ p

instance (ad anc p : Nat) : Decidable (Settles ad anc p) :=
  inferInstanceAs (Decidable (_ < _))

structure FirstSettled (ad anc m : Nat) : Prop where
  le : 32 ≤ m
  settles : Settles ad anc m
  first : ∀ p, 32 ≤ p → p < m → ¬Settles ad anc p

/-- The exact state of the search after the power `2 ^ p`. -/
def Search.exact (ad anc p : Nat) : Search where
  p := p
  q1 := 2 ^ p / anc
  r1 := 2 ^ p % anc
  q2 := 2 ^ p / ad
  r2 := 2 ^ p % ad

section
variable {ad anc p m : Nat}

theorem double_eq {n d : Nat} (hd : 0 < d) (hd31 : d ≤ 2 ^ 31) (hq : n / d < 2 ^ 31) :
    double (n / d) (n % d) d = .ok (2 * n / d, 2 * n % d) := by
  have hr : n % d < d := Nat.mod_lt n hd
  have hn : 2 * n = d * (2 * (n / d)) + 2 * (n % d) := by
    calc 2 * n = 2 * (d * (n / d) + n % d) := by rw [Nat.div_add_mod]
      _ = d * (2 * (n / d)) + 2 * (n % d) := by ring
  rw [double, mul_eq_ok (by omega), ok_bind, mul_eq_ok (by omega), ok_bind]
  by_cases hge : n % d * 2 ≥ d
  · rw [if_pos hge, add_eq_ok (by omega), ok_bind, sub_eq_ok hge, ok_bind]
    have hn' : 2 * n = n % d * 2 - d + d * (n / d * 2 + 1) := by
      rw [hn, Nat.mul_add, Nat.mul_comm 2 (n / d)]
      omega
    have hlt : n % d * 2 - d < d := by omega
    rw [hn', Nat.add_mul_div_left _ _ hd, Nat.add_mul_mod_self_left, Nat.div_eq_of_lt hlt,
      Nat.mod_eq_of_lt hlt, Nat.zero_add]
    rfl
  · rw [if_neg hge]
    have hn' : 2 * n = n % d * 2 + d * (n / d * 2) := by
      rw [hn, Nat.mul_comm 2 (n / d)]
      omega
    have hlt : n % d * 2 < d := by omega
    rw [hn', Nat.add_mul_div_left _ _ hd, Nat.add_mul_mod_self_left, Nat.div_eq_of_lt hlt,
      Nat.mod_eq_of_lt hlt, Nat.zero_add]
    rfl

theorem next_exact (had : 0 < ad) (hanc : 0 < anc) (had31 : ad ≤ 2 ^ 31) (hanc31 : anc ≤ 2 ^ 31)
    (hp : p < 64) (hq1 : 2 ^ p / anc < 2 ^ 31) (hq2 : 2 ^ p / ad < 2 ^ 31) :
    (Search.exact ad anc p).next ad anc = .ok (Search.exact ad anc (p + 1)) := by
  have hpow : 2 ^ (p + 1) = 2 * 2 ^ p := by rw [Nat.pow_succ, Nat.mul_comm]
  rw [Search.next]
  simp only [Search.exact]
  rw [add_eq_ok (by omega), ok_bind, double_eq hanc hanc31 hq1, ok_bind,
    double_eq had had31 hq2, ok_bind, hpow]
  rfl

theorem goes_on_iff (hanc : 0 < anc) :
    (2 ^ p / anc < ad - 2 ^ p % ad ∨ 2 ^ p / anc = ad - 2 ^ p % ad ∧ 2 ^ p % anc = 0) ↔
      ¬Settles ad anc p := by
  have hdiv := Nat.div_add_mod (2 ^ p) anc
  have hmod : 2 ^ p % anc < anc := Nat.mod_lt _ hanc
  rw [Settles, Nat.not_lt]
  constructor
  · rintro (hlt | ⟨heq, hzero⟩)
    · have hle : anc * (2 ^ p / anc + 1) ≤ anc * (ad - 2 ^ p % ad) := Nat.mul_le_mul_left anc hlt
      rw [Nat.mul_succ] at hle
      omega
    · rw [← heq]
      omega
  · intro hle
    rcases Nat.lt_trichotomy (2 ^ p / anc) (ad - 2 ^ p % ad) with hlt | heq | hgt
    · exact .inl hlt
    · rw [← heq] at hle
      exact .inr ⟨heq, by omega⟩
    · have hge : anc * (ad - 2 ^ p % ad + 1) ≤ anc * (2 ^ p / anc) := Nat.mul_le_mul_left anc hgt
      rw [Nat.mul_succ] at hge
      omega

theorem room_of_not_settles (had : 0 < ad) (hanc : 0 < anc) (h : ¬Settles ad anc p) :
    2 ^ p / anc ≤ ad ∧ 2 ^ p / ad ≤ anc := by
  have hle : 2 ^ p ≤ anc * ad := by
    calc 2 ^ p ≤ anc * (ad - 2 ^ p % ad) := Nat.le_of_not_lt h
      _ ≤ anc * ad := Nat.mul_le_mul_left anc (Nat.sub_le _ _)
  constructor
  · calc 2 ^ p / anc ≤ anc * ad / anc := Nat.div_le_div_right hle
      _ = ad := Nat.mul_div_cancel_left ad hanc
  · calc 2 ^ p / ad ≤ anc * ad / ad := Nat.div_le_div_right hle
      _ = anc := Nat.mul_div_cancel anc had

theorem search_exact (had : 0 < ad) (hanc : 0 < anc) (had31 : ad < 2 ^ 31) (hanc31 : anc < 2 ^ 31)
    (hm : m ≤ 62) (hsettles : Settles ad anc m) (rounds : Nat) :
    ∀ p, p < m → m - p ≤ rounds → (∀ k, p < k → k < m → ¬Settles ad anc k) →
      2 ^ p / anc < 2 ^ 31 → 2 ^ p / ad < 2 ^ 31 →
      search ad anc rounds (Search.exact ad anc p) = .ok (some (Search.exact ad anc m)) := by
  induction rounds with
  | zero =>
    intro p hp hrounds
    omega
  | succ rounds ih =>
    intro p hp hrounds hfirst hq1 hq2
    have hdelta : CheckedWord.sub ad (Search.exact ad anc (p + 1)).r2 =
        .ok (ad - 2 ^ (p + 1) % ad) := sub_eq_ok (Nat.mod_lt _ had).le
    rw [search, next_exact had hanc had31.le hanc31.le (by omega) hq1 hq2, ok_bind, hdelta,
      ok_bind]
    change (if 2 ^ (p + 1) / anc < ad - 2 ^ (p + 1) % ad ∨
      2 ^ (p + 1) / anc = ad - 2 ^ (p + 1) % ad ∧ 2 ^ (p + 1) % anc = 0 then _ else _) = _
    rw [if_congr (goes_on_iff hanc) rfl rfl]
    rcases Nat.lt_or_eq_of_le hp with hlt | heq
    · have hun := hfirst (p + 1) (Nat.lt_succ_self p) hlt
      obtain ⟨hq1', hq2'⟩ := room_of_not_settles had hanc hun
      rw [if_pos hun]
      exact ih (p + 1) hlt (by omega) (fun k hk => hfirst k (by omega)) (by omega) (by omega)
    · rw [← heq] at hsettles ⊢
      rw [if_neg (not_not_intro hsettles)]
      rfl

theorem settles_succ (had : 0 < ad) (h : Settles ad anc p) : Settles ad anc (p + 1) := by
  have hmod : 2 ^ p % ad < ad := Nat.mod_lt _ had
  have hdelta : ad - 2 ^ (p + 1) % ad ≤ 2 * (ad - 2 ^ p % ad) := by
    have hpow : 2 ^ (p + 1) % ad = 2 * (2 ^ p % ad) % ad := by
      rw [Nat.pow_succ, Nat.mul_comm, Nat.mul_mod_mod]
    have hdiv := Nat.div_add_mod (2 * (2 ^ p % ad)) ad
    have hlt : 2 * (2 ^ p % ad) / ad < 2 := (Nat.div_lt_iff_lt_mul had).2 (by omega)
    rw [hpow]
    generalize 2 * (2 ^ p % ad) / ad = q at hdiv hlt
    obtain rfl | rfl : q = 0 ∨ q = 1 := by omega
    · omega
    · omega
  calc anc * (ad - 2 ^ (p + 1) % ad) ≤ anc * (2 * (ad - 2 ^ p % ad)) :=
      Nat.mul_le_mul_left anc hdelta
    _ = 2 * (anc * (ad - 2 ^ p % ad)) := by ring
    _ < 2 * 2 ^ p := Nat.mul_lt_mul_of_pos_left h (by norm_num)
    _ = 2 ^ (p + 1) := by rw [Nat.pow_succ, Nat.mul_comm]

theorem settles_of_le (had : 0 < ad) (h : Settles ad anc p) (hle : p ≤ m) : Settles ad anc m := by
  induction hle with
  | refl => exact h
  | step _ ih => exact settles_succ had ih

theorem settles_last (had31 : ad < 2 ^ 31) (hanc31 : anc < 2 ^ 31) : Settles ad anc 62 := by
  calc anc * (ad - 2 ^ 62 % ad) ≤ anc * ad := Nat.mul_le_mul_left anc (Nat.sub_le _ _)
    _ < 2 ^ 31 * 2 ^ 31 := Nat.mul_lt_mul'' hanc31 had31
    _ = 2 ^ 62 := by norm_num

theorem exists_firstSettled (had31 : ad < 2 ^ 31) (hanc31 : anc < 2 ^ 31) :
    ∃ m, FirstSettled ad anc m ∧ m ≤ 62 := by
  have hex : ∃ m, 32 ≤ m ∧ Settles ad anc m := ⟨62, by omega, settles_last had31 hanc31⟩
  refine ⟨Nat.find hex, ⟨(Nat.find_spec hex).1, (Nat.find_spec hex).2, ?_⟩, ?_⟩
  · intro p hp hlt hs
    exact Nat.find_min hex hlt ⟨hp, hs⟩
  · exact Nat.find_min' hex ⟨by omega, settles_last had31 hanc31⟩

end

/-! The signed constants. -/

/-- What `SignedDivisionConstants` is called with: the divisors that no simpler code serves. -/
structure SignedArgument (divisor : BitVec 32) : Prop where
  three_le : 3 ≤ divisor.toInt.natAbs
  not_pow : ∀ k, divisor.toInt.natAbs ≠ 2 ^ k

/-- `t` of the source. -/
def bound (divisor : BitVec 32) : Nat := two31 - if divisor.toInt < 0 then 1 else 0

/-- The largest number below `bound` that is one below a multiple of the divisor. -/
def anc (divisor : BitVec 32) : Nat :=
  bound divisor - 1 - bound divisor % divisor.toInt.natAbs

theorem bound_cases (divisor : BitVec 32) :
    bound divisor = 2 ^ 31 ∨ bound divisor = 2 ^ 31 - 1 := by
  rw [bound, two31]
  split
  · exact .inr (by norm_num)
  · exact .inl (by norm_num)

theorem anc_eq (divisor : BitVec 32) : anc divisor =
    bound divisor / divisor.toInt.natAbs * divisor.toInt.natAbs - 1 := by
  have hdiv := Nat.div_add_mod' (bound divisor) divisor.toInt.natAbs
  rw [anc]
  omega

namespace SignedArgument
variable {divisor : BitVec 32} (h : SignedArgument divisor)
include h

theorem magnitude_lt : divisor.toInt.natAbs < 2 ^ 31 := by
  have hne : divisor.toInt.natAbs ≠ 2 ^ 31 := h.not_pow 31
  have hle : -2 ^ 31 ≤ divisor.toInt := BitVec.le_toInt divisor
  have hlt : divisor.toInt < 2 ^ 31 := BitVec.toInt_lt
  omega

theorem ne_intMin : divisor ≠ BitVec.intMin 32 := by
  intro heq
  exact h.not_pow 31 (by rw [heq]; decide)

theorem fits_pos : 0 < bound divisor / divisor.toInt.natAbs := by
  have hlt := h.magnitude_lt
  have hthree := h.three_le
  have hbound := bound_cases divisor
  exact Nat.div_pos (by omega) (by omega)

theorem two_le_anc : 2 ≤ anc divisor := by
  have hthree := h.three_le
  have hfits := Nat.le_mul_of_pos_left divisor.toInt.natAbs h.fits_pos
  rw [anc_eq divisor]
  omega

theorem anc_le : anc divisor ≤ 2 ^ 31 - 2 := by
  have hthree := h.three_le
  rw [anc]
  rcases bound_cases divisor with hb | hb
  · have hmod := DivisionByMultiplication.two_pow_mod_pos h.not_pow 31
    rw [hb]
    omega
  · omega

theorem multiplier_lt {m : Nat} (hm : FirstSettled divisor.toInt.natAbs (anc divisor) m) :
    2 ^ m / divisor.toInt.natAbs + 1 < 2 ^ 32 := by
  have hthree := h.three_le
  have had : 0 < divisor.toInt.natAbs := by omega
  have hanc := h.two_le_anc
  have hanc' := h.anc_le
  rcases Nat.lt_or_eq_of_le hm.le with hlt | heq
  · obtain ⟨k, rfl⟩ : ∃ k, m = k + 1 := ⟨m - 1, by omega⟩
    have hun := hm.first k (by omega) (by omega)
    obtain ⟨-, hroom⟩ := room_of_not_settles had (by omega) hun
    have hdouble : 2 ^ (k + 1) / divisor.toInt.natAbs ≤ 2 * (2 ^ k / divisor.toInt.natAbs) + 1 := by
      rw [Nat.pow_succ, Nat.div_le_iff_le_mul_add_pred had]
      have hdiv := Nat.div_add_mod (2 ^ k) divisor.toInt.natAbs
      have hmod := Nat.mod_lt (2 ^ k) had
      rw [Nat.mul_add, Nat.mul_left_comm]
      omega
    omega
  · rw [← heq]
    have : 2 ^ 32 / divisor.toInt.natAbs ≤ 2 ^ 32 / 3 := Nat.div_le_div_left hthree (by norm_num)
    omega

theorem multiplier_ne {m : Nat} (hm : 32 ≤ m) : 2 ^ m / divisor.toInt.natAbs + 1 ≠ 2 ^ 31 := by
  intro heq
  have hthree := h.three_le
  have had : 0 < divisor.toInt.natAbs := by omega
  have hlt := h.magnitude_lt
  have hpos := DivisionByMultiplication.two_pow_mod_pos h.not_pow m
  have hdiv := Nat.div_add_mod (2 ^ m) divisor.toInt.natAbs
  have hmod := Nat.mod_lt (2 ^ m) had
  -- the power is a multiple of 2 ^ 31 between two neighbouring ones
  have hsplit : 2 ^ m = 2 ^ 31 * 2 ^ (m - 31) := by rw [← Nat.pow_add]; congr 1; omega
  have hquot : 2 ^ m / divisor.toInt.natAbs = 2 ^ 31 - 1 := by omega
  rw [hquot] at hdiv
  rw [hsplit] at hdiv hmod hpos
  generalize 2 ^ (m - 31) = c at hdiv hmod hpos
  generalize (2 ^ 31 * c) % divisor.toInt.natAbs = r at hdiv hmod hpos
  omega

theorem signedMagic_eq {m : Nat} (hm : FirstSettled divisor.toInt.natAbs (anc divisor) m)
    (hm62 : m ≤ 62) :
    signedMagic divisor (Search.exact divisor.toInt.natAbs (anc divisor) m) = .ok {
      multiplier :=
        if divisor.toInt < 0 then -BitVec.ofNat 32 (2 ^ m / divisor.toInt.natAbs + 1)
        else BitVec.ofNat 32 (2 ^ m / divisor.toInt.natAbs + 1)
      shift := m - 32 } := by
  have hlt := h.multiplier_lt hm
  have hne := h.multiplier_ne hm.le
  have hneg : BitVec.ofNat 32 (2 ^ m / divisor.toInt.natAbs + 1) ≠ BitVec.intMin 32 := by
    intro heq
    have htoNat := congrArg BitVec.toNat heq
    rw [BitVec.toNat_ofNat, Nat.mod_eq_of_lt hlt] at htoNat
    exact hne htoNat
  have hshift : (m - 32) % 2 ^ 8 = m - 32 := Nat.mod_eq_of_lt (by omega)
  rw [signedMagic]
  change (CheckedWord.add 32 (2 ^ m / divisor.toInt.natAbs) 1 >>= _) = _
  rw [add_eq_ok hlt, ok_bind]
  by_cases hsign : divisor.toInt < 0
  · rw [if_pos hsign, if_pos hsign, neg_eq_ok hneg, ok_bind]
    change (CheckedWord.sub m 32 >>= _) = _
    rw [sub_eq_ok hm.le, ok_bind, hshift]
    rfl
  · rw [if_neg hsign, if_neg hsign]
    change (CheckedWord.sub m 32 >>= _) = _
    rw [sub_eq_ok hm.le, ok_bind, hshift]
    rfl

theorem signedDivisionConstants_eq {m rounds : Nat}
    (hm : FirstSettled divisor.toInt.natAbs (anc divisor) m) (hm62 : m ≤ 62)
    (hrounds : 31 ≤ rounds) :
    signedDivisionConstants rounds divisor = .ok (some {
      multiplier :=
        if divisor.toInt < 0 then -BitVec.ofNat 32 (2 ^ m / divisor.toInt.natAbs + 1)
        else BitVec.ofNat 32 (2 ^ m / divisor.toInt.natAbs + 1)
      shift := m - 32 }) := by
  have hthree := h.three_le
  have had : 0 < divisor.toInt.natAbs := by omega
  have hlt := h.magnitude_lt
  have hanc := h.two_le_anc
  have hanc' := h.anc_le
  have hle := hm.le
  have hquot : ∀ {d : Nat}, 2 ≤ d → 2 ^ 31 / d < 2 ^ 31 := by
    intro d hd
    exact Nat.div_lt_self (by norm_num) hd
  have hsearch := search_exact had (by omega) hlt (by omega) hm62 hm.settles rounds 31 (by omega)
    (by omega) (fun k hk hk' => hm.first k (by omega) hk') (hquot hanc) (hquot (by omega))
  have hbound : CheckedWord.sub two31 (if divisor.toInt < 0 then 1 else 0) =
      .ok (bound divisor) := sub_eq_ok (by rw [two31]; split <;> omega)
  have hb := bound_cases divisor
  have hlast : CheckedWord.sub (bound divisor - 1) (bound divisor % divisor.toInt.natAbs) =
      .ok (anc divisor) := sub_eq_ok (by have := Nat.mod_lt (bound divisor) had; omega)
  have hmul : ∀ d, CheckedWord.mul 32 (two31 / d) d = .ok (two31 / d * d) := fun d =>
    mul_eq_ok (Nat.lt_of_le_of_lt (Nat.div_mul_le_self two31 d) (by decide))
  have hrest : ∀ d, CheckedWord.sub two31 (two31 / d * d) = .ok (two31 % d) := fun d => by
    rw [sub_eq_ok (Nat.div_mul_le_self two31 d)]
    have := Nat.div_add_mod' two31 d
    congr 1
    omega
  have hstart : Search.mk 31 (two31 / anc divisor) (two31 % anc divisor)
      (two31 / divisor.toInt.natAbs) (two31 % divisor.toInt.natAbs) =
      Search.exact divisor.toInt.natAbs (anc divisor) 31 := rfl
  rw [signedDivisionConstants, abs_eq_ok h.ne_intMin, ok_bind, hbound, ok_bind,
    sub_eq_ok (by omega), ok_bind, mod_eq_ok had, ok_bind, hlast, ok_bind, div_eq_ok (by omega),
    ok_bind, hmul, ok_bind, hrest, ok_bind, div_eq_ok had, ok_bind, hmul, ok_bind, hrest, ok_bind,
    hstart, hsearch, ok_bind]
  change (signedMagic divisor (Search.exact divisor.toInt.natAbs (anc divisor) m) >>= _) = _
  rw [h.signedMagic_eq hm hm62, ok_bind]
  rfl

theorem multiplier_mul (m : Nat) :
    (2 ^ m / divisor.toInt.natAbs + 1) * divisor.toInt.natAbs =
      2 ^ m + (divisor.toInt.natAbs - 2 ^ m % divisor.toInt.natAbs) := by
  have hthree := h.three_le
  have hdiv := Nat.div_add_mod' (2 ^ m) divisor.toInt.natAbs
  have hmod : 2 ^ m % divisor.toInt.natAbs < divisor.toInt.natAbs := Nat.mod_lt _ (by omega)
  rw [Nat.succ_mul]
  omega

/-- The error of the multiplier is small enough for the magnitude of every dividend, that of the
    least one excepted where the divisor divides its successor. -/
theorem error_lt {m N : Nat} (hm : FirstSettled divisor.toInt.natAbs (anc divisor) m)
    (hN : N ≤ 2 ^ 31) (hlast : N = 2 ^ 31 → ¬divisor.toInt.natAbs ∣ 2 ^ 31 + 1) :
    N * (divisor.toInt.natAbs - 2 ^ m % divisor.toInt.natAbs) <
      (divisor.toInt.natAbs - N % divisor.toInt.natAbs) * 2 ^ m := by
  have hthree := h.three_le
  have had : 0 < divisor.toInt.natAbs := by omega
  have hb := bound_cases divisor
  have hK := Nat.lt_mul_div_succ (bound divisor) had
  rw [Nat.mul_comm] at hK
  apply DivisionByMultiplication.error_lt hthree h.fits_pos
  · rw [← anc_eq divisor]
    exact hm.settles
  · omega
  · intro hmod
    have hsucc : N + 1 = (N / divisor.toInt.natAbs + 1) * divisor.toInt.natAbs := by
      have hdiv := Nat.div_add_mod' N divisor.toInt.natAbs
      rw [Nat.succ_mul]
      omega
    have hdvd : divisor.toInt.natAbs ∣ N + 1 := ⟨N / divisor.toInt.natAbs + 1, by
      rw [hsucc, Nat.mul_comm]⟩
    have hle : N + 1 ≤ bound divisor := by
      by_contra hgt
      have hN' : N + 1 = 2 ^ 31 ∨ N = 2 ^ 31 := by omega
      rcases hN' with hpow | hmax
      · have hzero := DivisionByMultiplication.two_pow_mod_pos h.not_pow 31
        rw [← hpow, Nat.mod_eq_zero_of_dvd hdvd] at hzero
        exact absurd hzero (Nat.lt_irrefl 0)
      · rw [hmax] at hdvd
        exact hlast hmax hdvd
    have hfits : N / divisor.toInt.natAbs + 1 ≤ bound divisor / divisor.toInt.natAbs :=
      (Nat.le_div_iff_mul_le had).2 (by rw [← hsucc]; exact hle)
    have := Nat.mul_le_mul_right divisor.toInt.natAbs hfits
    omega

/-- Where the divisor divides the successor of the least dividend's magnitude, the search stops at
    once and the error just reaches the next multiple. -/
theorem error_eq {m : Nat} (hm : FirstSettled divisor.toInt.natAbs (anc divisor) m)
    (hdvd : divisor.toInt.natAbs ∣ 2 ^ 31 + 1) :
    m = 32 ∧ 2 ^ 31 * (divisor.toInt.natAbs - 2 ^ m % divisor.toInt.natAbs) =
      (divisor.toInt.natAbs - 2 ^ 31 % divisor.toInt.natAbs) * 2 ^ m := by
  have hthree := h.three_le
  have had : 0 < divisor.toInt.natAbs := by omega
  have hb := bound_cases divisor
  have hanc := anc_eq divisor
  have hfits := Nat.div_mul_le_self (bound divisor) divisor.toInt.natAbs
  obtain ⟨c, hc⟩ := hdvd
  generalize divisor.toInt.natAbs = ad at *
  have hcpos : 0 < c := Nat.pos_of_ne_zero (by rintro rfl; omega)
  have hcomm : (c - 1) * ad + ad = ad * c := by
    obtain ⟨k, rfl⟩ : ∃ k, c = k + 1 := ⟨c - 1, by omega⟩
    rw [Nat.add_sub_cancel]
    ring
  have hmod31 : 2 ^ 31 % ad = ad - 1 := by
    have hsplit : 2 ^ 31 = ad - 1 + (c - 1) * ad := by omega
    rw [hsplit, Nat.add_mul_mod_self_right]
    exact Nat.mod_eq_of_lt (by omega)
  have hmod32 : 2 ^ 32 % ad = ad - 2 := by
    have hsplit : 2 ^ 32 = ad - 2 + ((c - 1) + c) * ad := by
      rw [Nat.add_mul, Nat.mul_comm c ad]
      omega
    rw [hsplit, Nat.add_mul_mod_self_right]
    exact Nat.mod_eq_of_lt (by omega)
  have hle : bound divisor / ad * ad ≤ (c - 1) * ad := by
    apply Nat.mul_le_mul_right
    have : bound divisor / ad < c := (Nat.div_lt_iff_lt_mul had).2 (by
      rw [Nat.mul_comm, ← hc]
      omega)
    omega
  have hm32 : m = 32 := by
    by_contra hne
    apply hm.first 32 (Nat.le_refl 32) (Nat.lt_of_le_of_ne hm.le (Ne.symm hne))
    have htwo : ad - 2 ^ 32 % ad = 2 := by omega
    rw [Settles, htwo]
    omega
  refine ⟨hm32, ?_⟩
  have hone : ad - 2 ^ 31 % ad = 1 := by omega
  have htwo : ad - 2 ^ 32 % ad = 2 := by omega
  rw [hm32, hone, htwo]
  norm_num

theorem multiplier_lt_iff {m : Nat} (hm : FirstSettled divisor.toInt.natAbs (anc divisor) m) :
    2 ^ m / divisor.toInt.natAbs + 1 < 2 ^ 31 ↔
      Settles divisor.toInt.natAbs (anc divisor) (31 + divisor.toInt.natAbs.log2) := by
  have hthree := h.three_le
  have had : 0 < divisor.toInt.natAbs := by omega
  have hne := h.multiplier_ne hm.le
  have hlow : 2 ^ divisor.toInt.natAbs.log2 ≤ divisor.toInt.natAbs := Nat.log2_self_le (by omega)
  have hhigh : divisor.toInt.natAbs < 2 ^ (divisor.toInt.natAbs.log2 + 1) := Nat.lt_log2_self
  have hlog : 1 ≤ divisor.toInt.natAbs.log2 := by
    by_contra hzero
    have : divisor.toInt.natAbs.log2 = 0 := by omega
    rw [this] at hhigh
    omega
  have hlow' := h.not_pow divisor.toInt.natAbs.log2
  have hiff : 2 ^ m / divisor.toInt.natAbs + 1 < 2 ^ 31 ↔ 2 ^ m < 2 ^ 31 * divisor.toInt.natAbs := by
    rw [← Nat.div_lt_iff_lt_mul had]
    omega
  rw [hiff]
  constructor
  · intro hlt
    have hpow : 2 ^ m < 2 ^ (32 + divisor.toInt.natAbs.log2) := by
      calc 2 ^ m < 2 ^ 31 * divisor.toInt.natAbs := hlt
        _ ≤ 2 ^ 31 * 2 ^ (divisor.toInt.natAbs.log2 + 1) := Nat.mul_le_mul_left _ hhigh.le
        _ = 2 ^ (32 + divisor.toInt.natAbs.log2) := by rw [← Nat.pow_add]; congr 1; omega
    have hle : m < 32 + divisor.toInt.natAbs.log2 := (Nat.pow_lt_pow_iff_right (by norm_num)).1 hpow
    exact settles_of_le had hm.settles (by omega)
  · intro hs
    have hle : m ≤ 31 + divisor.toInt.natAbs.log2 := by
      by_contra hgt
      exact hm.first _ (by omega) (by omega) hs
    calc 2 ^ m ≤ 2 ^ (31 + divisor.toInt.natAbs.log2) := Nat.pow_le_pow_right (by norm_num) hle
      _ = 2 ^ 31 * 2 ^ divisor.toInt.natAbs.log2 := Nat.pow_add 2 31 _
      _ < 2 ^ 31 * divisor.toInt.natAbs :=
        Nat.mul_lt_mul_of_pos_left (Nat.lt_of_le_of_ne hlow (Ne.symm hlow')) (by norm_num)

/-- The product with the multiplier, divided by the power with the sign made up for, is the
    quotient: of every dividend but the least one, and of that if the product is negative or the
    divisor does not divide its magnitude's successor. -/
theorem quotient_eq {m : Nat} (hm : FirstSettled divisor.toInt.natAbs (anc divisor) m) {n x : Int}
    (hn : n.natAbs ≤ 2 ^ 31)
    (hx : x = n * divisor.toInt.sign * (2 ^ m / divisor.toInt.natAbs + 1 : Nat))
    (hlast : n.natAbs = 2 ^ 31 → x < 0 ∨ ¬divisor.toInt.natAbs ∣ 2 ^ 31 + 1) :
    x / (2 ^ m : Nat) + (if x < 0 then 1 else 0) = n.tdiv divisor.toInt := by
  have hthree := h.three_le
  have had : 0 < divisor.toInt.natAbs := by omega
  have hne : divisor.toInt ≠ 0 := by omega
  have hmul := h.multiplier_mul m
  have hdelta : 0 < divisor.toInt.natAbs - 2 ^ m % divisor.toInt.natAbs := by
    have := Nat.mod_lt (2 ^ m) had
    omega
  have hsign : x < 0 ↔ n * divisor.toInt.sign < 0 := by
    rw [hx]
    constructor
    · intro hlt
      by_contra hge
      have := Int.mul_nonneg (Int.not_lt.1 hge)
        (Int.natCast_nonneg (2 ^ m / divisor.toInt.natAbs + 1))
      omega
    · intro hlt
      exact Int.mul_neg_of_neg_of_pos hlt (Int.natCast_pos.2 (Nat.succ_pos _))
  have habs : x.natAbs = (2 ^ m / divisor.toInt.natAbs + 1) * n.natAbs := by
    rw [hx, Int.natAbs_mul, Int.natAbs_mul, Int.natAbs_sign_of_ne_zero hne, Nat.mul_one,
      Int.natAbs_natCast, Nat.mul_comm]
  rw [DivisionByMultiplication.ediv_add_sign x (Nat.two_pow_pos m),
    DivisionByMultiplication.tdiv_eq_natAbs n hne, habs, if_congr hsign rfl rfl]
  by_cases hneg : n * divisor.toInt.sign < 0
  · rw [if_pos hneg, if_pos hneg]
    have hpos : 0 < n.natAbs := by
      by_contra hzero
      have hn0 : n = 0 := by omega
      rw [hn0, Int.zero_mul] at hneg
      exact absurd hneg (Int.lt_irrefl 0)
    have hle : n.natAbs * (divisor.toInt.natAbs - 2 ^ m % divisor.toInt.natAbs) ≤
        (divisor.toInt.natAbs - n.natAbs % divisor.toInt.natAbs) * 2 ^ m := by
      by_cases hexc : n.natAbs = 2 ^ 31 ∧ divisor.toInt.natAbs ∣ 2 ^ 31 + 1
      · rw [hexc.1]
        exact (h.error_eq hm hexc.2).2.le
      · exact (h.error_lt hm hn fun hmax hdvd => hexc ⟨hmax, hdvd⟩).le
    rw [DivisionByMultiplication.pred_mul_div_eq_div had (Nat.two_pow_pos m) hdelta hpos hmul hle]
  · rw [if_neg hneg, if_neg hneg]
    have hlt := h.error_lt hm hn fun hmax => (hlast hmax).resolve_left (mt hsign.1 hneg)
    rw [(DivisionByMultiplication.mul_div_eq_div_iff had (Nat.two_pow_pos m) hmul).2 hlt]

end SignedArgument

end DolphinXR.JitCommon
