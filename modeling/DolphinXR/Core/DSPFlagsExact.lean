import DolphinXR.Core.DSPFlags

/- The result of every instruction as a whole number, and when its flags describe that result. The
   product register can hold numbers of 40 bits and more, and rounding can go past the greatest
   one: an instruction that hands such a number to the flags unwrapped fails its assertion. -/
namespace DolphinXR.DSP
open Lib.NarrowSigned

namespace Registers
variable (s : Registers)

def acc (reg : Fin 2) : Int := (s.getLongAcc reg).toInt

/-- `$axS` as a number. -/
def longAX (reg : Fin 2) : Int := (s.ax reg).h.toInt * 2 ^ 16 + (s.ax reg).l.toNat

theorem acc_fits (reg : Fin 2) : Fits 39 (s.acc reg) := (s.ac reg).fits

theorem longAX_fits (reg : Fin 2) : Fits 39 (s.longAX reg) := by
  have hl := (s.ax reg).l.isLt
  have hhigh : (s.ax reg).h.toInt < 2 ^ 15 := BitVec.toInt_lt
  have hlow : -2 ^ 15 ≤ (s.ax reg).h.toInt := BitVec.le_toInt _
  unfold Fits longAX
  omega

end Registers

theorem atMid_fits (x : BitVec 16) : Fits 39 (x.toInt * 2 ^ 16) := by
  have hhigh : x.toInt < 2 ^ 15 := BitVec.toInt_lt
  have hlow : -2 ^ 15 ≤ x.toInt := BitVec.le_toInt _
  unfold Fits
  omega

theorem shortImm_fits (x : BitVec 8) : Fits 39 (x.toInt * 2 ^ 16) := by
  have hhigh : x.toInt < 2 ^ 7 := BitVec.toInt_lt
  have hlow : -2 ^ 7 ≤ x.toInt := BitVec.le_toInt _
  unfold Fits
  omega

theorem half_fits (x : BitVec 16) : Fits 39 x.toNat := by
  have hlt := x.isLt
  unfold Fits
  omega

theorem roundHalfEven_fits_iff {x : Int} (hlow : -2 ^ 39 ≤ x) :
    Fits 39 (roundHalfEven x) ↔ x < 2 ^ 39 - 2 ^ 15 := by
  unfold Fits roundHalfEven
  split <;> omega

namespace Instr

attribute [local instance] Registers.neZero_regs
open Registers

/-- The accumulator that an instruction writes. -/
def dest (i : Instr) (opc : BitVec 16) : Option (Fin 2) :=
  match i with
  | tst | tstaxh | cmp | cmpaxh | cmpi | cmpis | tstprod => none
  | clr | abs | asr16 => some (regField opc 11)
  | lsrn | asrn => some 0
  | _ => some (regField opc 8)

/-- The result of an instruction, from the numbers in the registers. -/
def meaning (i : Instr) (opc imm : BitVec 16) (s : Registers) : Meaning :=
  let d := regField opc 8
  let ax := s.getAX opc
  let short := (opc.setWidth 8).toInt
  match i with
  | clr => .value 0
  | clrl => .value (roundHalfEven (s.acc d))
  | tst => .value (s.acc (regField opc 11))
  | tstaxh => .value ((s.getAXHigh d).toInt * 2 ^ 16)
  | cmp => .difference (s.acc 0) (s.acc 1)
  | cmpaxh => .difference (s.acc (regField opc 11)) ((s.getAXHigh (regField opc 12)).toInt * 2 ^ 16)
  | cmpi => .difference (s.acc d) (imm.toInt * 2 ^ 16)
  | cmpis => .difference (s.acc d) (short * 2 ^ 16)
  | xorr => .middle (midReplaced (s.acc d) (s.getAccMid d ^^^ s.getAXHigh (regField opc 9)))
  | andr => .middle (midReplaced (s.acc d) (s.getAccMid d &&& s.getAXHigh (regField opc 9)))
  | orr => .middle (midReplaced (s.acc d) (s.getAccMid d ||| s.getAXHigh (regField opc 9)))
  | andc => .middle (midReplaced (s.acc d) (s.getAccMid d &&& s.getAccMid (1 - d)))
  | orc => .middle (midReplaced (s.acc d) (s.getAccMid d ||| s.getAccMid (1 - d)))
  | xorc => .middle (midReplaced (s.acc d) (s.getAccMid d ^^^ s.getAccMid (1 - d)))
  | notc => .middle (midReplaced (s.acc d) (s.getAccMid d ^^^ 0xffff#16))
  | xori => .middle (midReplaced (s.acc d) (s.getAccMid d ^^^ imm))
  | andi => .middle (midReplaced (s.acc d) (s.getAccMid d &&& imm))
  | ori => .middle (midReplaced (s.acc d) (s.getAccMid d ||| imm))
  | addr => .sum (s.acc d) (ax.toInt * 2 ^ 16)
  | addax => .sum (s.acc d) (s.longAX (regField opc 9))
  | add => .sum (s.acc d) (s.acc (1 - d))
  | addp => .sum (s.acc d) s.prod.value
  | addaxl => .sum (s.acc d) (s.getAXLow (regField opc 9)).toNat
  | addi => .sum (s.acc d) (imm.toInt * 2 ^ 16)
  | addis => .sum (s.acc d) (short * 2 ^ 16)
  | incm => .sum (s.acc d) (2 ^ 16)
  | inc => .sum (s.acc d) 1
  | subr => .difference (s.acc d) (ax.toInt * 2 ^ 16)
  | subax => .difference (s.acc d) (s.longAX (regField opc 9))
  | sub => .difference (s.acc d) (s.acc (1 - d))
  | subp => .difference (s.acc d) s.prod.value
  | decm => .difference (s.acc d) (2 ^ 16)
  | dec => .difference (s.acc d) 1
  | neg => .difference 0 (s.acc d)
  | abs => .value (s.acc (regField opc 11)).natAbs
  | movr => .value (ax.toInt * 2 ^ 16)
  | movax => .value (s.longAX (regField opc 9))
  | mov => .value (s.acc (1 - d))
  | lsl16 => .value (s.acc d * 2 ^ 16)
  | lsr16 => .value (s.acc d % 2 ^ 40 / 2 ^ 16)
  | asr16 => .value (s.acc (regField opc 11) / 2 ^ 16)
  | lsl | asl => .value (s.acc d * 2 ^ leftShift opc)
  | lsr => .value (s.acc d % 2 ^ 40 / 2 ^ rightShift opc)
  | asr => .value (s.acc d / 2 ^ rightShift opc)
  | lsrn => .value (shifted (s.acc 0 % 2 ^ 40) (-shiftBy (s.getAccMid 1)))
  | asrn => .value (shifted (s.acc 0) (-shiftBy (s.getAccMid 1)))
  | lsrnrx => .value (shifted (s.acc d % 2 ^ 40) (shiftBy (s.getAXHigh (regField opc 9))))
  | asrnrx => .value (shifted (s.acc d) (shiftBy (s.getAXHigh (regField opc 9))))
  | lsrnr => .value (shifted (s.acc d % 2 ^ 40) (shiftBy (s.getAccMid (1 - d))))
  | asrnr => .value (shifted (s.acc d) (shiftBy (s.getAccMid (1 - d))))
  | tstprod | movp => .value s.prod.value
  | movnp => .value (-s.prod.value)
  | movpz => .value (roundHalfEven s.prod.value)

/-- The operand is one the instruction handles: a product of 40 bits, or one whose opposite or
    whose rounding has 40 bits, and an accumulator whose rounding has. -/
def InRange (i : Instr) (opc : BitVec 16) (s : Registers) : Prop :=
  match i with
  | clrl => s.acc (regField opc 8) < 2 ^ 39 - 2 ^ 15
  | addp | subp | tstprod | movp => s.prod.value < 2 ^ 39
  | movnp => -2 ^ 39 < s.prod.value ∧ s.prod.value ≤ 2 ^ 39
  | movpz => s.prod.value < 2 ^ 39 - 2 ^ 15
  | _ => True

end Instr

section Instructions
variable (s : Registers) (opc imm : BitVec 16)

theorem product_fits_iff : Fits 39 s.prod.value ↔ s.prod.value < 2 ^ 39 := by
  have hbounds := s.prod.value_bounds
  unfold Fits
  omega

theorem toInt_neg_product : (-s.getLongProduct).toInt = -s.prod.value := by
  have hbounds := s.prod.value_bounds
  rw [BitVec.toInt_neg, toInt_getLongProduct]
  exact Int.bmod_eq_of_le_mul_two (by omega) (by omega)

theorem toInt_getLongProductRounded :
    s.getLongProductRounded.toInt = roundHalfEven s.prod.value := by
  have hbounds := s.prod.value_bounds
  have hprod := toInt_getLongProduct s
  rw [← hprod]
  exact toInt_roundLongAcc (by omega) (by omega)

theorem toInt_abs {v : BitVec 64} (hfits : Fits 39 v.toInt) :
    (if v.slt 0#64 then 0#64 - v else v).toInt = v.toInt.natAbs := by
  obtain ⟨hlow, hhigh⟩ := hfits
  split
  · rename_i hneg
    rw [slt_zero_iff] at hneg
    rw [BitVec.toInt_sub, BitVec.toInt_zero, Int.bmod_eq_of_le_mul_two (by omega) (by omega)]
    omega
  · rename_i hneg
    rw [slt_zero_iff] at hneg
    omega

theorem toInt_half (x : BitVec 16) : (x.setWidth 64).toInt = x.toNat := by
  have hlt := x.isLt
  have hnat : (x.setWidth 64).toNat = x.toNat := BitVec.toNat_setWidth_of_le (by decide)
  rw [BitVec.toInt_eq_toNat_of_lt (by omega), hnat]

theorem tstaxh_describes :
    Describes (.value ((s.getAXHigh (Registers.regField opc 8)).toInt * 2 ^ 16)) none s
      (s.tstaxh opc) := by
  rw [Registers.tstaxh]
  generalize s.getAXHigh (Registers.regField opc 8) = h
  have hwrap : Meaning.wrapped (.value (h.toInt * 2 ^ 16)) = h.toInt * 2 ^ 16 :=
    wrap_of_fits (atMid_fits h)
  have hshown : Meaning.shown (.value (h.toInt * 2 ^ 16)) = h.toInt * 2 ^ 16 := hwrap
  have hhigh : h.toInt < 2 ^ 15 := BitVec.toInt_lt
  have hlow : -2 ^ 15 ≤ h.toInt := BitVec.le_toInt _
  have hcond := BitVec.toInt_eq_toNat_cond h
  refine ⟨holds_none rfl, updateSR16_shows ?_ ?_ ?_ ?_ (by simp [Meaning.Carry])
    (by simp [Meaning.Overflow])⟩
  · rw [hshown]
    omega
  · rw [hshown]
    omega
  · rw [hwrap]
    split at hcond <;> omega
  · rw [hwrap, Bool.false_eq_true, false_iff, not_not]
    unfold Fits
    omega

/-- The flags of an instruction, and the accumulator it writes, are those of its exact result, and
    its assertions hold, just when it is not given a number past 40 bits. -/
theorem flags_describe_result (i : Instr) :
    Describes (i.meaning opc imm s) (i.dest opc) s (i.run opc imm s) ↔ i.InRange opc s := by
  have hacc := s.acc_fits
  have hax := s.longAX_fits
  have hround (reg : Fin 2) : (roundLongAcc (s.getLongAcc reg)).toInt = roundHalfEven (s.acc reg) := by
    obtain ⟨hlow, hhigh⟩ := hacc reg
    exact toInt_roundLongAcc (by change _ ≤ s.acc reg; omega) (by change s.acc reg < _; omega)
  have hmovnp : Fits 39 (-s.prod.value) ↔ -2 ^ 39 < s.prod.value ∧ s.prod.value ≤ 2 ^ 39 := by
    unfold Fits
    omega
  cases i
  -- one result handed to the flags as it stands
  case clr => exact (moveAcc_describes rfl).trans (iff_true_intro (by decide))
  case clrl => exact (moveAcc_describes (hround _)).trans (roundHalfEven_fits_iff (hacc _).1)
  case movr => exact (moveAcc_describes (toInt_atMid _)).trans (iff_true_intro (atMid_fits _))
  case movax => exact (moveAcc_describes (toInt_getLongACX s _)).trans (iff_true_intro (hax _))
  case mov => exact (moveAcc_describes rfl).trans (iff_true_intro (hacc _))
  case movp => exact (moveAcc_describes (toInt_getLongProduct s)).trans (product_fits_iff s)
  case movnp => exact (moveAcc_describes (toInt_neg_product s)).trans hmovnp
  case movpz =>
    exact (moveAcc_describes (toInt_getLongProductRounded s)).trans
      (roundHalfEven_fits_iff s.prod.value_bounds.1)
  -- tests and comparisons
  case tst => exact (updateSR64_describes rfl).trans (iff_true_intro (hacc _))
  case tstprod => exact (updateSR64_describes (toInt_getLongProduct s)).trans (product_fits_iff s)
  case tstaxh => exact iff_true_intro (tstaxh_describes s opc)
  case cmp => exact (cmpAcc_describes rfl rfl (hacc _)).trans (iff_true_intro (hacc _))
  case cmpaxh | cmpi =>
    exact (cmpAcc_describes rfl (toInt_atMid _) (hacc _)).trans (iff_true_intro (atMid_fits _))
  case cmpis =>
    exact (cmpAcc_describes rfl (toInt_shortImm _) (hacc _)).trans (iff_true_intro (shortImm_fits _))
  -- the middle part
  case xorr | andr | orr | andc | orc | xorc | notc | xori | andi | ori =>
    exact iff_true_intro (logicAcc_describes rfl _)
  -- sums
  case addr | addi =>
    exact (addAcc_describes rfl (toInt_atMid _) (hacc _)).trans (iff_true_intro (atMid_fits _))
  case addax =>
    exact (addAcc_describes rfl (toInt_getLongACX s _) (hacc _)).trans (iff_true_intro (hax _))
  case add => exact (addAcc_describes rfl rfl (hacc _)).trans (iff_true_intro (hacc _))
  case addp =>
    exact (addAcc_describes rfl (toInt_getLongProduct s) (hacc _)).trans (product_fits_iff s)
  case addaxl =>
    exact (addAcc_describes rfl (toInt_half _) (hacc _)).trans (iff_true_intro (half_fits _))
  case addis =>
    exact (addAcc_describes rfl (toInt_shortImm _) (hacc _)).trans (iff_true_intro (shortImm_fits _))
  case incm | inc =>
    exact (addAcc_describes rfl (by decide) (hacc _)).trans (iff_true_intro (by decide))
  -- differences
  case subr =>
    exact (subAcc_describes rfl (toInt_atMid _) (hacc _)).trans (iff_true_intro (atMid_fits _))
  case subax =>
    exact (subAcc_describes rfl (toInt_getLongACX s _) (hacc _)).trans (iff_true_intro (hax _))
  case sub => exact (subAcc_describes rfl rfl (hacc _)).trans (iff_true_intro (hacc _))
  case subp =>
    exact (subAcc_describes rfl (toInt_getLongProduct s) (hacc _)).trans (product_fits_iff s)
  case decm | dec =>
    exact (subAcc_describes rfl (by decide) (hacc _)).trans (iff_true_intro (by decide))
  case neg => exact (subAcc_describes rfl rfl (by decide)).trans (iff_true_intro (hacc _))
  -- one result that is read back
  case abs => exact iff_true_intro (writeAcc_describes (congrArg _ (toInt_abs (hacc _))))
  case lsl16 | lsl | asl => exact iff_true_intro (writeAcc_describes (wrap_shiftLeft _ _))
  case lsr16 | lsr =>
    exact iff_true_intro (writeAcc_describes (congrArg _ (toInt_lopped_ushiftRight _ _)))
  case asr16 | asr =>
    exact iff_true_intro (writeAcc_describes (congrArg _ (toInt_sshiftRight_eq _ _)))
  case lsrn | lsrnrx | lsrnr => exact iff_true_intro (writeAcc_describes (wrap_logicalShift _ _))
  case asrn | asrnrx | asrnr => exact iff_true_intro (writeAcc_describes (wrap_arithmeticShift _ _))

end Instructions

/-- The greatest product: more than 40 bits hold. -/
def fullProduct : Registers where
  sr := 0#16
  prod := { l := 0#16, m := 0xffff#16, h := 0x7f#16, m2 := 0xffff#16 }
  ax := fun _ => { l := 0#16, h := 0#16 }
  ac := fun _ => .ofValue 0#64

/-- MOVP leaves a negative number in the accumulator, with the sign flag clear. -/
theorem flags_describe_result_fails :
    let r := Instr.movp.run 0x6e00#16 0#16 fullProduct
    (r.regs.getLongAcc 0).toInt < 0 ∧ r.regs.isSRFlagSet srSign = false ∧ r.asserted = false ∧
      ¬Describes (Instr.movp.meaning 0x6e00#16 0#16 fullProduct) (Instr.movp.dest 0x6e00#16)
        fullProduct r := by
  refine ⟨by decide, by decide, by decide, fun h => ?_⟩
  have hclear : ¬(Instr.movp.run 0x6e00#16 0#16 fullProduct).asserted = true := by decide
  exact hclear h.2.asserted

end DolphinXR.DSP
