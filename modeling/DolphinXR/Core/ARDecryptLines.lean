import Mathlib.Data.Bool.AllAny
import DolphinXR.Core.ARDecryptCipher

/- Which lines of encrypted Action Replay codes pass the parity check, and what their words tell:
   the lines up to the first that does not pass are accepted, and for lines of letters of the
   alphabet the words and the parity tell every character. -/
namespace DolphinXR.ActionReplay
open Common Lib

/-! ### Encrypted lines -/

theorem length_splitString (delim : Char) (t : Text) :
    ((splitString delim t).map List.length).sum + (splitString delim t).length ≤ t.length + 1 := by
  fun_induction splitString delim t with
  | case1 => exact Nat.zero_le _
  | case2 t ih =>
    simp only [List.map_cons, List.length_nil, List.sum_cons, List.length_cons]
    omega
  | case3 c t hc hsplit ih =>
    simp only [List.map_cons, List.map_nil, List.length_cons, List.length_nil, List.sum_cons,
      List.sum_nil]
    omega
  | case4 c t hc line rest hsplit ih =>
    rw [hsplit] at ih
    simp only [List.map_cons, List.sum_cons, List.length_cons] at ih ⊢
    omega

def IsEncrypted (line : Text) : Prop := ∃ text, deserializeLine text = .encrypted line

theorem IsEncrypted.length_eq {line : Text} (h : IsEncrypted line) :
    line.length = 13 ∧ '-' ∉ line := by
  obtain ⟨text, htext⟩ := h
  unfold deserializeLine at htext
  split at htext
  · cases htext
  · split at htext
    · rename_i a b c hsplit
      split at htext
      · rename_i hlength
        obtain rfl := ParsedLine.encrypted.inj htext
        have hpieces : ∀ piece ∈ [a, b, c], '-' ∉ piece :=
          fun piece hmem => not_mem_of_mem_splitString (hsplit ▸ hmem)
        simp only [List.forall_mem_cons] at hpieces
        constructor
        · simp only [List.length_append]
          omega
        · simp only [List.mem_append, not_or]
          exact ⟨⟨hpieces.1, hpieces.2.1⟩, hpieces.2.2.1⟩
      · cases htext
    · cases htext

theorem isEncrypted_of_length {line : Text} (hlength : line.length = 13) (h : '-' ∉ line) :
    IsEncrypted line := by
  obtain ⟨a, b, c, rfl, ha, hb, hc⟩ : ∃ a b c, line = a ++ b ++ c ∧ a.length = 4 ∧ b.length = 4 ∧
      c.length = 5 := by
    refine ⟨line.take 4, (line.drop 4).take 4, (line.drop 4).drop 4, ?_, ?_, ?_, ?_⟩
    · rw [List.append_assoc, List.take_append_drop, List.take_append_drop]
    all_goals
      simp only [List.length_take, List.length_drop]
      omega
  simp only [List.mem_append, not_or] at h
  have hsplit : splitString '-' (a ++ '-' :: (b ++ '-' :: c)) = [a, b, c] := by
    rw [splitString_line h.1.1, splitString_line h.1.2, splitString_last h.2]
    intro hnil
    rw [hnil] at hc
    cases hc
  refine ⟨a ++ '-' :: (b ++ '-' :: c), ?_⟩
  have hnone : deserializeDecrypted (a ++ '-' :: (b ++ '-' :: c)) = none := by
    have hpieces := length_splitString ' ' (a ++ '-' :: (b ++ '-' :: c))
    unfold deserializeDecrypted
    split
    · rename_i addr val hsplit
      rw [hsplit] at hpieces
      simp only [List.map_cons, List.map_nil, List.sum_cons, List.sum_nil, List.length_cons,
        List.length_nil, List.length_append] at hpieces
      exact if_neg (by omega)
    · rfl
  unfold deserializeLine
  rw [hnone, hsplit]
  exact if_pos ⟨ha, hb, hc⟩

/-! ### Digits -/

def canonical : Text := filter.take 32

theorem strchr_canonical :
    ∀ c ∈ canonical, strchr filter (toUpper c) = some (canonical.idxOf c) :=
  List.all_iff_forall_prop.1 (by decide)

theorem getVal_of_strchr (missing : Word) {chr : Char} {i : Nat}
    (h : strchr filter (toUpper chr) = some i) (hi : i < 32) :
    getVal missing chr = BitVec.ofNat 32 i := by
  have hnat : (BitVec.ofNat 32 i).toNat = i := by
    rw [BitVec.toNat_ofNat, Nat.mod_eq_of_lt (by omega)]
  unfold getVal
  rw [h]
  dsimp only
  rw [hnat]
  split <;> first | omega | rfl

theorem getVal_canonical (missing : Word) {c : Char} (h : c ∈ canonical) :
    getVal missing c = BitVec.ofNat 32 (canonical.idxOf c) ∧ canonical.idxOf c < 32 :=
  have hlt := List.idxOf_lt_length_of_mem h
  ⟨getVal_of_strchr missing (strchr_canonical c h) hlt, hlt⟩

theorem getVal_lt (missing : Word) {c : Char} (h : c ∈ canonical) :
    (getVal missing c).toNat < 32 := by
  obtain ⟨hval, hlt⟩ := getVal_canonical missing h
  rw [hval, BitVec.toNat_ofNat]
  exact Nat.lt_of_le_of_lt (Nat.mod_le _ _) hlt

theorem getVal_injective (missing : Word) {c c' : Char} (h : c ∈ canonical) (h' : c' ∈ canonical)
    (heq : getVal missing c = getVal missing c') : c = c' := by
  obtain ⟨hval, hlt⟩ := getVal_canonical missing h
  obtain ⟨hval', hlt'⟩ := getVal_canonical missing h'
  rw [hval, hval'] at heq
  have hidx := congrArg BitVec.toNat heq
  rw [BitVec.toNat_ofNat, BitVec.toNat_ofNat, Nat.mod_eq_of_lt (by omega),
    Nat.mod_eq_of_lt (by omega)] at hidx
  exact (List.idxOf_inj h).1 hidx

def packed : Nat → List Word → Word → Word
  | _, [], value => value
  | shift, digit :: digits, value => packed (shift + 5) digits (value ||| (digit <<< shift))

theorem toNat_or_shiftLeft {value : Word} {shift : Nat} (hvalue : value.toNat < 2 ^ shift)
    (hshift : shift ≤ 32) (digit : Word) :
    (value ||| (digit <<< shift)).toNat =
      2 ^ shift * (digit.toNat % 2 ^ (32 - shift)) + value.toNat := by
  have hpow : 2 ^ 32 = 2 ^ shift * 2 ^ (32 - shift) := by
    rw [← Nat.pow_add, Nat.add_sub_of_le hshift]
  rw [BitVec.toNat_or, BitVec.toNat_shiftLeft, Nat.shiftLeft_eq, Nat.mul_comm digit.toNat, hpow,
    Nat.mul_mod_mul_left, Nat.or_comm, ← Nat.two_pow_add_eq_or_of_lt hvalue]

theorem or_shiftLeft_injective {value value' digit digit' : Word} {shift : Nat}
    (hvalue : value.toNat < 2 ^ shift) (hvalue' : value'.toNat < 2 ^ shift) (hshift : shift ≤ 32)
    (h : value ||| (digit <<< shift) = value' ||| (digit' <<< shift)) :
    value = value' ∧ digit.toNat % 2 ^ (32 - shift) = digit'.toNat % 2 ^ (32 - shift) := by
  have hnat := congrArg BitVec.toNat h
  rw [toNat_or_shiftLeft hvalue hshift, toNat_or_shiftLeft hvalue' hshift] at hnat
  have hlow := congrArg (· % 2 ^ shift) hnat
  have hhigh := congrArg (· / 2 ^ shift) hnat
  rw [Nat.mul_add_mod, Nat.mul_add_mod, Nat.mod_eq_of_lt hvalue, Nat.mod_eq_of_lt hvalue'] at hlow
  rw [Nat.mul_add_div (Nat.two_pow_pos shift), Nat.mul_add_div (Nat.two_pow_pos shift),
    Nat.div_eq_of_lt hvalue, Nat.div_eq_of_lt hvalue'] at hhigh
  exact ⟨BitVec.eq_of_toNat_eq hlow, hhigh⟩

theorem or_shiftLeft_lt {value digit : Word} {shift : Nat} (hvalue : value.toNat < 2 ^ shift)
    (hdigit : digit.toNat < 32) (hshift : shift + 5 ≤ 32) :
    (value ||| (digit <<< shift)).toNat < 2 ^ (shift + 5) := by
  have hroom : 2 ^ 5 ≤ 2 ^ (32 - shift) := Nat.pow_le_pow_right (by decide) (by omega)
  have hmul : 2 ^ shift * (digit.toNat + 1) ≤ 2 ^ shift * 2 ^ 5 := Nat.mul_le_mul_left _ (by omega)
  rw [toNat_or_shiftLeft hvalue (by omega), Nat.mod_eq_of_lt (by omega), Nat.pow_add]
  rw [Nat.mul_add_one] at hmul
  omega

theorem packed_lt {digits : List Word} {value : Word} {shift : Nat}
    (hvalue : value.toNat < 2 ^ shift) (hshift : shift + 5 * digits.length ≤ 32)
    (hdigits : ∀ digit ∈ digits, digit.toNat < 32) :
    (packed shift digits value).toNat < 2 ^ (shift + 5 * digits.length) := by
  induction digits generalizing value shift with
  | nil => exact hvalue
  | cons digit digits ih =>
    obtain ⟨hdigit, hdigits⟩ := List.forall_mem_cons.1 hdigits
    rw [List.length_cons] at hshift ⊢
    have hrest := ih (or_shiftLeft_lt hvalue hdigit (by omega)) (by omega) hdigits
    rwa [Nat.add_assoc, Nat.add_comm 5, ← Nat.mul_succ] at hrest

theorem ushiftRight_lt {x : Word} (h : x.toNat < 32) {n : Nat} (hn : n ≤ 5) :
    (x >>> n).toNat < 2 ^ (5 - n) := by
  rw [BitVec.toNat_ushiftRight, Nat.shiftRight_eq_div_pow,
    Nat.div_lt_iff_lt_mul (Nat.two_pow_pos n), ← Nat.pow_add, Nat.sub_add_cancel hn]
  exact h

theorem eq_of_ushiftRight {x y : Word} {n : Nat} (hhigh : x >>> n = y >>> n)
    (hlow : x.toNat % 2 ^ n = y.toNat % 2 ^ n) : x = y := by
  have hdiv := congrArg BitVec.toNat hhigh
  rw [BitVec.toNat_ushiftRight, BitVec.toNat_ushiftRight, Nat.shiftRight_eq_div_pow,
    Nat.shiftRight_eq_div_pow] at hdiv
  apply BitVec.eq_of_toNat_eq
  rw [← Nat.div_add_mod x.toNat (2 ^ n), ← Nat.div_add_mod y.toNat (2 ^ n), hdiv, hlow]

theorem packed_injective {digits digits' : List Word} {value value' : Word} {shift : Nat}
    (h : packed shift digits value = packed shift digits' value')
    (hvalue : value.toNat < 2 ^ shift) (hvalue' : value'.toNat < 2 ^ shift)
    (hshift : shift + 5 * digits.length ≤ 32) (hlength : digits.length = digits'.length)
    (hdigits : ∀ digit ∈ digits, digit.toNat < 32)
    (hdigits' : ∀ digit ∈ digits', digit.toNat < 32) : value = value' ∧ digits = digits' := by
  induction digits generalizing digits' value value' shift with
  | nil =>
    obtain rfl := List.length_eq_zero_iff.1 hlength.symm
    exact ⟨h, rfl⟩
  | cons digit digits ih =>
    obtain ⟨digit', digits', rfl⟩ := List.exists_cons_of_length_eq_add_one hlength.symm
    obtain ⟨hdigit, hdigits⟩ := List.forall_mem_cons.1 hdigits
    obtain ⟨hdigit', hdigits'⟩ := List.forall_mem_cons.1 hdigits'
    rw [List.length_cons] at hshift
    have hroom : 2 ^ 5 ≤ 2 ^ (32 - shift) := Nat.pow_le_pow_right (by decide) (by omega)
    obtain ⟨hor, rfl⟩ := ih h (or_shiftLeft_lt hvalue hdigit (by omega))
      (or_shiftLeft_lt hvalue' hdigit' (by omega)) (by omega)
      (Nat.succ.inj hlength) hdigits hdigits'
    obtain ⟨hvalues, hmod⟩ := or_shiftLeft_injective hvalue hvalue' (by omega) hor
    rw [Nat.mod_eq_of_lt (by omega), Nat.mod_eq_of_lt (by omega)] at hmod
    exact ⟨hvalues, congrArg (· :: digits) (BitVec.eq_of_toNat_eq hmod)⟩

/-! ### Words of a line -/

theorem exists_of_length {line : Text} (h : line.length = 13) :
    ∃ c0 c1 c2 c3 c4 c5 c6 c7 c8 c9 c10 c11 c12,
      line = [c0, c1, c2, c3, c4, c5, c6, c7, c8, c9, c10, c11, c12] :=
  match line, h with
  | [c0, c1, c2, c3, c4, c5, c6, c7, c8, c9, c10, c11, c12], _ =>
    ⟨c0, c1, c2, c3, c4, c5, c6, c7, c8, c9, c10, c11, c12, rfl⟩

theorem or_reverse (x a b c d e f : Word) :
    x ||| a ||| b ||| c ||| d ||| e ||| f = x ||| f ||| e ||| d ||| c ||| b ||| a := by ac_rfl

theorem or_eq_packed (value d0 d1 d2 d3 d4 d5 : Word) :
    value ||| (d0 <<< 27) ||| (d1 <<< 22) ||| (d2 <<< 17) ||| (d3 <<< 12) ||| (d4 <<< 7) |||
        (d5 <<< 2) = packed 2 [d5, d4, d3, d2, d1, d0] value := or_reverse ..

theorem or_eq_packed_or (value d6 d7 d8 d9 d10 d11 : Word) :
    value ||| (d6 <<< 29) ||| (d7 <<< 24) ||| (d8 <<< 19) ||| (d9 <<< 14) ||| (d10 <<< 9) |||
        (d11 <<< 4) = packed 4 [d11, d10, d9, d8, d7] value ||| (d6 <<< 29) := or_reverse ..

section
variable (missing : Word)

theorem alphaWords_eq (c0 c1 c2 c3 c4 c5 c6 c7 c8 c9 c10 c11 c12 : Char) :
    alphaWords missing [c0, c1, c2, c3, c4, c5, c6, c7, c8, c9, c10, c11, c12] =
      some (packed 2 [getVal missing c5, getVal missing c4, getVal missing c3, getVal missing c2,
          getVal missing c1, getVal missing c0] (getVal missing c6 >>> 3),
        packed 4 [getVal missing c11, getVal missing c10, getVal missing c9, getVal missing c8,
          getVal missing c7] (getVal missing c12 >>> 1) ||| (getVal missing c6 <<< 29)) := by
  have hfold : alphaWords missing [c0, c1, c2, c3, c4, c5, c6, c7, c8, c9, c10, c11, c12] =
      some ((getVal missing c6 >>> 3) ||| (getVal missing c0 <<< 27) |||
          (getVal missing c1 <<< 22) ||| (getVal missing c2 <<< 17) |||
          (getVal missing c3 <<< 12) ||| (getVal missing c4 <<< 7) ||| (getVal missing c5 <<< 2),
        (getVal missing c12 >>> 1) ||| (getVal missing c6 <<< 29) |||
          (getVal missing c7 <<< 24) ||| (getVal missing c8 <<< 19) |||
          (getVal missing c9 <<< 14) ||| (getVal missing c10 <<< 9) |||
          (getVal missing c11 <<< 4)) := rfl
  rw [hfold, or_eq_packed, or_eq_packed_or]

theorem alphaWords_inside {line : Text} (h : line.length = 13) :
    ∃ words, alphaWords missing line = some words := by
  obtain ⟨c0, c1, c2, c3, c4, c5, c6, c7, c8, c9, c10, c11, c12, rfl⟩ := exists_of_length h
  exact ⟨_, alphaWords_eq missing ..⟩

def Accepts (row : Text) : Prop :=
  ∀ words ∈ alphaWords missing row, ∀ c12 ∈ row[12]?,
    popcount (words.1 ^^^ words.2) % 2 = (getVal missing c12).toNat % 2

theorem toNat_and_one (x : Word) : (x &&& 1).toNat = x.toNat % 2 := by
  rw [BitVec.toNat_and]
  exact Nat.and_one_is_mod _

def wordsOf : List (Word × Word) → List Word
  | [] => []
  | pair :: pairs => pair.1 :: pair.2 :: wordsOf pairs

theorem convertAlphaToBinaryFrom_spec (alpha : List Text) (h : ∀ line ∈ alpha, line.length = 13)
    (currentIndex : Nat) (result : List Word) :
    ((∃ pairs, List.Forall₂ (fun line pair => alphaWords missing line = some pair) alpha pairs ∧
        convertAlphaToBinaryFrom missing currentIndex result alpha =
          some (.ok (result ++ wordsOf pairs))) ∧
      ∀ line ∈ alpha, Accepts missing line) ∨
    ∃ before line after, alpha = before ++ line :: after ∧
      convertAlphaToBinaryFrom missing currentIndex result alpha =
        some (.error (currentIndex + before.length)) ∧
      (∀ line ∈ before, Accepts missing line) ∧ ¬ Accepts missing line := by
  induction alpha generalizing currentIndex result with
  | nil =>
    refine .inl ⟨⟨[], .nil, ?_⟩, nofun⟩
    rw [wordsOf, List.append_nil]
    rfl
  | cons line alpha ih =>
    obtain ⟨hline, halpha⟩ := List.forall_mem_cons.1 h
    obtain ⟨⟨valueA, valueB⟩, hwords⟩ := alphaWords_inside missing hline
    obtain ⟨c12, hc12⟩ := getElem?_isSome (l := line) (i := 12) (by omega)
    have haccepts : Accepts missing line ↔
        popcount (valueA ^^^ valueB) % 2 = (getVal missing c12 &&& 1).toNat := by
      unfold Accepts
      rw [hwords, hc12, toNat_and_one]
      simp
    have hstep : convertAlphaToBinaryFrom missing currentIndex result (line :: alpha) =
        if popcount (valueA ^^^ valueB) % 2 ≠ (getVal missing c12 &&& 1).toNat
        then some (.error currentIndex)
        else convertAlphaToBinaryFrom missing (currentIndex + 1) (result ++ [valueA, valueB])
          alpha := by
      rw [convertAlphaToBinaryFrom, hwords, hc12]
      rfl
    rw [hstep]
    by_cases hparity : popcount (valueA ^^^ valueB) % 2 = (getVal missing c12 &&& 1).toNat
    case neg =>
      rw [if_pos hparity]
      exact .inr ⟨[], line, alpha, rfl, rfl, nofun, mt haccepts.1 hparity⟩
    case pos =>
      rw [if_neg (not_not_intro hparity)]
      rcases ih halpha (currentIndex + 1) (result ++ [valueA, valueB]) with
        ⟨⟨pairs, hpairs, hok⟩, hall⟩ | ⟨before, culprit, after, rfl, herror, hbefore, hculprit⟩
      · refine .inl ⟨⟨(valueA, valueB) :: pairs, .cons hwords hpairs, ?_⟩, ?_⟩
        · rw [hok, List.append_assoc]
          rfl
        · exact List.forall_mem_cons.2 ⟨haccepts.2 hparity, hall⟩
      · refine .inr ⟨line :: before, culprit, after, rfl, ?_, ?_, hculprit⟩
        · rw [herror, List.length_cons, Nat.add_right_comm, Nat.add_assoc]
        · exact List.forall_mem_cons.2 ⟨haccepts.2 hparity, hbefore⟩

/-- The lines whose parity check `DecryptARCode` accepts: those before the culprit. -/
def acceptedLines (encryptedLines : List Text) : List Text :=
  match convertAlphaToBinary missing encryptedLines with
  | some (.ok _) => encryptedLines
  | some (.error index) => encryptedLines.take index
  | none => []

theorem accepts_of_mem {lines : List Text} (h : ∀ line ∈ lines, line.length = 13) :
    ∀ line ∈ acceptedLines missing lines, line ∈ lines ∧ Accepts missing line := by
  unfold acceptedLines convertAlphaToBinary
  rcases convertAlphaToBinaryFrom_spec missing _ h 0 [] with
    ⟨⟨pairs, -, hok⟩, hall⟩ | ⟨before, culprit, after, rfl, herror, hbefore, -⟩
  · rw [hok]
    exact fun line hline => ⟨hline, hall line hline⟩
  · rw [herror]
    dsimp only
    rw [Nat.zero_add, List.take_left']
    · exact fun line hline => ⟨List.mem_append_left _ hline, hbefore line hline⟩
    · rfl

theorem decryptARCode_inside {lines : List Text} (h : ∀ line ∈ lines, line.length = 13)
    (result : List AREntry) : ∃ d, decryptARCode missing lines result = some d := by
  unfold decryptARCode
  cases lines with
  | nil => exact ⟨_, rfl⟩
  | cons line rest =>
    rw [List.isEmpty_cons, if_neg Bool.false_ne_true]
    unfold convertAlphaToBinary
    rcases convertAlphaToBinaryFrom_spec missing _ h 0 [] with
      ⟨⟨pairs, hpairs, hok⟩, -⟩ | ⟨before, culprit, after, hsplit, herror, -, -⟩
    · obtain ⟨pair, pairs, hpair, hpairs, rfl⟩ := List.forall₂_cons_left_iff.1 hpairs
      obtain ⟨first, tail, info, -, hbatch⟩ := batchDecrypt_inside (wordsOf (pair :: pairs))
        (List.cons_ne_nil _ _)
      rw [hok, Option.bind_eq_bind, Option.bind_some]
      dsimp only
      rw [List.nil_append, hbatch]
      cases info with
      | none => exact ⟨_, rfl⟩
      | some info => exact ⟨_, rfl⟩
    · rw [herror, hsplit]
      dsimp only [Option.bind_eq_bind, Option.bind_some, bind]
      rw [Nat.zero_add, List.getElem?_append_right (Nat.le_refl _), Nat.sub_self]
      exact ⟨_, rfl⟩

def IsCanonical (line : Text) : Prop := ∀ c ∈ line, c ∈ canonical

theorem IsCanonical.digit_lt {line : Text} (h : IsCanonical line) :
    ∀ digit ∈ line.map (getVal missing), digit.toNat < 32 :=
  List.forall_mem_map.2 fun c hc => getVal_lt missing (h c hc)

theorem IsCanonical.eq_of_digits {line line' : Text} (h : IsCanonical line)
    (h' : IsCanonical line') (heq : line.map (getVal missing) = line'.map (getVal missing)) :
    line = line' := by
  induction line generalizing line' with
  | nil => exact (List.map_eq_nil_iff.1 heq.symm).symm
  | cons c line ih =>
    obtain ⟨c', rest, rfl, hval, hrest⟩ := List.map_eq_cons_iff.1 heq.symm
    obtain ⟨hc, hline⟩ := List.forall_mem_cons.1 h
    obtain ⟨hc', hline'⟩ := List.forall_mem_cons.1 h'
    rw [getVal_injective missing hc hc' hval.symm, ih hline hline' hrest.symm]

theorem alphaWords_injective {line line' : Text} {words : Word × Word} (hlength : line.length = 13)
    (hlength' : line'.length = 13) (hline : IsCanonical line) (hline' : IsCanonical line')
    (haccepts : Accepts missing line) (haccepts' : Accepts missing line')
    (h : alphaWords missing line = some words) (h' : alphaWords missing line' = some words) :
    line = line' := by
  have hparity := haccepts words h
  have hparity' := haccepts' words h'
  obtain ⟨c0, c1, c2, c3, c4, c5, c6, c7, c8, c9, c10, c11, c12, rfl⟩ := exists_of_length hlength
  obtain ⟨e0, e1, e2, e3, e4, e5, e6, e7, e8, e9, e10, e11, e12, rfl⟩ := exists_of_length hlength'
  rw [alphaWords_eq] at h h'
  obtain ⟨hA, hB⟩ := Prod.mk.inj (Option.some.inj (h.trans h'.symm))
  simp only [IsCanonical, List.forall_mem_cons] at hline hline'
  obtain ⟨h0, h1, h2, h3, h4, h5, h6, h7, h8, h9, h10, h11, h12, -⟩ := hline
  obtain ⟨k0, k1, k2, k3, k4, k5, k6, k7, k8, k9, k10, k11, k12, -⟩ := hline'
  have hlow : IsCanonical [c5, c4, c3, c2, c1, c0] := by
    simp only [IsCanonical, List.forall_mem_cons]
    exact ⟨h5, h4, h3, h2, h1, h0, nofun⟩
  have klow : IsCanonical [e5, e4, e3, e2, e1, e0] := by
    simp only [IsCanonical, List.forall_mem_cons]
    exact ⟨k5, k4, k3, k2, k1, k0, nofun⟩
  have hhigh : IsCanonical [c11, c10, c9, c8, c7] := by
    simp only [IsCanonical, List.forall_mem_cons]
    exact ⟨h11, h10, h9, h8, h7, nofun⟩
  have khigh : IsCanonical [e11, e10, e9, e8, e7] := by
    simp only [IsCanonical, List.forall_mem_cons]
    exact ⟨k11, k10, k9, k8, k7, nofun⟩
  obtain ⟨hupper6, hfirst⟩ := packed_injective hA
    (ushiftRight_lt (getVal_lt missing h6) (by decide))
    (ushiftRight_lt (getVal_lt missing k6) (by decide)) (by simp) (by simp)
    (hlow.digit_lt missing) (klow.digit_lt missing)
  -- The sixth digit of the second word loses its upper bits, which the first word has.
  have hbound := packed_lt (ushiftRight_lt (getVal_lt missing h12) (n := 1) (by decide)) (by simp)
    (hhigh.digit_lt missing)
  have kbound := packed_lt (ushiftRight_lt (getVal_lt missing k12) (n := 1) (by decide)) (by simp)
    (khigh.digit_lt missing)
  obtain ⟨hB, hlower6⟩ := or_shiftLeft_injective hbound kbound (by simp) hB
  obtain ⟨hupper12, hsecond⟩ := packed_injective hB
    (ushiftRight_lt (getVal_lt missing h12) (by decide))
    (ushiftRight_lt (getVal_lt missing k12) (by decide)) (by simp) (by simp)
    (hhigh.digit_lt missing) (khigh.digit_lt missing)
  have hsixth := eq_of_ushiftRight hupper6 hlower6
  have hlast : getVal missing c12 = getVal missing e12 :=
    eq_of_ushiftRight hupper12 ((hparity c12 rfl).symm.trans (hparity' e12 rfl))
  obtain rfl := getVal_injective missing h6 k6 hsixth
  obtain rfl := getVal_injective missing h12 k12 hlast
  have hlows := hlow.eq_of_digits missing klow hfirst
  have hhighs := hhigh.eq_of_digits missing khigh hsecond
  simp only [List.cons.injEq, and_true] at hlows hhighs
  obtain ⟨rfl, rfl, rfl, rfl, rfl, rfl⟩ := hlows
  obtain ⟨rfl, rfl, rfl, rfl, rfl⟩ := hhighs
  rfl

def decryptedWords (line : Text) : Option (Word × Word) :=
  (alphaWords missing line).bind (decryptCode genseeds)

end

end DolphinXR.ActionReplay
