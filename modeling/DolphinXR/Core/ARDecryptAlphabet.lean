import DolphinXR.Core.ARDecryptLines

/- Which lists of encrypted lines are parsed exactly. A character outside of the alphabet does not
   keep a line from being accepted: its number goes into the words like a digit, and all that is
   looked at is whether the ones of the words and of the last digit are even in number. A list is
   parsed exactly when each line with such a character has an odd number of ones or stands behind a
   line that has, and at every place such a character can make an even number. -/
namespace DolphinXR.ActionReplay
open Common Lib

section
variable (missing : Word)

/-! ### Ones -/

def digitBit (chars : Text) (i k : Nat) : Bool :=
  (chars[i]?.map (getVal missing)).any (·.getLsbD k)

/-- A bit of the first word: six digits from place 27 down, and what is above the third bit of the
    seventh. Digits of more than five bits reach into those before them. -/
def firstBit (line : Text) (k : Nat) : Bool :=
  digitBit missing line 6 (k + 3) ||
    (List.range 6).any fun i => 27 - 5 * i ≤ k && digitBit missing line i (k - (27 - 5 * i))

/-- A bit of the second word: six digits from place 29 down, and what is above the first bit of the
    last. -/
def secondBit (line : Text) (k : Nat) : Bool :=
  digitBit missing line 12 (k + 1) ||
    (List.range 6).any fun i => 29 - 5 * i ≤ k && digitBit missing line (i + 6) (k - (29 - 5 * i))

def onesOf (line : Text) : Nat :=
  (List.range 32).countP (firstBit missing line) + (List.range 32).countP (secondBit missing line) +
    (digitBit missing line 12 0).toNat

theorem countP_congr_range {p q : Nat → Bool} {n : Nat} (h : ∀ k < n, p k = q k) :
    (List.range n).countP p = (List.range n).countP q :=
  List.countP_congr fun k hk => by rw [h k (List.mem_range.1 hk)]

theorem getLsbD_of_le {k : Nat} (hk : k < 32) (x : Word) (shift : Nat) :
    (decide (shift ≤ k) && x.getLsbD (k - shift)) = (x <<< shift).getLsbD k := by
  rw [BitVec.getLsbD_shiftLeft, decide_eq_true hk, Bool.true_and, ← decide_not]
  simp only [Nat.not_lt]

theorem alphaWords_bits {line : Text} (h : line.length = 13) :
    ∃ words, alphaWords missing line = some words ∧ ∀ k < 32,
      firstBit missing line k = words.1.getLsbD k ∧
        secondBit missing line k = words.2.getLsbD k := by
  obtain ⟨c0, c1, c2, c3, c4, c5, c6, c7, c8, c9, c10, c11, c12, rfl⟩ := exists_of_length h
  have hwords := alphaWords_eq missing c0 c1 c2 c3 c4 c5 c6 c7 c8 c9 c10 c11 c12
  rw [← or_eq_packed, ← or_eq_packed_or] at hwords
  have hrange : List.range 6 = [0, 1, 2, 3, 4, 5] := rfl
  refine ⟨_, hwords, fun k hk => ⟨?_, ?_⟩⟩
  · unfold firstBit
    rw [hrange]
    simp only [List.any_cons, List.any_nil, Bool.or_false, BitVec.getLsbD_or, Bool.or_assoc,
      ← getLsbD_of_le hk]
    rw [BitVec.getLsbD_ushiftRight, Nat.add_comm 3 k]
    rfl
  · unfold secondBit
    rw [hrange]
    simp only [List.any_cons, List.any_nil, Bool.or_false, BitVec.getLsbD_or, Bool.or_assoc,
      ← getLsbD_of_le hk]
    rw [BitVec.getLsbD_ushiftRight, Nat.add_comm 1 k]
    rfl

theorem accepts_iff {line : Text} (h : line.length = 13) :
    Accepts missing line ↔ onesOf missing line % 2 = 0 := by
  obtain ⟨words, hwords, hbits⟩ := alphaWords_bits missing h
  obtain ⟨c12, hc12⟩ := getElem?_isSome (l := line) (i := 12) (by omega)
  have hlast : (digitBit missing line 12 0).toNat = (getVal missing c12).toNat % 2 := by
    rw [digitBit, hc12]
    change ((getVal missing c12).getLsbD 0).toNat = _
    rw [BitVec.getLsbD, Nat.testBit_zero]
    rcases Nat.mod_two_eq_zero_or_one (getVal missing c12).toNat with hbit | hbit
    all_goals simp [hbit]
  have hones : onesOf missing line =
      popcount words.1 + popcount words.2 + (getVal missing c12).toNat % 2 := by
    rw [onesOf, hlast, countP_congr_range fun k hk => (hbits k hk).1,
      countP_congr_range fun k hk => (hbits k hk).2]
    rfl
  have hparity : Accepts missing line ↔
      popcount (words.1 ^^^ words.2) % 2 = (getVal missing c12).toNat % 2 := by
    unfold Accepts
    rw [hwords, hc12]
    simp
  rw [hparity, popcount_xor, hones]
  omega

theorem mem_acceptedLines_iff {lines : List Text} (h : ∀ line ∈ lines, line.length = 13)
    {line : Text} : line ∈ acceptedLines missing lines ↔
      ∃ before after, lines = before ++ line :: after ∧
        ∀ l ∈ before ++ [line], Accepts missing l := by
  unfold acceptedLines convertAlphaToBinary
  rcases convertAlphaToBinaryFrom_spec missing _ h 0 [] with
    ⟨⟨pairs, -, hok⟩, hall⟩ | ⟨before, culprit, after, rfl, herror, hbefore, hculprit⟩
  · rw [hok]
    constructor
    · intro hmem
      obtain ⟨before, after, rfl⟩ := List.append_of_mem hmem
      refine ⟨before, after, rfl, fun l hl => hall l ?_⟩
      rcases List.mem_append.1 hl with hl | hl
      · exact List.mem_append_left _ hl
      · rw [List.mem_singleton.1 hl]
        exact List.mem_append_right _ List.mem_cons_self
    · rintro ⟨before, after, rfl, -⟩
      exact List.mem_append_right _ List.mem_cons_self
  · rw [herror]
    dsimp only
    rw [Nat.zero_add, List.take_left' rfl]
    constructor
    · intro hmem
      obtain ⟨start, rest, rfl⟩ := List.append_of_mem hmem
      refine ⟨start, rest ++ culprit :: after, by simp, fun l hl => hbefore l ?_⟩
      rcases List.mem_append.1 hl with hl | hl
      · exact List.mem_append_left _ hl
      · rw [List.mem_singleton.1 hl]
        exact List.mem_append_right _ List.mem_cons_self
    · rintro ⟨start, rest, hsplit, hall⟩
      obtain ⟨between, rfl, hrest⟩ | ⟨between, rfl, hrest⟩ := List.append_eq_append_iff.1 hsplit
      · -- The culprit would be one of the lines up to this one.
        refine absurd (hall culprit ?_) hculprit
        cases between with
        | nil =>
          obtain ⟨rfl, -⟩ := List.cons.inj hrest
          exact List.mem_append_right _ List.mem_cons_self
        | cons first between =>
          obtain ⟨rfl, -⟩ := List.cons.inj hrest
          exact List.mem_append_left _ (List.mem_append_right _ List.mem_cons_self)
      · cases between with
        | nil =>
          obtain ⟨rfl, -⟩ := List.cons.inj hrest
          exact absurd (hall line (List.mem_append_right _ List.mem_cons_self)) hculprit
        | cons first between =>
          obtain ⟨rfl, -⟩ := List.cons.inj hrest
          exact List.mem_append_right _ List.mem_cons_self

/-! ### Characters outside of the alphabet -/

def InAlphabet (c : Char) : Prop := toUpper c ∈ filter

instance (c : Char) : Decidable (InAlphabet c) := inferInstanceAs (Decidable (_ ∈ _))

theorem different_of_accepted {lines : List Text} (hlength : ∀ line ∈ lines, line.length = 13) :
    ∀ line ∈ acceptedLines missing lines, ∀ line' ∈ acceptedLines missing lines,
      IsCanonical line → IsCanonical line' → line ≠ line' →
        decryptedWords missing line ≠ decryptedWords missing line' := by
  intro line hline line' hline' hcanonical hcanonical' hne heq
  obtain ⟨hmem, haccept⟩ := accepts_of_mem missing hlength line hline
  obtain ⟨hmem', haccept'⟩ := accepts_of_mem missing hlength line' hline'
  obtain ⟨words, hwords⟩ := alphaWords_inside missing (hlength line hmem)
  obtain ⟨words', hwords'⟩ := alphaWords_inside missing (hlength line' hmem')
  obtain ⟨decrypted, hdecrypted⟩ := decryptCode_inside genseeds
    (by rw [genseeds_length]; decide) words
  unfold decryptedWords at heq
  rw [hwords, hwords', Option.bind_some, Option.bind_some, hdecrypted] at heq
  obtain rfl := decryptCode_injective hdecrypted heq.symm
  exact hne (alphaWords_injective missing (hlength line hmem) (hlength line' hmem')
    hcanonical hcanonical' haccept haccept' hwords hwords')

/-- Lines are read from inside of the tables, only those of the alphabet are accepted, and different
    ones in its digits are told apart. -/
structure ParsedExactly (lines : List Text) : Prop where
  inside : ∀ result, ∃ d, decryptARCode missing lines result = some d
  alphabet : ∀ line ∈ acceptedLines missing lines, ∀ c ∈ line, InAlphabet c
  different : ∀ line ∈ acceptedLines missing lines, ∀ line' ∈ acceptedLines missing lines,
    IsCanonical line → IsCanonical line' → line ≠ line' →
      decryptedWords missing line ≠ decryptedWords missing line'

/-- A list is parsed exactly when each line with a character outside of the alphabet has an odd
    number of ones or is behind a line that has. -/
theorem parsed_exactly {lines : List Text} (h : ∀ line ∈ lines, IsEncrypted line) :
    ParsedExactly missing lines ↔ ∀ before line after, lines = before ++ line :: after →
      (∃ c ∈ line, ¬ InAlphabet c) → ∃ l ∈ before ++ [line], onesOf missing l % 2 = 1 := by
  have hlength : ∀ line ∈ lines, line.length = 13 := fun line hline => (h line hline).length_eq.1
  constructor
  · intro hparsed before line after hlines ⟨c, hc, hforeign⟩
    by_contra hodd
    refine hforeign (hparsed.alphabet line ?_ c hc)
    refine (mem_acceptedLines_iff missing hlength).2 ⟨before, after, hlines, fun l hl => ?_⟩
    have hmem : l ∈ lines := by
      rw [hlines]
      rcases List.mem_append.1 hl with hl | hl
      · exact List.mem_append_left _ hl
      · rw [List.mem_singleton.1 hl]
        exact List.mem_append_right _ List.mem_cons_self
    rw [accepts_iff missing (hlength l hmem)]
    exact (Nat.mod_two_eq_zero_or_one _).resolve_right fun hone => hodd ⟨l, hl, hone⟩
  · intro hodd
    refine ⟨decryptARCode_inside missing hlength, fun line hline c hc => ?_,
      different_of_accepted missing hlength⟩
    by_contra hforeign
    obtain ⟨before, after, hlines, haccepts⟩ := (mem_acceptedLines_iff missing hlength).1 hline
    obtain ⟨l, hl, hone⟩ := hodd before line after hlines ⟨c, hc, hforeign⟩
    have hmem : l ∈ lines := by
      rw [hlines]
      rcases List.mem_append.1 hl with hl | hl
      · exact List.mem_append_left _ hl
      · rw [List.mem_singleton.1 hl]
        exact List.mem_append_right _ List.mem_cons_self
    have heven := (accepts_iff missing (hlength l hmem)).1 (haccepts l hl)
    omega

/-- The table is at the address 0x408000, and one character of the line is not in it. -/
theorem foreign_line_accepted :
    IsEncrypted "!000000000000".toList ∧
      ¬ ParsedExactly (0 - 0x408000) ["!000000000000".toList] := by
  refine ⟨isEncrypted_of_length (by decide) (by decide), fun h => ?_⟩
  have hmem : '!' ∈ "!000000000000".toList := by decide
  have hline : "!000000000000".toList ∈
      acceptedLines (0 - 0x408000) ["!000000000000".toList] := by decide +kernel
  exact absurd (h.alphabet _ hline '!' hmem) (by decide)

/-- A line of the alphabet, one with an odd number of ones, and behind it one with a character of
    another kind. -/
theorem parsed_exactly_behindOdd :
    (∀ line ∈ ["0000000000000".toList, "0000000000001".toList, "!000000000000".toList],
        IsEncrypted line) ∧
      ParsedExactly (0 - 0x408000)
        ["0000000000000".toList, "0000000000001".toList, "!000000000000".toList] := by
  have hencrypted : ∀ line ∈ ["0000000000000".toList, "0000000000001".toList,
      "!000000000000".toList], IsEncrypted line := by
    simp only [List.forall_mem_cons]
    refine ⟨?_, ?_, ?_, fun _ hline => absurd hline List.not_mem_nil⟩
    all_goals exact isEncrypted_of_length (by decide) (by decide)
  refine ⟨hencrypted, (parsed_exactly _ hencrypted).2 ?_⟩
  rintro before line after hlines ⟨c, hc, hforeign⟩
  have hodd : onesOf (0 - 0x408000) "0000000000001".toList % 2 = 1 := by decide +kernel
  rcases before with - | ⟨first, - | ⟨second, before⟩⟩
  · obtain ⟨rfl, -⟩ := List.cons.inj hlines
    have hall : ∀ c ∈ "0000000000000".toList, InAlphabet c :=
      List.all_iff_forall_prop.1 (by decide)
    exact absurd (hall c hc) hforeign
  · obtain ⟨rfl, hrest⟩ := List.cons.inj hlines
    obtain ⟨rfl, -⟩ := List.cons.inj hrest
    exact ⟨_, List.mem_append_right _ List.mem_cons_self, hodd⟩
  · obtain ⟨rfl, hrest⟩ := List.cons.inj hlines
    obtain ⟨rfl, -⟩ := List.cons.inj hrest
    exact ⟨_, List.mem_append_left _ (List.mem_cons_of_mem _ List.mem_cons_self), hodd⟩

end

end DolphinXR.ActionReplay
