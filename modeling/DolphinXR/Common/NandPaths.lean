import Mathlib.Data.Bool.AllAny
import Mathlib.Data.List.Forall2
import DolphinXR.Common.StringUtil

/- The names of NAND files on the host (Common/NandPaths.cpp): characters that a host file system
   does not allow are escaped, and so are the names made of dots, so that a path never leaves the
   NAND directory. `resolve` is the POSIX reading of a path, which skips empty names.

   The names are faithful. A text is escaped in one pass: a pair of underscores becomes two
   sequences, an illegal character one. Decoding takes a sequence off the front of what is left
   and never reads a decoded character again, so it follows that pass; a single underscore in
   front of a sequence does not confuse it, since the fourth character behind is then a digit. -/
namespace DolphinXR.Common

/-- `ReplaceAll` on the escape sequences' own double underscores. -/
def escapeDoubleUnderscores : Text → Text
  | '_' :: '_' :: t => "__5f____5f__".toList ++ escapeDoubleUnderscores t
  | c :: t => c :: escapeDoubleUnderscores t
  | [] => []

def isIllegalCharacter (c : Char) : Bool :=
  c.toNat ≤ 0x1f || ['"', '*', '/', ':', '<', '>', '?', '\\', '|', '\x7f'].contains c

def hexAlphabet : Text := "0123456789abcdef".toList

/-- A number below 256 as `02x` prints it. -/
def hexDigits (n : Nat) : Text := [hexAlphabet.getD (n / 16) '0', hexAlphabet.getD (n % 16) '0']

def escapeFileName (filename : Text) : Text :=
  if filename.all (· = '.') then filename.flatMap fun _ => "__2e__".toList
  else
    (escapeDoubleUnderscores filename).flatMap fun c =>
      if isIllegalCharacter c then "__".toList ++ hexDigits c.toNat ++ "__".toList else [c]

def join (delim : Char) : List Text → Text
  | [] => []
  | [t] => t
  | t :: u :: rest => t ++ delim :: join delim (u :: rest)

def escapePath (path : Text) : Text := join '/' ((splitString '/' path).map escapeFileName)

/-- What `FromChars` reads of two characters: the hexadecimal digits in front. -/
def fromHex (a b : Char) : Option Nat :=
  let digit := fun c : Char => hexAlphabet.idxOf? (toLower c)
  match digit a, digit b with
  | some x, some y => some (x * 16 + y)
  | some x, none => some x
  | none, _ => none

/-- Replaces the escape sequences (such as `__3f__`) by the characters they stand for. -/
def unescapeFileName : Text → Text
  | '_' :: '_' :: a :: b :: '_' :: '_' :: t =>
    match fromHex a b with
    | some character => Char.ofNat character :: unescapeFileName t
    | none => '_' :: unescapeFileName ('_' :: a :: b :: '_' :: '_' :: t)
  | c :: t => c :: unescapeFileName t
  | [] => []
termination_by t => t.length

def resolve (hostPath : Text) : List Text := (splitString '/' hostPath).filter (· ≠ [])

theorem escapeDoubleUnderscores_ne_nil {t : Text} (h : t ≠ []) :
    escapeDoubleUnderscores t ≠ [] := by
  fun_cases escapeDoubleUnderscores t with
  | case1 t => exact List.append_ne_nil_of_left_ne_nil (by decide) _
  | case2 c t => exact List.cons_ne_nil _ _
  | case3 => exact absurd rfl h

theorem escapeFileName_eq_nil {t : Text} : escapeFileName t = [] ↔ t = [] := by
  constructor
  · intro h
    by_contra hne
    unfold escapeFileName at h
    split at h
    · obtain ⟨c, t, rfl⟩ := List.exists_cons_of_ne_nil hne
      exact absurd h (by simp)
    · obtain ⟨c, rest, hrest⟩ := List.exists_cons_of_ne_nil (escapeDoubleUnderscores_ne_nil hne)
      rw [hrest, List.flatMap_cons] at h
      have hhead := (List.append_eq_nil_iff.1 h).1
      split at hhead
      · exact absurd hhead (by simp)
      · exact absurd hhead (List.cons_ne_nil _ _)
  · rintro rfl
    rfl

theorem slash_not_mem_hexDigits (n : Nat) : '/' ∉ hexDigits n := by
  have hdigit : ∀ d, hexAlphabet.getD d '0' ≠ '/' := by
    intro d hd
    rw [List.getD_eq_getElem?_getD] at hd
    cases hget : hexAlphabet[d]? with
    | none => exact absurd (hget ▸ hd) (by decide)
    | some c =>
      rw [hget] at hd
      have hmem : c ∈ hexAlphabet := List.mem_of_getElem? hget
      rw [show c = '/' from hd] at hmem
      exact absurd hmem (by decide)
  intro h
  rcases List.mem_cons.1 h with h | h
  · exact hdigit _ h.symm
  · exact hdigit _ (List.mem_singleton.1 h).symm

theorem slash_not_mem_escapeFileName (t : Text) : '/' ∉ escapeFileName t := by
  unfold escapeFileName
  split
  all_goals
    intro h
    obtain ⟨c, -, hc⟩ := List.mem_flatMap.1 h
  · exact absurd hc (by decide)
  · split at hc
    case isTrue =>
      rw [List.append_assoc, List.mem_append, List.mem_append] at hc
      rcases hc with hc | hc | hc
      · exact absurd hc (by decide)
      · exact slash_not_mem_hexDigits _ hc
      · exact absurd hc (by decide)
    case isFalse hlegal =>
      rw [← List.mem_singleton.1 hc] at hlegal
      exact absurd (by decide) hlegal

theorem resolve_join {names : List Text} (h : ∀ t ∈ names, '/' ∉ t) :
    resolve (join '/' names) = names.filter (· ≠ []) := by
  have hlast : ∀ t : Text, '/' ∉ t → resolve t = [t].filter (· ≠ []) := by
    intro t ht
    rcases eq_or_ne t [] with rfl | hne
    · rfl
    · rw [resolve, splitString_last ht hne]
  fun_induction join '/' names with
  | case1 => rfl
  | case2 t => exact hlast t (h t (List.mem_cons_self ..))
  | case3 t u rest ih =>
    have ht := h t (List.mem_cons_self ..)
    have hrest := ih fun v hv => h v (List.mem_cons_of_mem _ hv)
    calc resolve (t ++ '/' :: join '/' (u :: rest))
        = (t :: splitString '/' (join '/' (u :: rest))).filter (· ≠ []) := by
          rw [resolve, splitString_line ht]
      _ = [t].filter (· ≠ []) ++ resolve (join '/' (u :: rest)) :=
          List.filter_append [t] _
      _ = (t :: u :: rest).filter (· ≠ []) := by
          rw [hrest]
          exact (List.filter_append [t] _).symm

def hostNames (components : List Text) : List Text :=
  (components.map escapeFileName).filter (· ≠ [])

theorem resolve_escapePath (path : Text) :
    resolve (escapePath path) = hostNames (splitString '/' path) := by
  refine resolve_join fun t ht => ?_
  obtain ⟨name, -, rfl⟩ := List.mem_map.1 ht
  exact slash_not_mem_escapeFileName name

theorem hostNames_append (as bs : List Text) :
    hostNames (as ++ bs) = hostNames as ++ hostNames bs := by
  rw [hostNames, List.map_append, List.filter_append]
  rfl

theorem hostNames_ne_nil {components : List Text} {t : Text} (h : t ∈ components) (hne : t ≠ []) :
    hostNames components ≠ [] := by
  have hmem : escapeFileName t ∈ hostNames components := by
    refine List.mem_filter.2 ⟨List.mem_map_of_mem h, ?_⟩
    exact decide_eq_true fun hnil => hne (escapeFileName_eq_nil.1 hnil)
  exact List.ne_nil_of_mem hmem

def isFileNameSafe (filename : Text) : Bool :=
  filename ≠ [] && !filename.all (· = '.') && filename.all (!isIllegalCharacter ·)

/-- The format "__{:02x}__". -/
def escapeSequence (c : Char) : Text := "__".toList ++ hexDigits c.toNat ++ "__".toList

def escapeCharacter (c : Char) : Text := if isIllegalCharacter c then escapeSequence c else [c]

def escapeCharacters (t : Text) : Text := (escapeDoubleUnderscores t).flatMap escapeCharacter

theorem escapeFileName_of_not_all {t : Text} (h : t.all (· = '.') = false) :
    escapeFileName t = escapeCharacters t := by
  rw [escapeFileName, if_neg (Bool.eq_false_iff.1 h)]
  rfl

theorem toNat_of_isIllegalCharacter {c : Char} (h : isIllegalCharacter c = true) :
    c.toNat < 128 := by
  rw [isIllegalCharacter, Bool.or_eq_true, decide_eq_true_eq] at h
  rcases h with hcontrol | hlisted
  · omega
  · have hlimit : ∀ d ∈ ['"', '*', '/', ':', '<', '>', '?', '\\', '|', '\x7f'], d.toNat < 128 :=
      List.all_iff_forall_prop.1 (by decide)
    exact hlimit c (List.contains_iff_mem.1 hlisted)

theorem not_isIllegalCharacter_hexDigits :
    ∀ n, ∀ c ∈ hexDigits n, isIllegalCharacter c = false ∧ c ≠ '_' := by
  have hdigit : ∀ d, isIllegalCharacter (hexAlphabet.getD d '0') = false ∧
      hexAlphabet.getD d '0' ≠ '_' := by
    intro d
    have hall : ∀ c ∈ '0' :: hexAlphabet, isIllegalCharacter c = false ∧ c ≠ '_' :=
      List.all_iff_forall_prop.1 (by decide)
    rw [List.getD_eq_getElem?_getD]
    cases hget : hexAlphabet[d]? with
    | none => exact hall '0' (List.mem_cons_self ..)
    | some c => exact hall c (List.mem_cons_of_mem _ (List.mem_of_getElem? hget))
  intro n c hc
  rcases List.mem_cons.1 hc with rfl | hc
  · exact hdigit _
  · rw [List.mem_singleton.1 hc]
    exact hdigit _

theorem fromHex_hexDigits {n : Nat} (h : n < 128) :
    ∃ a b, hexDigits n = [a, b] ∧ fromHex a b = some n ∧ b ≠ '_' := by
  have hdigit : ∀ d < 16, hexAlphabet.idxOf? (toLower (hexAlphabet.getD d '0')) = some d := by
    decide
  refine ⟨_, _, rfl, ?_, ?_⟩
  · have hvalue : n / 16 * 16 + n % 16 = n := by omega
    unfold fromHex
    dsimp only
    rw [hdigit (n / 16) (by omega), hdigit (n % 16) (by omega)]
    exact congrArg some hvalue
  · have hmem : hexAlphabet.getD (n % 16) '0' ∈ hexDigits n :=
      List.mem_cons_of_mem _ (List.mem_singleton_self _)
    exact (not_isIllegalCharacter_hexDigits n _ hmem).2

theorem unescapeFileName_sequence {c : Char} (h : c.toNat < 128) (t : Text) :
    unescapeFileName (escapeSequence c ++ t) = c :: unescapeFileName t := by
  obtain ⟨a, b, hdigits, hread, -⟩ := fromHex_hexDigits h
  have hsequence : escapeSequence c ++ t = '_' :: '_' :: a :: b :: '_' :: '_' :: t := by
    rw [escapeSequence, hdigits]
    rfl
  rw [hsequence, unescapeFileName, hread]
  dsimp only
  rw [Char.ofNat_toNat]

theorem unescapeFileName_nil : unescapeFileName [] = [] := by
  rw [unescapeFileName]

theorem unescapeFileName_cons {c : Char} {t : Text}
    (h : ∀ a b u, c :: t ≠ '_' :: '_' :: a :: b :: '_' :: '_' :: u) :
    unescapeFileName (c :: t) = c :: unescapeFileName t := by
  rw [unescapeFileName]
  intro a b u hc ht
  subst hc ht
  exact h a b u rfl

theorem unescapeFileName_cons_of_ne {c : Char} (h : c ≠ '_') (t : Text) :
    unescapeFileName (c :: t) = c :: unescapeFileName t :=
  unescapeFileName_cons fun _ _ _ heq => h (List.cons.inj heq).1

/-! ### Decoding what the escape writes -/

theorem escapeDoubleUnderscores_pair (t : Text) :
    escapeDoubleUnderscores ('_' :: '_' :: t) =
      "__5f____5f__".toList ++ escapeDoubleUnderscores t := by
  conv_lhs => unfold escapeDoubleUnderscores
  rfl

theorem escapeDoubleUnderscores_cons {c : Char} {t : Text} (h : c = '_' → ∀ u, t ≠ '_' :: u) :
    escapeDoubleUnderscores (c :: t) = c :: escapeDoubleUnderscores t := by
  conv_lhs => unfold escapeDoubleUnderscores
  split
  · rename_i heq
    exact absurd (List.cons.inj heq).2 (h (List.cons.inj heq).1 _)
  · rename_i heq
    rw [(List.cons.inj heq).1, (List.cons.inj heq).2]
  · rename_i heq
    exact absurd heq (List.cons_ne_nil _ _)

theorem escapeCharacters_pair (t : Text) :
    escapeCharacters ('_' :: '_' :: t) =
      escapeSequence '_' ++ (escapeSequence '_' ++ escapeCharacters t) := by
  have hpair : "__5f____5f__".toList.flatMap escapeCharacter =
      escapeSequence '_' ++ escapeSequence '_' := by decide
  rw [escapeCharacters, escapeDoubleUnderscores_pair, List.flatMap_append, hpair,
    List.append_assoc, escapeCharacters]

theorem escapeCharacters_cons {c : Char} {t : Text} (h : c = '_' → ∀ u, t ≠ '_' :: u) :
    escapeCharacters (c :: t) = escapeCharacter c ++ escapeCharacters t := by
  rw [escapeCharacters, escapeDoubleUnderscores_cons h, List.flatMap_cons, escapeCharacters]

theorem unescapeFileName_underscore {t : Text} (h : ∀ u, t ≠ '_' :: u) :
    unescapeFileName ('_' :: escapeCharacters t) = '_' :: unescapeFileName (escapeCharacters t) := by
  refine unescapeFileName_cons fun a b u heq => ?_
  have htail : escapeCharacters t = '_' :: a :: b :: '_' :: '_' :: u := (List.cons.inj heq).2
  cases t with
  | nil => exact absurd htail (List.cons_ne_nil _ _).symm
  | cons d t =>
    rw [escapeCharacters_cons fun hd v ht => h t (by rw [hd]), escapeCharacter] at htail
    split at htail
    case isTrue hillegal =>
      obtain ⟨x, y, hdigits, -, hy⟩ := fromHex_hexDigits (toNat_of_isIllegalCharacter hillegal)
      rw [escapeSequence, hdigits] at htail
      have hfourth : some y = some '_' := congrArg (·[3]?) htail
      exact hy (Option.some.inj hfourth)
    case isFalse hlegal =>
      have hd : d = '_' := (List.cons.inj htail).1
      exact h t (by rw [hd])

theorem unescapeFileName_escapeCharacters (t : Text) :
    unescapeFileName (escapeCharacters t) = t := by
  fun_induction escapeDoubleUnderscores t with
  | case1 t ih =>
    rw [escapeCharacters_pair, unescapeFileName_sequence (by decide),
      unescapeFileName_sequence (by decide), ih]
  | case2 c t hpair ih =>
    have hnot : c = '_' → ∀ u, t ≠ '_' :: u := fun hc u ht => hpair u hc ht
    rw [escapeCharacters_cons hnot, escapeCharacter]
    split
    case isTrue hillegal =>
      rw [unescapeFileName_sequence (toNat_of_isIllegalCharacter hillegal), ih]
    case isFalse hlegal =>
      by_cases hc : c = '_'
      · rw [hc, List.singleton_append, unescapeFileName_underscore (hnot hc), ih]
      · rw [List.singleton_append, unescapeFileName_cons_of_ne hc, ih]
  | case3 => exact unescapeFileName_nil

theorem unescapeFileName_dots (t : Text) (h : t.all (· = '.') = true) :
    unescapeFileName (t.flatMap fun _ => "__2e__".toList) = t := by
  induction t with
  | nil => exact unescapeFileName_nil
  | cons c t ih =>
    rw [List.all_cons, Bool.and_eq_true, decide_eq_true_eq] at h
    calc unescapeFileName ("__2e__".toList ++ t.flatMap fun _ => "__2e__".toList)
        = '.' :: unescapeFileName (t.flatMap fun _ => "__2e__".toList) :=
          unescapeFileName_sequence (c := '.') (by decide) _
      _ = c :: t := by rw [ih h.2, h.1]

theorem unescapeFileName_escapeFileName (t : Text) :
    unescapeFileName (escapeFileName t) = t := by
  cases h : t.all (· = '.') with
  | true =>
    rw [escapeFileName, if_pos h]
    exact unescapeFileName_dots t h
  | false =>
    rw [escapeFileName_of_not_all h]
    exact unescapeFileName_escapeCharacters t

/-! ### What an escaped name is made of -/

theorem legal_escapeSequence {c d : Char} (h : c ∈ escapeSequence d) :
    isIllegalCharacter c = false := by
  have hunderscores : ∀ c ∈ "__".toList, isIllegalCharacter c = false :=
    List.all_iff_forall_prop.1 (by decide)
  rw [escapeSequence, List.append_assoc, List.mem_append, List.mem_append] at h
  rcases h with h | h | h
  · exact hunderscores c h
  · exact (not_isIllegalCharacter_hexDigits _ c h).1
  · exact hunderscores c h

theorem legal_escapeFileName {t : Text} {c : Char} (h : c ∈ escapeFileName t) :
    isIllegalCharacter c = false := by
  unfold escapeFileName at h
  split at h
  all_goals obtain ⟨d, -, hc⟩ := List.mem_flatMap.1 h
  · have hdot : ∀ c ∈ "__2e__".toList, isIllegalCharacter c = false :=
      List.all_iff_forall_prop.1 (by decide)
    exact hdot c hc
  · split at hc
    case isTrue => exact legal_escapeSequence hc
    case isFalse hlegal =>
      rw [List.mem_singleton.1 hc]
      exact Bool.eq_false_iff.2 hlegal

theorem unescapeFileName_of_all_dots {t : Text} (h : t.all (· = '.') = true) :
    unescapeFileName t = t := by
  induction t with
  | nil => exact unescapeFileName_nil
  | cons c t ih =>
    rw [List.all_cons, Bool.and_eq_true, decide_eq_true_eq] at h
    rw [h.1, unescapeFileName_cons_of_ne (by decide), ih h.2]

theorem not_all_dots_escapeFileName {t : Text} (h : t ≠ []) :
    (escapeFileName t).all (· = '.') = false := by
  by_contra hdots
  rw [Bool.not_eq_false] at hdots
  have hsame : escapeFileName t = t := by
    rw [← unescapeFileName_of_all_dots hdots, unescapeFileName_escapeFileName]
  have hescaped : escapeFileName t = t.flatMap fun _ => "__2e__".toList := by
    rw [escapeFileName, if_pos (hsame ▸ hdots)]
  obtain ⟨c, rest, rfl⟩ := List.exists_cons_of_ne_nil h
  rw [hescaped, List.flatMap_cons, List.all_append, Bool.and_eq_true] at hdots
  exact absurd hdots.1 (by decide)

structure FaithfulName (name host : Text) : Prop where
  unescape : unescapeFileName host = name
  legal : ∀ c ∈ host, isIllegalCharacter c = false
  notDots : ∀ n, host ≠ List.replicate (n + 1) '.'
  safe : isFileNameSafe host = decide (name ≠ [])

theorem faithfulName_escapeFileName (t : Text) : FaithfulName t (escapeFileName t) where
  unescape := unescapeFileName_escapeFileName t
  legal := fun _ => legal_escapeFileName
  notDots := by
    intro n hdots
    have hall : (escapeFileName t).all (· = '.') = true := by
      rw [hdots, List.all_replicate]
      exact if_neg (Nat.succ_ne_zero n)
    rcases eq_or_ne t [] with rfl | hne
    · exact absurd hdots (List.cons_ne_nil _ _).symm
    · exact absurd hall (Bool.eq_false_iff.1 (not_all_dots_escapeFileName hne))
  safe := by
    rcases eq_or_ne t [] with rfl | hne
    · rfl
    · have hlegal : (escapeFileName t).all (!isIllegalCharacter ·) = true :=
        List.all_eq_true.2 fun c hc => by rw [legal_escapeFileName hc]; rfl
      rw [isFileNameSafe, not_all_dots_escapeFileName hne, hlegal, decide_eq_true hne,
        decide_eq_true (mt escapeFileName_eq_nil.1 hne)]
      rfl

theorem splitString_join {names : List Text} (hne : names ≠ []) (h : ∀ t ∈ names, '/' ∉ t) :
    splitString '/' (join '/' names ++ ['/']) = names := by
  fun_induction join '/' names with
  | case1 => exact absurd rfl hne
  | case2 t =>
    rw [splitString_line (h t (List.mem_cons_self ..))]
    rfl
  | case3 t u rest ih =>
    rw [List.append_assoc, List.cons_append, splitString_line (h t (List.mem_cons_self ..)),
      ih (List.cons_ne_nil _ _) fun v hv => h v (List.mem_cons_of_mem _ hv)]

theorem splitString_ne_nil {t : Text} (h : t ≠ []) : splitString '/' t ≠ [] := by
  fun_cases splitString '/' t with
  | case1 => exact absurd rfl h
  | case2 => exact List.cons_ne_nil _ _
  | case3 => exact List.cons_ne_nil _ _
  | case4 => exact List.cons_ne_nil _ _

/-- Escaped names are faithful, two names never share one, and a path is escaped name by name:
    ended by a slash, the escaped path has exactly the escaped names. -/
theorem escape_faithful :
    (∀ filename, FaithfulName filename (escapeFileName filename)) ∧
    Function.Injective escapeFileName ∧
    ∀ path, ∃ hosts, escapePath path = join '/' hosts ∧
      List.Forall₂ FaithfulName (splitString '/' path) hosts ∧
      (path = [] ∨ splitString '/' (escapePath path ++ ['/']) = hosts) := by
  refine ⟨faithfulName_escapeFileName, ?_, fun path => ⟨_, rfl, ?_, ?_⟩⟩
  · exact Function.LeftInverse.injective unescapeFileName_escapeFileName
  · exact List.forall₂_map_right_iff.2 (List.forall₂_same.2 fun t _ => faithfulName_escapeFileName t)
  · rcases eq_or_ne path [] with hnil | hne
    · exact Or.inl hnil
    · refine Or.inr (splitString_join ?_ fun t ht => ?_)
      · exact fun h => splitString_ne_nil hne (List.map_eq_nil_iff.1 h)
      · obtain ⟨name, -, rfl⟩ := List.mem_map.1 ht
        exact slash_not_mem_escapeFileName name

example : escapeFileName "a___*.".toList = "a__5f____5f_____2a__.".toList := by decide

end DolphinXR.Common
