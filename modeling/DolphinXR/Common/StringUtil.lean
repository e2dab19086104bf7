import Mathlib.Data.List.DropRight
import Mathlib.Algebra.Group.Nat.Defs

/- The functions of Common/StringUtil.cpp that read lines of text: blanks at the ends are
   stripped, a text is split into lines, and a line at a character. A string is the list of its
   characters. -/
namespace DolphinXR.Common

abbrev Text := List Char

def isBlank (c : Char) : Bool := c == ' ' || c == '\t' || c == '\r' || c == '\n'

def isSpace (c : Char) : Bool := c == ' ' || decide (9 ≤ c.toNat ∧ c.toNat ≤ 13)

def stripWhitespace (t : Text) : Text := (t.dropWhile isBlank).rdropWhile isBlank

def toLower (c : Char) : Char :=
  if 65 ≤ c.toNat ∧ c.toNat ≤ 90 then Char.ofNat (c.toNat + 32) else c

def caseInsensitiveEquals (a b : Text) : Bool := a.map toLower == b.map toLower

/-- What `getline` reads until the end of the text. -/
def splitString (delim : Char) : Text → List Text
  | [] => []
  | c :: t =>
    if c = delim then [] :: splitString delim t
    else
      match splitString delim t with
      | [] => [[c]]
      | line :: rest => (c :: line) :: rest

/-- The text before and behind the first place of a character (`find` and `substr`). -/
def splitAtFirst (c : Char) : Text → Option (Text × Text)
  | [] => none
  | d :: t =>
    if d = c then some ([], t) else (splitAtFirst c t).map fun x => (d :: x.1, x.2)

theorem splitString_nil (delim : Char) : splitString delim [] = [] := by rw [splitString]

theorem splitAtFirst_nil (c : Char) : splitAtFirst c [] = none := by rw [splitAtFirst]

/-- The text before and behind the last place of a character (`rfind` and `substr`). -/
def splitAtLast (c : Char) (t : Text) : Option (Text × Text) :=
  (splitAtFirst c t.reverse).map fun x => (x.2.reverse, x.1.reverse)

/-- `TryParse` of a u64 in base 10: `strtoull`, which has to end where the text does. -/
def tryParseU64 (t : Text) : Option Nat :=
  -- `c_str`: the text up to its first null character.
  let t := t.takeWhile (· != '\x00')
  -- Where nothing is read, the end is the beginning.
  if t = [] then some 0
  else
    let (negative, digits) := match t.dropWhile isSpace with
      | '-' :: digits => (true, digits)
      | '+' :: digits => (false, digits)
      | digits => (false, digits)
    if digits = [] ∨ ¬digits.all (fun c => decide ('0' ≤ c ∧ c ≤ '9')) then none
    else
      let value := digits.foldl (fun value c => value * 10 + (c.toNat - 48)) 0
      if value ≥ 2 ^ 64 then none
      else some (if negative then (2 ^ 64 - value) % 2 ^ 64 else value)

/-! ### Stripping -/

def Bare (t : Text) : Prop :=
  (∀ c ∈ t.head?, isBlank c = false) ∧ ∀ c ∈ t.getLast?, isBlank c = false

theorem bare_of_all {t : Text} (hhead : (t.head?.all fun c => !isBlank c) = true)
    (hlast : (t.getLast?.all fun c => !isBlank c) = true) : Bare t := by
  constructor
  · intro c hc
    simpa using (Option.all_eq_true ..).1 hhead c hc
  · intro c hc
    simpa using (Option.all_eq_true ..).1 hlast c hc

theorem blank_space : ∀ c ∈ [' '], isBlank c = true := List.forall_mem_singleton.2 rfl

theorem dropWhile_of_head {t : Text} (h : ∀ c ∈ t.head?, isBlank c = false) :
    t.dropWhile isBlank = t := by
  cases t with
  | nil => rfl
  | cons c t => rw [List.dropWhile_cons_of_neg (Bool.eq_false_iff.1 (h c rfl))]

theorem dropWhile_append_of_blank {before t : Text} (h : ∀ c ∈ before, isBlank c = true) :
    (before ++ t).dropWhile isBlank = t.dropWhile isBlank := by
  rw [List.dropWhile_append, List.dropWhile_eq_nil_iff.2 h]
  rfl

theorem mem_of_mem_stripWhitespace {t : Text} {c : Char} (h : c ∈ stripWhitespace t) : c ∈ t := by
  have hdrop : c ∈ t.dropWhile isBlank := (List.rdropWhile_prefix isBlank _).mem h
  exact (List.dropWhile_suffix isBlank).mem hdrop

theorem stripWhitespace_append (before behind : Text) {t : Text} (hbefore : ∀ c ∈ before, isBlank c = true)
    (ht : Bare t) (hbehind : ∀ c ∈ behind, isBlank c = true) :
    stripWhitespace (before ++ (t ++ behind)) = t := by
  unfold stripWhitespace
  rw [dropWhile_append_of_blank hbefore]
  have hfront : (t ++ behind).dropWhile isBlank = t ++ (if t = [] then [] else behind) := by
    cases t with
    | nil => exact List.dropWhile_eq_nil_iff.2 hbehind
    | cons c t => exact dropWhile_of_head ht.1
  have hback : ∀ c ∈ (if t = [] then [] else behind), isBlank c = true := by
    intro c hc
    split at hc
    · exact absurd hc List.not_mem_nil
    · exact hbehind c hc
  rw [hfront, List.rdropWhile, List.reverse_append,
    dropWhile_append_of_blank fun c hc => hback c (List.mem_reverse.1 hc), dropWhile_of_head,
    List.reverse_reverse]
  intro c hc
  rw [List.head?_reverse] at hc
  exact ht.2 c hc

theorem Bare.stripWhitespace {t : Text} (h : Bare t) : stripWhitespace t = t := by
  have hstrip := stripWhitespace_append [] [] nofun h nofun
  rwa [List.nil_append, List.append_nil] at hstrip

theorem stripWhitespace_newline (t : Text) :
    stripWhitespace (t ++ ['\n']) = stripWhitespace t := by
  unfold stripWhitespace
  rw [List.dropWhile_append]
  cases hdrop : t.dropWhile isBlank with
  | nil => rfl
  | cons c rest => exact List.rdropWhile_concat_pos isBlank _ _ rfl

theorem bare_stripWhitespace (t : Text) : Bare (stripWhitespace t) := by
  constructor
  · intro c hc
    obtain ⟨behind, hbehind⟩ := List.rdropWhile_prefix isBlank (t.dropWhile isBlank)
    have hhead : (t.dropWhile isBlank).head? = some c := by
      rw [← hbehind, List.head?_append]
      exact congrArg (Option.or · behind.head?) hc
    have hnot := List.head?_dropWhile_not isBlank t
    rw [hhead] at hnot
    exact hnot
  · intro c hc
    obtain ⟨hne, hlast⟩ := List.mem_getLast?_eq_getLast hc
    have hnot := List.rdropWhile_last_not isBlank (t.dropWhile isBlank) hne
    exact hlast ▸ Bool.eq_false_iff.2 hnot

theorem head?_stripWhitespace {t : Text} (h : ∀ c ∈ t.head?, isBlank c = false) :
    (stripWhitespace t).head? = t.head? := by
  cases t with
  | nil => rfl
  | cons c t =>
    unfold stripWhitespace
    rw [dropWhile_of_head h]
    obtain ⟨behind, hbehind⟩ := List.rdropWhile_prefix isBlank (c :: t)
    have hne : (c :: t).rdropWhile isBlank ≠ [] := by
      intro hnil
      have hblank := List.rdropWhile_eq_nil_iff.1 hnil c (List.mem_cons_self ..)
      exact absurd ((h c rfl).symm.trans hblank) nofun
    calc ((c :: t).rdropWhile isBlank).head?
        = ((c :: t).rdropWhile isBlank ++ behind).head? := (List.head?_append_of_ne_nil _ hne).symm
      _ = (c :: t).head? := by rw [hbehind]

theorem Bare.append {t u : Text} (ht : Bare t) (hu : Bare u) (hne : t ≠ []) (hne' : u ≠ [])
    (between : Text) : Bare (t ++ (between ++ u)) := by
  constructor
  · intro c hc
    rw [List.head?_append_of_ne_nil _ hne] at hc
    exact ht.1 c hc
  · intro c hc
    rw [← List.append_assoc, List.getLast?_append_of_ne_nil _ hne'] at hc
    exact hu.2 c hc

/-! ### Splitting -/

theorem splitAtFirst_append {c : Char} {t u : Text} (h : c ∉ t) :
    splitAtFirst c (t ++ c :: u) = some (t, u) := by
  induction t with
  | nil => exact if_pos rfl
  | cons d t ih =>
    have hne : d ≠ c := fun hdc => h (hdc ▸ List.mem_cons_self ..)
    rw [List.cons_append, splitAtFirst, if_neg hne, ih fun hc => h (List.mem_cons_of_mem _ hc)]
    rfl

theorem splitAtFirst_eq_none {c : Char} {t : Text} (h : c ∉ t) : splitAtFirst c t = none := by
  induction t with
  | nil => exact splitAtFirst_nil c
  | cons d t ih =>
    have hne : d ≠ c := fun hdc => h (hdc ▸ List.mem_cons_self ..)
    rw [splitAtFirst, if_neg hne, ih fun hc => h (List.mem_cons_of_mem _ hc)]
    rfl

theorem not_mem_of_splitAtFirst_eq_none {c : Char} {t : Text} (h : splitAtFirst c t = none) :
    c ∉ t := by
  induction t with
  | nil => exact List.not_mem_nil
  | cons d t ih =>
    unfold splitAtFirst at h
    split at h
    case isTrue => cases h
    case isFalse hne =>
      intro hc
      rcases List.mem_cons.1 hc with rfl | hc
      · exact hne rfl
      · exact ih (Option.map_eq_none_iff.1 h) hc

theorem of_splitAtFirst_eq_some {c : Char} {t a b : Text} (h : splitAtFirst c t = some (a, b)) :
    t = a ++ c :: b ∧ c ∉ a := by
  induction t generalizing a with
  | nil => cases h
  | cons d t ih =>
    unfold splitAtFirst at h
    split at h
    case isTrue heq =>
      cases h
      exact ⟨congrArg (· :: _) heq, List.not_mem_nil⟩
    case isFalse hne =>
      obtain ⟨⟨a', b'⟩, hsplit, hab⟩ := Option.map_eq_some_iff.1 h
      cases hab
      obtain ⟨ht, hc⟩ := ih hsplit
      refine ⟨congrArg (d :: ·) ht, fun hmem => ?_⟩
      rcases List.mem_cons.1 hmem with rfl | hmem
      · exact hne rfl
      · exact hc hmem

theorem not_mem_of_mem_splitString {delim : Char} {t line : Text}
    (h : line ∈ splitString delim t) : delim ∉ line := by
  induction t generalizing line with
  | nil => cases h
  | cons c t ih =>
    unfold splitString at h
    split at h
    case isTrue =>
      rcases List.mem_cons.1 h with rfl | h
      · exact List.not_mem_nil
      · exact ih h
    case isFalse hne =>
      split at h
      case h_1 =>
        rw [List.mem_singleton.1 h, List.mem_singleton]
        exact fun hc => hne hc.symm
      case h_2 first rest hsplit =>
        rcases List.mem_cons.1 h with rfl | h
        · intro hmem
          rcases List.mem_cons.1 hmem with rfl | hmem
          · exact hne rfl
          · exact ih (hsplit ▸ List.mem_cons_self ..) hmem
        · exact ih (hsplit ▸ List.mem_cons_of_mem _ h)

theorem getLast?_splitString {delim : Char} {t : Text} (hne : t ≠ [])
    (hlast : t.getLast? ≠ some delim) : ∃ line, (splitString delim t).getLast? = some line ∧
      line ≠ [] := by
  induction t with
  | nil => exact absurd rfl hne
  | cons c t ih =>
    unfold splitString
    rcases eq_or_ne t [] with rfl | ht
    · have hc : c ≠ delim := fun hc => hlast (congrArg some hc)
      rw [if_neg hc]
      exact ⟨[c], rfl, nofun⟩
    · rw [List.getLast?_cons_of_ne_nil ht] at hlast
      obtain ⟨line, hline, hlne⟩ := ih ht hlast
      split
      case isTrue =>
        refine ⟨line, ?_, hlne⟩
        rw [List.getLast?_cons_of_ne_nil fun hnil => ?_, hline]
        rw [hnil] at hline
        cases hline
      case isFalse =>
        cases hsplit : splitString delim t with
        | nil => rw [hsplit] at hline; cases hline
        | cons first rest =>
          rw [hsplit] at hline
          rcases eq_or_ne rest [] with rfl | hrest
          · exact ⟨c :: first, rfl, nofun⟩
          · rw [List.getLast?_cons_of_ne_nil hrest] at hline
            refine ⟨line, ?_, hlne⟩
            exact (List.getLast?_cons_of_ne_nil hrest).trans hline

theorem splitString_line {delim : Char} {line : Text} (h : delim ∉ line) (t : Text) :
    splitString delim (line ++ delim :: t) = line :: splitString delim t := by
  induction line with
  | nil => exact if_pos rfl
  | cons c line ih =>
    have hne : c ≠ delim := fun hc => h (hc ▸ List.mem_cons_self ..)
    rw [List.cons_append, splitString, if_neg hne, ih fun hc => h (List.mem_cons_of_mem _ hc)]

theorem splitString_last {delim : Char} {line : Text} (h : delim ∉ line) (hne : line ≠ []) :
    splitString delim line = [line] := by
  induction line with
  | nil => exact absurd rfl hne
  | cons c line ih =>
    have hc : c ≠ delim := fun hc => h (hc ▸ List.mem_cons_self ..)
    rw [splitString, if_neg hc]
    cases line with
    | nil => rw [splitString_nil]
    | cons d line => rw [ih (fun hc => h (List.mem_cons_of_mem _ hc)) nofun]

theorem mem_of_mem_splitString {delim c : Char} {t line : Text}
    (h : line ∈ splitString delim t) (hc : c ∈ line) : c ∈ t := by
  induction t generalizing line with
  | nil => cases h
  | cons d t ih =>
    unfold splitString at h
    split at h
    case isTrue =>
      rcases List.mem_cons.1 h with rfl | h
      · cases hc
      · exact List.mem_cons_of_mem _ (ih h hc)
    case isFalse =>
      split at h
      case h_1 =>
        rw [List.mem_singleton.1 h, List.mem_singleton] at hc
        exact hc ▸ List.mem_cons_self ..
      case h_2 first rest hsplit =>
        rcases List.mem_cons.1 h with rfl | h
        · rcases List.mem_cons.1 hc with rfl | hc
          · exact List.mem_cons_self ..
          · exact List.mem_cons_of_mem _ (ih (hsplit ▸ List.mem_cons_self ..) hc)
        · exact List.mem_cons_of_mem _ (ih (hsplit ▸ List.mem_cons_of_mem _ h) hc)

theorem splitString_cons_ne_nil (delim c : Char) (t : Text) : splitString delim (c :: t) ≠ [] := by
  unfold splitString
  split
  case isTrue => exact List.cons_ne_nil _ _
  case isFalse =>
    split
    all_goals exact List.cons_ne_nil _ _

theorem splitString_append (delim : Char) (t u : Text) :
    ∃ empty : List Text, (∀ line ∈ empty, line = []) ∧
      splitString delim (t ++ delim :: u) = splitString delim t ++ empty ++ splitString delim u := by
  induction t with
  | nil => exact ⟨[[]], by simp, if_pos rfl⟩
  | cons c t ih =>
    obtain ⟨empty, hempty, hsplit⟩ := ih
    rcases eq_or_ne c delim with rfl | hc
    · refine ⟨empty, hempty, ?_⟩
      rw [List.cons_append, splitString, if_pos rfl, hsplit, splitString, if_pos rfl]
      rfl
    · rw [List.cons_append, splitString, if_neg hc, hsplit, splitString, if_neg hc]
      cases t with
      | nil =>
        refine ⟨[], by simp, ?_⟩
        have hhead : splitString delim ([] ++ delim :: u) = [] :: splitString delim u := if_pos rfl
        rw [← hsplit, hhead]
        rfl
      | cons d t =>
        obtain ⟨line, rest, hlines⟩ := List.exists_cons_of_ne_nil (splitString_cons_ne_nil delim d t)
        exact ⟨empty, hempty, by rw [hlines]; rfl⟩

end DolphinXR.Common
