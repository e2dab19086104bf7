import DolphinXR.InputCommon.ExpressionLexer
import Mathlib.Data.List.Chain

/- What the lexer makes of a text that is put together from lexemes, with whitespace and comments
   between them. A lexeme is read back whatever is behind it, unless that goes on with it: a letter
   behind a name, a digit or a point behind a number, `=` behind an operator, `*` behind a slash.
   Where no lexeme is followed by one that goes on with it, the tokens of the text are the lexemes
   and the end. -/
namespace DolphinXR.ExpressionParser

open Common

namespace TokenType

/-- How a token without data is written. -/
def char : TokenType → Char
  | lparen => '('
  | rparen => ')'
  | not => '!'
  | hotkey => '@'
  | question => '?'
  | colon => ':'
  | and => '&'
  | or => '|'
  | xor => '^'
  | add => '+'
  | sub => '-'
  | mul => '*'
  | div => '/'
  | mod => '%'
  | assign => '='
  | lthan => '<'
  | gthan => '>'
  | comma => ','
  | whitespace | invalid | eof | control | literal | «variable» | bareword | comment => ' '

def isMark : TokenType → Bool
  | whitespace | invalid | eof | control | literal | «variable» | bareword | comment => false
  | _ => true

end TokenType

inductive Lexeme where
  | mark (type : TokenType)
  | compound (op : TokenType)
  | number (value : Text)
  | quoted (value : Text)
  | variable (name : Text)
  | control (name : Text)
  | bareword (name : Text)

namespace Lexeme

def text : Lexeme → Text
  | mark type => [type.char]
  | compound op => [op.char, '=']
  | number value => value
  | quoted value => '\'' :: (value ++ ['\''])
  | «variable» name => '$' :: name
  | control name => '`' :: (name ++ ['`'])
  | bareword name => name

def token : Lexeme → Token
  | mark type => { type := type }
  | compound op => { type := .assign, data := [op.char] }
  | number value => { type := .literal, data := value }
  | quoted value => { type := .literal, data := value }
  | «variable» name => { type := .variable, data := name }
  | control name => { type := .control, data := name }
  | bareword name => { type := .bareword, data := name }

/-- The lexeme can be written. -/
def Valid : Lexeme → Prop
  | mark type => type.isMark = true
  | compound op => op.isCompoundAssignmentUsable = true
  | number value => isRealLiteral value = true
  | quoted value => ∀ c ∈ value, c ≠ '\'' ∧ c ≠ '\n'
  | «variable» name => ∀ c ∈ name, isWordChar c = true
  | control name => ∀ c ∈ name, c ≠ '`' ∧ c ≠ '\n'
  | bareword name => (∃ c ∈ name.head?, c.isAlpha = true) ∧ ∀ c ∈ name, isWordChar c = true

/-- The lexer would go on with a character behind the lexeme. -/
def goesOn : Lexeme → Char → Bool
  | mark type, c =>
    (type.isCompoundAssignmentUsable && c == '=') || (decide (type = .div) && c == '*')
  | number _, c => isRealChar c
  | «variable» _, c => isWordChar c
  | bareword _, c => isWordChar c
  | compound _, _ | quoted _, _ | control _, _ => false

end Lexeme

/-! ### Runs of characters -/

theorem takeWhile_dropWhile_append {p : Char → Bool} {value rest : Text}
    (hvalue : ∀ c ∈ value, p c = true) (hrest : ∀ c ∈ rest.head?, p c = false) :
    (value ++ rest).takeWhile p = value ∧ (value ++ rest).dropWhile p = rest := by
  rw [List.takeWhile_append_of_pos hvalue, List.dropWhile_append_of_pos hvalue]
  cases rest with
  | nil => exact ⟨List.append_nil _, rfl⟩
  | cons c rest =>
    have hc : ¬ p c = true := Bool.eq_false_iff.1 (hrest c rfl)
    rw [List.takeWhile_cons_of_neg hc, List.dropWhile_cons_of_neg hc]
    exact ⟨List.append_nil _, rfl⟩

theorem getDelimitedToken_eq (type : TokenType) {delimiter : Char} {value : Text} (rest : Text)
    (h : ∀ c ∈ value, c ≠ delimiter ∧ c ≠ '\n') :
    getDelimitedToken type delimiter (value ++ delimiter :: rest) =
      ({ type := type, data := value }, rest) := by
  unfold getDelimitedToken
  have hvalue : ∀ c ∈ value, (c != delimiter && c != '\n') = true := fun c hmem => by
    simp [h c hmem]
  have hrest : ∀ c ∈ (delimiter :: rest).head?, (c != delimiter && c != '\n') = false :=
    fun c hc => by
      cases hc
      simp
  obtain ⟨htake, hdrop⟩ := takeWhile_dropWhile_append hvalue hrest
  dsimp only
  rw [htake, hdrop]
  exact if_pos rfl

theorem isRealChar_of_isRealLiteral {value : Text} (h : isRealLiteral value = true) :
    ∀ c ∈ value, isRealChar c = true := by
  unfold isRealLiteral at h
  obtain ⟨-, hrest⟩ := Bool.and_eq_true_iff.1 h
  have hdigit (c : Char) (hc : c.isDigit = true) : isRealChar c = true := by
    simp [isRealChar, hc]
  intro c hmem
  rw [← List.takeWhile_append_dropWhile (p := Char.isDigit) (l := value)] at hmem
  obtain hmem | hmem := List.mem_append.1 hmem
  · exact hdigit c (List.mem_takeWhile_imp hmem)
  · cases hvalue : value.dropWhile Char.isDigit with
    | nil =>
      rw [hvalue] at hmem
      cases hmem
    | cons point fraction =>
      rw [hvalue] at hrest hmem
      simp only [Bool.and_eq_true, beq_iff_eq, List.all_eq_true] at hrest
      obtain rfl | hmem := List.mem_cons.1 hmem
      · simp [isRealChar, hrest.1.1]
      · exact hdigit c (hrest.2 c hmem)

/-! ### One lexeme -/

theorem nextToken_operator {c : Char} {rest : Text} {type : TokenType}
    (htype : getBinaryOperatorTokenTypeFromChar c = type) (hne : type ≠ .invalid)
    (hcomment : ¬ (c = '/' ∧ rest.head? = some '*'))
    (hcompound : ¬ (type.isCompoundAssignmentUsable = true ∧ rest.head? = some '=')) :
    nextToken (c :: rest) = ({ type := type }, rest) := by
  rw [nextToken, if_neg hcomment]
  dsimp only
  rw [htype, if_pos hne, if_neg hcompound]

theorem nextToken_compound {c : Char} {rest : Text} {type : TokenType}
    (htype : getBinaryOperatorTokenTypeFromChar c = type)
    (husable : type.isCompoundAssignmentUsable = true) :
    nextToken (c :: '=' :: rest) = ({ type := .assign, data := [c] }, rest) := by
  have hne : type ≠ .invalid := fun h => by simp [h, TokenType.isCompoundAssignmentUsable] at husable
  rw [nextToken, if_neg (by simp)]
  dsimp only
  rw [htype, if_pos hne, if_pos ⟨husable, rfl⟩]
  rfl

theorem nextToken_plain {c : Char} {rest : Text}
    (htype : getBinaryOperatorTokenTypeFromChar c = .invalid) :
    nextToken (c :: rest) = nextPlainToken c rest := by
  have hslash : c ≠ '/' := by
    rintro rfl
    contradiction
  rw [nextToken, if_neg (fun h => hslash h.1)]
  dsimp only
  rw [htype, if_neg (not_not.2 rfl)]

theorem operator_of_isWordChar {c : Char} (h : isWordChar c = true) :
    getBinaryOperatorTokenTypeFromChar c = .invalid := by
  unfold getBinaryOperatorTokenTypeFromChar
  repeat rw [if_neg (by
    rintro rfl
    contradiction)]

theorem nextPlainToken_alpha {c : Char} {rest : Text} (h : c.isAlpha = true) :
    nextPlainToken c rest = getBareword c rest := by
  unfold nextPlainToken
  rw [if_neg (by rintro (rfl | rfl | rfl | rfl) <;> contradiction)]
  repeat rw [if_neg (by
    rintro rfl
    contradiction)]
  exact if_pos h

theorem nextPlainToken_digit {c : Char} {rest : Text} (h : c.isDigit = true) :
    nextPlainToken c rest = getRealLiteral c rest := by
  have hle : c.val ≤ 57 := of_decide_eq_true (Bool.and_eq_true_iff.1 h).2
  have halpha : ¬ c.isAlpha = true := by
    intro hor
    rcases Bool.or_eq_true_iff.1 hor with hor | hor
    · have hge : 65 ≤ c.val := (of_decide_eq_true hor).1
      exact absurd (UInt32.le_trans hge hle) (by decide)
    · have hge : 97 ≤ c.val := of_decide_eq_true (Bool.and_eq_true_iff.1 hor).1
      exact absurd (UInt32.le_trans hge hle) (by decide)
  unfold nextPlainToken
  rw [if_neg (by rintro (rfl | rfl | rfl | rfl) <;> contradiction)]
  repeat rw [if_neg (by
    rintro rfl
    contradiction)]
  rw [if_neg halpha, if_pos h]

theorem operator_char {type : TokenType} (h : type.isBinaryOperator = true) :
    getBinaryOperatorTokenTypeFromChar type.char = type := by
  cases type with
  | whitespace | invalid | eof | lparen | rparen | not | control | literal | «variable»
  | bareword | comment | hotkey | question | colon => contradiction
  | _ => rfl

theorem isBinaryOperator_of_usable {type : TokenType}
    (h : type.isCompoundAssignmentUsable = true) : type.isBinaryOperator = true := by
  cases type with
  | and | or | xor | add | sub | mul | div | mod => rfl
  | _ => contradiction

theorem nextToken_mark {type : TokenType} {rest : Text} (hmark : type.isMark = true)
    (hrest : ∀ c ∈ rest.head?, (Lexeme.mark type).goesOn c = false) :
    nextToken (type.char :: rest) = ({ type := type }, rest) := by
  cases hbinary : type.isBinaryOperator with
  | true =>
    refine nextToken_operator (operator_char hbinary) ?_ ?_ ?_
    · rintro rfl
      contradiction
    · rintro ⟨hslash, hstar⟩
      have htype : type = .div := by
        rw [← operator_char hbinary, hslash]
        rfl
      have := hrest _ hstar
      simp [Lexeme.goesOn, htype] at this
    · rintro ⟨husable, hequals⟩
      have := hrest _ hequals
      simp [Lexeme.goesOn, husable] at this
  | false =>
    cases type with
    | lparen | rparen | not | hotkey | question | colon => exact nextToken_plain rfl
    | _ => contradiction

theorem nextToken_lexeme {l : Lexeme} {rest : Text} (hvalid : l.Valid)
    (hrest : ∀ c ∈ rest.head?, l.goesOn c = false) :
    nextToken (l.text ++ rest) = (l.token, rest) := by
  cases l with
  | mark type => exact nextToken_mark hvalid hrest
  | compound op =>
    exact nextToken_compound (operator_char (isBinaryOperator_of_usable hvalid)) hvalid
  | number value =>
    cases value with
    | nil => contradiction
    | cons c value =>
      have hdigit : c.isDigit = true := by
        by_contra hnot
        have hvalid : isRealLiteral (c :: value) = true := hvalid
        rw [isRealLiteral, List.takeWhile_cons_of_neg hnot] at hvalid
        contradiction
      have hall := isRealChar_of_isRealLiteral hvalid
      obtain ⟨htake, hdrop⟩ := takeWhile_dropWhile_append
        (fun d hmem => hall d (List.mem_cons_of_mem _ hmem)) hrest
      have hword : isWordChar c = true := by simp [isWordChar, hdigit]
      change nextToken (c :: (value ++ rest)) = _
      rw [nextToken_plain (operator_of_isWordChar hword), nextPlainToken_digit hdigit,
        getRealLiteral, htake, hdrop]
      exact if_pos hvalid
  | quoted value =>
    have hdelimited := getDelimitedToken_eq .literal rest hvalid
    change nextToken ('\'' :: (value ++ ['\''] ++ rest)) = _
    rw [nextToken_plain rfl, List.append_assoc]
    exact hdelimited
  | «variable» name =>
    obtain ⟨htake, hdrop⟩ := takeWhile_dropWhile_append hvalid hrest
    change nextToken ('$' :: (name ++ rest)) = _
    rw [nextToken_plain rfl]
    change getVariable (name ++ rest) = _
    rw [getVariable, htake, hdrop]
    rfl
  | control name =>
    have hdelimited := getDelimitedToken_eq .control rest hvalid
    change nextToken ('`' :: (name ++ ['`'] ++ rest)) = _
    rw [nextToken_plain rfl, List.append_assoc]
    exact hdelimited
  | bareword name =>
    obtain ⟨⟨c, hc, halpha⟩, hall⟩ := hvalid
    cases name with
    | nil => cases hc
    | cons d name =>
      cases hc
      obtain ⟨htake, hdrop⟩ := takeWhile_dropWhile_append
        (fun d hmem => hall d (List.mem_cons_of_mem _ hmem)) hrest
      change nextToken (c :: (name ++ rest)) = _
      rw [nextToken_plain (operator_of_isWordChar (hall c List.mem_cons_self)),
        nextPlainToken_alpha halpha, getBareword, htake, hdrop]
      rfl

/-! ### Whitespace and comments -/

inductive Inert where
  | blank (c : Char)
  | comment (body : Text)

namespace Inert

def text : Inert → Text
  | blank c => [c]
  | comment body => '/' :: '*' :: (body ++ ['*', '/'])

def Valid : Inert → Prop
  | blank c => c = ' ' ∨ c = '\t' ∨ c = '\n' ∨ c = '\r'
  | comment body => ¬ ['*', '/'] <:+: body

end Inert

theorem afterComment_append {body : Text} (rest : Text) (h : ¬ ['*', '/'] <:+: body) :
    afterComment (body ++ '*' :: '/' :: rest) = some rest := by
  induction body with
  | nil => rfl
  | cons c body ih =>
    have hbody : ¬ ['*', '/'] <:+: body := fun hinside =>
      h (hinside.trans (List.suffix_cons c body).isInfix)
    rw [List.cons_append, afterComment]
    · exact ih hbody
    · -- The two characters do not begin in front of the rest of the body either.
      intro inner hc hinner
      cases body with
      | nil => cases hinner
      | cons d body =>
        cases hinner
        exact h ⟨[], body, by rw [hc]; rfl⟩

theorem nextToken_inert {i : Inert} (h : i.Valid) (rest : Text) :
    ∃ tok, nextToken (i.text ++ rest) = (tok, rest) ∧ isInertToken tok = true := by
  cases i with
  | blank c =>
    refine ⟨{ type := .whitespace }, ?_, rfl⟩
    obtain rfl | rfl | rfl | rfl := h
    · rfl
    · rfl
    · rfl
    · rfl
  | comment body =>
    refine ⟨{ type := .comment }, ?_, rfl⟩
    change nextToken ('/' :: '*' :: (body ++ ['*', '/'] ++ rest)) = _
    rw [nextToken, if_pos ⟨rfl, rfl⟩, List.tail_cons, List.append_assoc]
    simp only [List.cons_append, List.nil_append]
    rw [afterComment_append rest h]

/-! ### A whole text -/

def Token.key (tok : Token) : TokenType × Text := (tok.type, tok.data)

def Reads (tokens : List Token) (keys : List (TokenType × Text)) : Prop :=
  (tokens.filter fun tok => !isInertToken tok).map Token.key = keys

def inertText (separator : List Inert) : Text := separator.flatMap Inert.text

/-- Lexemes, each behind what separates it from the one before, and what is behind the last. -/
def spell : List (List Inert × Lexeme) → List Inert → Text
  | [], trailing => inertText trailing
  | (separator, l) :: pieces, trailing => inertText separator ++ (l.text ++ spell pieces trailing)

def Lexeme.mayPrecede (l next : Lexeme) : Prop := ∀ c ∈ next.text.head?, l.goesOn c = false

def Lexed (text : Text) (keys : List (TokenType × Text)) : Prop :=
  ∀ rounds position, text.length < rounds →
    ∃ tokens, tokenizeLoop rounds position text = some (.successful, tokens) ∧ Reads tokens keys

theorem lexed_nil : Lexed [] [(.eof, [])] := by
  intro rounds position h
  cases rounds with
  | zero => omega
  | succ rounds => exact ⟨_, rfl, rfl⟩

theorem lexed_cons {c : Char} {text rest : Text} {tok : Token} {keys : List (TokenType × Text)}
    (hnext : nextToken (c :: text) = (tok, rest)) (hinvalid : tok.type ≠ .invalid)
    (heof : tok.type ≠ .eof) (h : Lexed rest keys) :
    Lexed (c :: text) (if isInertToken tok = true then keys else tok.key :: keys) := by
  intro rounds position hrounds
  have hlength : rest.length ≤ text.length := by
    have h := nextToken_length c text
    rwa [hnext] at h
  cases rounds with
  | zero => omega
  | succ rounds =>
    rw [List.length_cons] at hrounds
    obtain ⟨tokens, hloop, hreads⟩ := h rounds
      (position + ((c :: text).length - rest.length)) (by omega)
    rw [tokenizeLoop]
    dsimp only
    rw [hnext, if_neg hinvalid, if_neg heof, hloop]
    refine ⟨_, rfl, ?_⟩
    unfold Reads at hreads ⊢
    split
    case isTrue hinert =>
      rw [List.filter_cons_of_neg]
      · exact hreads
      · change ¬ (!isInertToken tok) = true
        simp [hinert]
    case isFalse hinert =>
      rw [List.filter_cons_of_pos, List.map_cons, hreads]
      · rfl
      · change (!isInertToken tok) = true
        simp [hinert]

theorem lexed_inert {separator : List Inert} {text : Text} {keys : List (TokenType × Text)}
    (hvalid : ∀ i ∈ separator, i.Valid) (h : Lexed text keys) :
    Lexed (inertText separator ++ text) keys := by
  induction separator with
  | nil => exact h
  | cons i separator ih =>
    obtain ⟨hi, hseparator⟩ := List.forall_mem_cons.1 hvalid
    have hrest := ih hseparator
    obtain ⟨tok, hnext, hinert⟩ := nextToken_inert hi (inertText separator ++ text)
    obtain ⟨heof, hinvalid⟩ := inert_not_end hinert
    have htext : inertText (i :: separator) ++ text = i.text ++ (inertText separator ++ text) := by
      simp [inertText, List.flatMap_cons]
    rw [htext]
    obtain ⟨c, inner, hcons⟩ : ∃ c inner, i.text = c :: inner := by
      cases i with
      | blank c => exact ⟨c, [], rfl⟩
      | comment body => exact ⟨'/', _, rfl⟩
    rw [hcons] at hnext ⊢
    have hlexed := lexed_cons hnext hinvalid heof hrest
    rwa [if_pos hinert] at hlexed

theorem goesOn_inert {l : Lexeme} {i : Inert} (h : i.Valid) :
    ∀ c ∈ i.text.head?, l.goesOn c = false := by
  have hblank (c : Char) (hc : c = ' ' ∨ c = '\t' ∨ c = '\n' ∨ c = '\r' ∨ c = '/') :
      l.goesOn c = false := by
    obtain rfl | rfl | rfl | rfl | rfl := hc
    all_goals
      cases l with
      | mark type => simp [Lexeme.goesOn]
      | _ => rfl
  intro c hc
  cases i with
  | blank d =>
    cases hc
    obtain h | h | h | h := h
    all_goals exact hblank c (by simp [h])
  | comment body =>
    cases hc
    exact hblank '/' (by simp)

theorem lexeme_token {l : Lexeme} (h : l.Valid) :
    l.token.type ≠ .invalid ∧ l.token.type ≠ .eof ∧ isInertToken l.token = false := by
  cases l with
  | mark type =>
    cases type with
    | whitespace | invalid | eof | control | literal | «variable» | bareword | comment =>
      contradiction
    | _ => exact ⟨nofun, nofun, rfl⟩
  | _ => exact ⟨nofun, nofun, rfl⟩

theorem lexeme_text {l : Lexeme} (h : l.Valid) : ∃ c inner, l.text = c :: inner := by
  cases l with
  | number value =>
    cases value with
    | nil => contradiction
    | cons c value => exact ⟨c, value, rfl⟩
  | bareword name =>
    cases name with
    | nil =>
      obtain ⟨⟨c, hc, -⟩, -⟩ := h
      cases hc
    | cons c name => exact ⟨c, name, rfl⟩
  | _ => exact ⟨_, _, rfl⟩

theorem head_spell {l : Lexeme} {pieces : List (List Inert × Lexeme)} {trailing : List Inert}
    (hinert : ∀ piece ∈ pieces, ∀ i ∈ piece.1, i.Valid) (htrailing : ∀ i ∈ trailing, i.Valid)
    (hnext : ∀ next ∈ (pieces.map Prod.snd).head?, l.mayPrecede next ∧ next.Valid) :
    ∀ c ∈ (spell pieces trailing).head?, l.goesOn c = false := by
  have hseparator (i : Inert) (separator : List Inert) (rest : Text) (h : i.Valid) :
      ∀ c ∈ (inertText (i :: separator) ++ rest).head?, l.goesOn c = false := by
    intro c hc
    refine goesOn_inert h c ?_
    cases i with
    | blank d => exact hc
    | comment body => exact hc
  cases pieces with
  | nil =>
    cases trailing with
    | nil => nofun
    | cons i trailing =>
      have h := hseparator i trailing [] (htrailing i List.mem_cons_self)
      rwa [List.append_nil] at h
  | cons piece pieces =>
    obtain ⟨separator, next⟩ := piece
    cases separator with
    | cons i separator =>
      exact hseparator i separator _ (hinert _ List.mem_cons_self i List.mem_cons_self)
    | nil =>
      obtain ⟨hmay, hvalid⟩ := hnext next rfl
      obtain ⟨c, inner, htext⟩ := lexeme_text hvalid
      intro d hd
      refine hmay d ?_
      have hspell : spell (([], next) :: pieces) trailing = next.text ++ spell pieces trailing :=
        rfl
      rw [hspell, htext] at hd
      rw [htext]
      exact hd

theorem lexed_spell {pieces : List (List Inert × Lexeme)} {trailing : List Inert}
    (hinert : ∀ piece ∈ pieces, ∀ i ∈ piece.1, i.Valid) (htrailing : ∀ i ∈ trailing, i.Valid)
    (hvalid : ∀ piece ∈ pieces, piece.2.Valid)
    (hchain : (pieces.map Prod.snd).IsChain Lexeme.mayPrecede) :
    Lexed (spell pieces trailing)
      ((pieces.map fun piece => piece.2.token.key) ++ [(.eof, [])]) := by
  induction pieces with
  | nil =>
    have h := lexed_inert htrailing lexed_nil
    rwa [List.append_nil] at h
  | cons piece pieces ih =>
    obtain ⟨separator, l⟩ := piece
    obtain ⟨hhere, hthere⟩ := List.forall_mem_cons.1 hinert
    obtain ⟨hl, hvalid⟩ := List.forall_mem_cons.1 hvalid
    rw [List.map_cons, List.isChain_cons] at hchain
    have hrest := ih hthere hvalid hchain.2
    refine lexed_inert hhere ?_
    have hstop : ∀ c ∈ (spell pieces trailing).head?, l.goesOn c = false := by
      refine head_spell hthere htrailing fun next hmem => ⟨hchain.1 next hmem, ?_⟩
      obtain ⟨piece, hpiece, rfl⟩ := List.mem_map.1 (List.mem_of_mem_head? hmem)
      exact hvalid piece hpiece
    have hnext := nextToken_lexeme hl hstop
    obtain ⟨hinvalid, heof, hnot⟩ := lexeme_token hl
    obtain ⟨c, inner, htext⟩ := lexeme_text hl
    rw [htext, List.cons_append] at hnext ⊢
    have hlexed := lexed_cons hnext hinvalid heof hrest
    rwa [if_neg (Bool.eq_false_iff.1 hnot)] at hlexed

theorem tokenize_spell {pieces : List (List Inert × Lexeme)} {trailing : List Inert}
    (hinert : ∀ piece ∈ pieces, ∀ i ∈ piece.1, i.Valid) (htrailing : ∀ i ∈ trailing, i.Valid)
    (hvalid : ∀ piece ∈ pieces, piece.2.Valid)
    (hchain : (pieces.map Prod.snd).IsChain Lexeme.mayPrecede) :
    ∃ tokens, tokenize (spell pieces trailing) = some (.successful, tokens) ∧
      Reads tokens ((pieces.map fun piece => piece.2.token.key) ++ [(.eof, [])]) :=
  lexed_spell hinert htrailing hvalid hchain _ _ (Nat.lt_succ_self _)

end DolphinXR.ExpressionParser
