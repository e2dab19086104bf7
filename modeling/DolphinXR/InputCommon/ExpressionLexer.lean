import DolphinXR.Common.StringUtil

/- The lexer of input expressions (InputCommon/ControlReference/ExpressionParser.cpp). A text is cut
   into tokens, whitespace and comments among them, until its end or a token that is invalid. Every
   token but the last takes at least one character, so that as many rounds as there are characters
   are enough. -/
namespace DolphinXR.ExpressionParser

open Common

inductive TokenType where
  | whitespace | invalid | eof | lparen | rparen | not | control | literal | variable | bareword
  | comment | hotkey | question | colon
  | and | or | xor | add | sub | mul | div | mod | assign | lthan | gthan | comma
  deriving DecidableEq

namespace TokenType

def isCompoundAssignmentUsable : TokenType → Bool
  | and | or | xor | add | sub | mul | div | mod => true
  | _ => false

def isBinaryOperator : TokenType → Bool
  | and | or | xor | add | sub | mul | div | mod | assign | lthan | gthan | comma => true
  | _ => false

end TokenType

def getBinaryOperatorTokenTypeFromChar (c : Char) : TokenType :=
  if c = '+' then .add
  else if c = '-' then .sub
  else if c = '*' then .mul
  else if c = '/' then .div
  else if c = '%' then .mod
  else if c = '=' then .assign
  else if c = '<' then .lthan
  else if c = '>' then .gthan
  else if c = ',' then .comma
  else if c = '^' then .xor
  else if c = '&' then .and
  else if c = '|' then .or
  else .invalid

structure Token where
  type : TokenType
  data : Text := []
  stringPosition : Nat := 0
  stringLength : Nat := 0
  deriving DecidableEq

def isInertToken (tok : Token) : Bool :=
  decide (tok.type = .comment) || decide (tok.type = .whitespace)

/-! ### Single tokens -/

def isWordChar (c : Char) : Bool := c.isAlpha || c.isDigit || c == '_'

/-- The characters up to the delimiter, which has to stand on the same line. -/
def getDelimitedToken (type : TokenType) (delimiter : Char) (text : Text) : Token × Text :=
  let inside (c : Char) : Bool := c != delimiter && c != '\n'
  let value := text.takeWhile inside
  match text.dropWhile inside with
  | [] => ({ type := .invalid }, [])
  | c :: rest =>
    if c = delimiter then ({ type := type, data := value }, rest)
    else ({ type := .invalid }, c :: rest)

def getVariable (text : Text) : Token × Text :=
  ({ type := .variable, data := text.takeWhile isWordChar }, text.dropWhile isWordChar)

def getBareword (firstChar : Char) (text : Text) : Token × Text :=
  ({ type := .bareword, data := firstChar :: text.takeWhile isWordChar },
    text.dropWhile isWordChar)

def isRealChar (c : Char) : Bool := c.isDigit || '.' == c

/-- The expression `\d+(\.\d+)?`. -/
def isRealLiteral (value : Text) : Bool :=
  !(value.takeWhile Char.isDigit).isEmpty &&
    match value.dropWhile Char.isDigit with
    | [] => true
    | c :: fraction => c == '.' && !fraction.isEmpty && fraction.all Char.isDigit

def getRealLiteral (firstChar : Char) (text : Text) : Token × Text :=
  let value := firstChar :: text.takeWhile isRealChar
  let rest := text.dropWhile isRealChar
  if isRealLiteral value then ({ type := .literal, data := value }, rest)
  else ({ type := .invalid }, rest)

/-- The text behind the first end of a comment. -/
def afterComment : Text → Option Text
  | '*' :: '/' :: rest => some rest
  | _ :: rest => afterComment rest
  | [] => none

/-- A token that is neither a comment nor a binary operator. -/
def nextPlainToken (c : Char) (rest : Text) : Token × Text :=
  if c = ' ' ∨ c = '\t' ∨ c = '\n' ∨ c = '\r' then ({ type := .whitespace }, rest)
  else if c = '(' then ({ type := .lparen }, rest)
  else if c = ')' then ({ type := .rparen }, rest)
  else if c = '@' then ({ type := .hotkey }, rest)
  else if c = '?' then ({ type := .question }, rest)
  else if c = ':' then ({ type := .colon }, rest)
  else if c = '!' then ({ type := .not }, rest)
  else if c = '\'' then getDelimitedToken .literal '\'' rest
  else if c = '$' then getVariable rest
  else if c = '`' then getDelimitedToken .control '`' rest
  else if c.isAlpha then getBareword c rest
  else if c.isDigit then getRealLiteral c rest
  else ({ type := .invalid }, rest)

/-- The next token and the text behind it. -/
def nextToken : Text → Token × Text
  | [] => ({ type := .eof }, [])
  | c :: rest =>
    if c = '/' ∧ rest.head? = some '*' then
      match afterComment rest.tail with
      | none => ({ type := .invalid }, rest.tail)
      | some rest => ({ type := .comment }, rest)
    else
      let tokType := getBinaryOperatorTokenTypeFromChar c
      if tokType ≠ .invalid then
        -- Check for compound assignment op, e.g. + immediately followed by =.
        if tokType.isCompoundAssignmentUsable ∧ rest.head? = some '=' then
          ({ type := .assign, data := [c] }, rest.tail)
        else ({ type := tokType }, rest)
      else nextPlainToken c rest

inductive ParseStatus where
  | successful | syntaxError | emptyExpression
  deriving DecidableEq

/-- The rounds of `Tokenize`, with the position in the text; `none` where there are too few. -/
def tokenizeLoop : Nat → Nat → Text → Option (ParseStatus × List Token)
  | 0, _, _ => none
  | rounds + 1, position, text =>
    let next := nextToken text
    let length := text.length - next.2.length
    let tok := { next.1 with stringPosition := position, stringLength := length }
    if tok.type = .invalid then some (.syntaxError, [tok])
    else if tok.type = .eof then some (.successful, [tok])
    else (tokenizeLoop rounds (position + length) next.2).map fun x => (x.1, tok :: x.2)

def tokenize (text : Text) : Option (ParseStatus × List Token) :=
  tokenizeLoop (text.length + 1) 0 text

/-! ### The end of a text is reached -/

theorem getDelimitedToken_length (type : TokenType) (delimiter : Char) (text : Text) :
    (getDelimitedToken type delimiter text).2.length ≤ text.length := by
  unfold getDelimitedToken
  have hle := List.length_dropWhile_le (fun c => c != delimiter && c != '\n') text
  dsimp only
  cases hrest : text.dropWhile fun c => c != delimiter && c != '\n' with
  | nil => exact Nat.zero_le _
  | cons c rest =>
    rw [hrest, List.length_cons] at hle
    dsimp only
    split
    · exact Nat.le_of_succ_le hle
    · exact hle

theorem length_ite {p : Prop} [Decidable p] {x y : Token × Text} {n : Nat}
    (hx : x.2.length ≤ n) (hy : y.2.length ≤ n) : (if p then x else y).2.length ≤ n := by
  split
  · exact hx
  · exact hy

theorem nextPlainToken_length (c : Char) (rest : Text) :
    (nextPlainToken c rest).2.length ≤ rest.length := by
  unfold nextPlainToken
  repeat' apply length_ite
  all_goals first
    | exact Nat.le_refl _
    | exact getDelimitedToken_length ..
    | exact getRealLiteral_length ..
    | exact List.length_dropWhile_le ..

theorem afterComment_length {text rest : Text} (h : afterComment text = some rest) :
    rest.length ≤ text.length := by
  induction text using afterComment.induct with
  | case1 inner =>
    rw [afterComment] at h
    cases h
    exact (Nat.le_succ _).trans (Nat.le_succ _)
  | case2 c inner hnot ih =>
    rw [afterComment] at h
    · exact (ih h).trans (Nat.le_succ _)
    · exact hnot
  | case3 => cases h

theorem nextToken_length (c : Char) (rest : Text) :
    (nextToken (c :: rest)).2.length ≤ rest.length := by
  have htail : rest.tail.length ≤ rest.length := by simp
  rw [nextToken]
  by_cases hcomment : c = '/' ∧ rest.head? = some '*'
  · rw [if_pos hcomment]
    cases hafter : afterComment rest.tail with
    | none => exact htail
    | some inner => exact (afterComment_length hafter).trans htail
  · rw [if_neg hcomment]
    dsimp only
    split
    case isTrue =>
      split
      · exact htail
      · exact Nat.le_refl _
    case isFalse => exact nextPlainToken_length c rest

theorem inert_not_end {tok : Token} (h : isInertToken tok = true) :
    tok.type ≠ .eof ∧ tok.type ≠ .invalid := by
  simp only [isInertToken, Bool.or_eq_true, decide_eq_true_eq] at h
  obtain h | h := h <;> simp [h]

def Ended (tokens : List Token) : Prop :=
  ∃ tok ∈ tokens.getLast?, tok.type = .eof ∨ tok.type = .invalid

theorem tokenizeLoop_ends {rounds position : Nat} {text : Text} (h : text.length < rounds) :
    ∃ status tokens, tokenizeLoop rounds position text = some (status, tokens) ∧
      Ended tokens := by
  induction rounds generalizing position text with
  | zero => omega
  | succ rounds ih =>
    unfold tokenizeLoop
    dsimp only
    split
    case isTrue hinvalid => exact ⟨_, _, rfl, _, rfl, .inr hinvalid⟩
    case isFalse =>
      split
      case isTrue heof => exact ⟨_, _, rfl, _, rfl, .inl heof⟩
      case isFalse heof =>
        cases text with
        | nil => exact absurd rfl heof
        | cons c rest =>
          have hlength := nextToken_length c rest
          have hround : (nextToken (c :: rest)).2.length < rounds := by
            simp only [List.length_cons] at h
            omega
          obtain ⟨status, tokens, hloop, tok, hlast, hend⟩ := ih hround
          rw [hloop]
          refine ⟨status, _, rfl, tok, ?_, hend⟩
          rw [List.getLast?_cons, hlast]
          rfl

theorem tokenize_ends (text : Text) :
    ∃ status tokens, tokenize text = some (status, tokens) ∧ Ended tokens :=
  tokenizeLoop_ends (Nat.lt_succ_self _)

end DolphinXR.ExpressionParser
