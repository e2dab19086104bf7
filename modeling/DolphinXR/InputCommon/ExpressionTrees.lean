import DolphinXR.InputCommon.ExpressionLexemes
import DolphinXR.InputCommon.ExpressionParser

/- Expressions as they are meant, and how they are written. Parentheses stand where the precedence
   of the operators and their associativity ask for them: an operand on the left may have the
   operator's own precedence unless the operator is an assignment or a conditional, which take such
   an operand on the right.

   A unary operator is a function, and what stands in parentheses behind it is a list of arguments.
   Whether a comma expression gets parentheses of its own inside of that list is the parameter
   `listed`. However it is written, no lexeme is followed by one that goes on with it. -/
namespace DolphinXR.ExpressionParser

open Common

inductive UnaryOp where
  | not | minus | plus
  deriving DecidableEq

namespace UnaryOp

def type : UnaryOp → TokenType
  | not => .not
  | minus => .sub
  | plus => .add

def func : UnaryOp → Function
  | not => .not
  | minus => .minus
  | plus => .plus

end UnaryOp

inductive HotkeyInput where
  | control (name : Text)
  | bareword (name : Text)

namespace HotkeyInput

def lexeme : HotkeyInput → Lexeme
  | control name => .control name
  | bareword name => .bareword name

def qualifier : HotkeyInput → ControlQualifier
  | control name => ControlQualifier.fromString name
  | bareword name => ControlQualifier.fromString name

end HotkeyInput

inductive Tree (V : Type) where
  | number (text : Text) (value : V)
  | quoted (text : Text) (value : V)
  | variable (name : Text)
  | control (name : Text)
  | call (func : Function) (args : List (Tree V))
  | unary (op : UnaryOp) (arg : Tree V)
  | binary (op : TokenType) (lhs rhs : Tree V)
  | compound (op : TokenType) (lhs rhs : Tree V)
  | conditional (condition trueResult falseResult : Tree V)
  | hotkeys (first : HotkeyInput) (rest : List HotkeyInput)

variable {V : Type}

/-- Assignments and conditionals, the operators of one precedence, group to the right. -/
def isRightAssociative (precedence : Nat) : Bool := decide (precedence = operatorPrecedence .assign)

def leftLevel (precedence : Nat) : Nat :=
  if isRightAssociative precedence then precedence - 1 else precedence

def rightLevel (precedence : Nat) : Nat :=
  if isRightAssociative precedence then precedence else precedence - 1

/-- The precedence of the outermost operator; `0` for what stands for itself. -/
def Tree.level : Tree V → Nat
  | binary op _ _ => operatorPrecedence op
  | compound _ _ _ => operatorPrecedence .assign
  | conditional _ _ _ => operatorPrecedence .question
  | _ => 0

/-! ### How an expression is written -/

def parens (lexemes : List Lexeme) : List Lexeme :=
  .mark .lparen :: (lexemes ++ [.mark .rparen])

def within (allowed level : Nat) (lexemes : List Lexeme) : List Lexeme :=
  if level ≤ allowed then lexemes else parens lexemes

def operand (listed : Bool) (level : Nat) (lexemes : List Lexeme) : List Lexeme :=
  if listed = true ∧ level = operatorPrecedence .comma then parens (parens lexemes)
  else within 0 level lexemes

def hotkeyLexemes : HotkeyInput → List HotkeyInput → List Lexeme
  | input, [] => [input.lexeme, .mark .rparen]
  | input, next :: rest => input.lexeme :: .mark .add :: hotkeyLexemes next rest

section Writing
variable (listed : Bool)

mutual

def Tree.lexemes : Tree V → List Lexeme
  | .number text _ => [.number text]
  | .quoted text _ => [.quoted text]
  | .variable name => [.variable name]
  | .control name => [.control name]
  | .call func args => .bareword func.name :: .mark .lparen :: argumentLexemes args
  | .unary op arg => .mark op.type :: operand listed arg.level arg.lexemes
  | .binary op lhs rhs =>
    within (leftLevel (operatorPrecedence op)) lhs.level lhs.lexemes ++
      .mark op :: within (rightLevel (operatorPrecedence op)) rhs.level rhs.lexemes
  | .compound op lhs rhs =>
    within (leftLevel (operatorPrecedence .assign)) lhs.level lhs.lexemes ++
      .compound op :: within (rightLevel (operatorPrecedence .assign)) rhs.level rhs.lexemes
  | .conditional condition trueResult falseResult =>
    within (leftLevel (operatorPrecedence .question)) condition.level condition.lexemes ++
      .mark .question ::
        (within (rightLevel (operatorPrecedence .question)) trueResult.level trueResult.lexemes ++
          .mark .colon ::
            within (rightLevel (operatorPrecedence .question)) falseResult.level
              falseResult.lexemes)
  | .hotkeys first rest => .mark .hotkey :: .mark .lparen :: hotkeyLexemes first rest

/-- The arguments of a call and the closing paren. -/
def argumentLexemes : List (Tree V) → List Lexeme
  | [] => [.mark .rparen]
  | arg :: args =>
    within (rightLevel (operatorPrecedence .comma)) arg.level arg.lexemes ++ moreLexemes args

/-- The arguments behind the first. -/
def moreLexemes : List (Tree V) → List Lexeme
  | [] => [.mark .rparen]
  | arg :: args =>
    .mark .comma ::
      (within (rightLevel (operatorPrecedence .comma)) arg.level arg.lexemes ++ moreLexemes args)

end

end Writing

/-! ### What an expression means -/

mutual

def Tree.expression : Tree V → Expression V
  | .number _ value => .literal value
  | .quoted _ value => .literal value
  | .variable name => .variable name
  | .control name => .control (ControlQualifier.fromString name)
  | .call func args => .function func (expressions args)
  | .unary op arg => .function op.func [arg.expression]
  | .binary op lhs rhs => .binary op lhs.expression rhs.expression
  | .compound op lhs rhs => .compoundAssignment op lhs.expression rhs.expression
  | .conditional condition trueResult falseResult =>
    .function .if [condition.expression, trueResult.expression, falseResult.expression]
  | .hotkeys first rest =>
    .hotkey ((first :: rest).dropLast.map HotkeyInput.qualifier)
      ((first :: rest).getLast (List.cons_ne_nil first rest)).qualifier

def expressions : List (Tree V) → List (Expression V)
  | [] => []
  | arg :: args => arg.expression :: expressions args

end

section WellFormed
variable (tryParse : Text → Option V)

mutual

/-- The parts of the expression can be written, its literals have the values of their texts, and its
    calls have as many arguments as they need. -/
def Tree.WellFormed : Tree V → Prop
  | .number text value => (Lexeme.number text).Valid ∧ tryParse text = some value
  | .quoted text value => (Lexeme.quoted text).Valid ∧ tryParse text = some value
  | .variable name => (Lexeme.variable name).Valid ∧ name ≠ []
  | .control name => (Lexeme.control name).Valid
  | .call func args => func.validateArguments args.length = none ∧ AllWellFormed args
  | .unary _ arg => arg.WellFormed
  | .binary op lhs rhs => op.isBinaryOperator = true ∧ lhs.WellFormed ∧ rhs.WellFormed
  | .compound op lhs rhs =>
    op.isCompoundAssignmentUsable = true ∧ lhs.WellFormed ∧ rhs.WellFormed
  | .conditional condition trueResult falseResult =>
    condition.WellFormed ∧ trueResult.WellFormed ∧ falseResult.WellFormed
  | .hotkeys first rest => ∀ input ∈ first :: rest, input.lexeme.Valid

def AllWellFormed : List (Tree V) → Prop
  | [] => True
  | arg :: args => arg.WellFormed ∧ AllWellFormed args

end

end WellFormed

/-! ### Lexemes side by side -/

namespace Lexeme

/-- The lexeme is one of the characters that separate operands, or an assignment. -/
def isSeparator : Lexeme → Bool
  | mark type => type.isMark
  | compound op => op.isCompoundAssignmentUsable
  | _ => false

def isOperator : Lexeme → Bool
  | mark type => type.isCompoundAssignmentUsable
  | _ => false

def isPlain (l : Lexeme) : Bool := l.text.head?.all fun c => c != '=' && c != '*'

end Lexeme

structure Joined (lexemes : List Lexeme) : Prop where
  valid : ∀ l ∈ lexemes, l.Valid
  chain : lexemes.IsChain Lexeme.mayPrecede
  first : ∃ l ∈ lexemes.head?, l.isPlain = true
  last : ∃ l ∈ lexemes.getLast?, l.isOperator = false

theorem char_separator {l : Lexeme} (h : l.isSeparator = true) :
    ∃ type : TokenType, type.isMark = true ∧ l.text.head? = some type.char := by
  cases l with
  | mark type => exact ⟨type, h, rfl⟩
  | compound op =>
    refine ⟨op, ?_, rfl⟩
    cases op with
    | and | or | xor | add | sub | mul | div | mod => rfl
    | _ => contradiction
  | _ => contradiction

theorem mayPrecede_separator {l next : Lexeme} (hl : l.isOperator = false)
    (hnext : next.isSeparator = true) : l.mayPrecede next := by
  obtain ⟨type, hmark, hhead⟩ := char_separator hnext
  intro c hc
  rw [hhead] at hc
  cases hc
  cases l with
  | mark op =>
    have hop : op.isCompoundAssignmentUsable = false := hl
    have hdiv : op ≠ .div := by
      rintro rfl
      contradiction
    simp [Lexeme.goesOn, hop, hdiv]
  | _ =>
    cases type with
    | whitespace | invalid | eof | control | literal | «variable» | bareword | comment =>
      contradiction
    | _ => rfl

theorem mayPrecede_plain {l next : Lexeme} (hl : l.isSeparator = true)
    (hnext : next.isPlain = true) : l.mayPrecede next := by
  intro c hc
  unfold Lexeme.isPlain at hnext
  rw [hc] at hnext
  have hplain : c ≠ '=' ∧ c ≠ '*' := by simpa using hnext
  cases l with
  | mark type => simp [Lexeme.goesOn, hplain]
  | compound op => rfl
  | _ => contradiction

theorem plain_mark {type : TokenType} (hmark : type.isMark = true) (hassign : type ≠ .assign)
    (hmul : type ≠ .mul) : (Lexeme.mark type).isPlain = true := by
  cases type with
  | assign => exact absurd rfl hassign
  | mul => exact absurd rfl hmul
  | whitespace | invalid | eof | control | literal | «variable» | bareword | comment =>
    contradiction
  | _ => rfl

theorem valid_separator {l : Lexeme} (h : l.isSeparator = true) : l.Valid := by
  cases l with
  | mark type => exact h
  | compound op => exact h
  | _ => contradiction

/-! ### How lists are joined -/

theorem joined_single {l : Lexeme} (hvalid : l.Valid) (hplain : l.isPlain = true)
    (hoperator : l.isOperator = false) : Joined [l] where
  valid := by simpa using hvalid
  chain := List.isChain_singleton l
  first := ⟨l, rfl, hplain⟩
  last := ⟨l, rfl, hoperator⟩

theorem joined_between {before after : List Lexeme} {separator : Lexeme} (hbefore : Joined before)
    (hafter : Joined after) (hseparator : separator.isSeparator = true) :
    Joined (before ++ separator :: after) := by
  obtain ⟨l, hlast, hoperator⟩ := hbefore.last
  obtain ⟨first, hfirst, hplain⟩ := hafter.first
  refine ⟨?_, ?_, ?_, ?_⟩
  · intro m hmem
    obtain hmem | hmem := List.mem_append.1 hmem
    · exact hbefore.valid m hmem
    · obtain rfl | hmem := List.mem_cons.1 hmem
      · exact valid_separator hseparator
      · exact hafter.valid m hmem
  · refine List.isChain_append.2 ⟨hbefore.chain, List.isChain_cons.2 ⟨?_, hafter.chain⟩, ?_⟩
    · intro m hm
      rw [hfirst] at hm
      cases hm
      exact mayPrecede_plain hseparator hplain
    · intro m hm next hnext
      rw [hlast] at hm
      cases hm
      cases hnext
      exact mayPrecede_separator hoperator hseparator
  · obtain ⟨first, hfirst, hplain⟩ := hbefore.first
    refine ⟨first, ?_, hplain⟩
    rw [List.head?_append, hfirst]
    rfl
  · obtain ⟨last, hlast, hoperator⟩ := hafter.last
    refine ⟨last, ?_, hoperator⟩
    rw [List.getLast?_append, List.getLast?_cons, hlast]
    rfl

theorem joined_cons {type : TokenType} {lexemes : List Lexeme} (h : Joined lexemes)
    (hmark : type.isMark = true) (hassign : type ≠ .assign) (hmul : type ≠ .mul) :
    Joined (.mark type :: lexemes) := by
  obtain ⟨first, hfirst, hplain⟩ := h.first
  obtain ⟨last, hlast, hoperator⟩ := h.last
  refine ⟨List.forall_mem_cons.2 ⟨hmark, h.valid⟩, List.isChain_cons.2 ⟨?_, h.chain⟩,
    ⟨_, rfl, plain_mark hmark hassign hmul⟩, ⟨last, ?_, hoperator⟩⟩
  · intro m hm
    rw [hfirst] at hm
    cases hm
    exact mayPrecede_plain hmark hplain
  · rw [List.getLast?_cons, hlast]
    rfl

theorem joined_rparen {lexemes : List Lexeme} (h : Joined lexemes) :
    Joined (lexemes ++ [.mark .rparen]) := by
  obtain ⟨first, hfirst, hplain⟩ := h.first
  obtain ⟨last, hlast, hoperator⟩ := h.last
  refine ⟨List.forall_mem_append.2 ⟨h.valid, List.forall_mem_singleton.2 rfl⟩, ?_,
    ⟨first, ?_, hplain⟩, ⟨.mark .rparen, ?_, rfl⟩⟩
  · refine List.isChain_append.2 ⟨h.chain, List.isChain_singleton _, fun m hm next hnext => ?_⟩
    rw [hlast] at hm
    cases hm
    cases hnext
    exact mayPrecede_separator hoperator rfl
  · rw [List.head?_append, hfirst]
    rfl
  · rw [List.getLast?_append]
    rfl

theorem joined_parens {lexemes : List Lexeme} (h : Joined lexemes) : Joined (parens lexemes) :=
  joined_cons (joined_rparen h) rfl nofun nofun

theorem joined_within {lexemes : List Lexeme} (allowed level : Nat) (h : Joined lexemes) :
    Joined (within allowed level lexemes) := by
  unfold within
  split
  · exact h
  · exact joined_parens h

theorem joined_operand {lexemes : List Lexeme} (listed : Bool) (level : Nat) (h : Joined lexemes) :
    Joined (operand listed level lexemes) := by
  unfold operand
  split
  · exact joined_parens (joined_parens h)
  · exact joined_within 0 level h

end DolphinXR.ExpressionParser
