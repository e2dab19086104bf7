import DolphinXR.InputCommon.ExpressionOperands

/- Expressions that are written and read back. A tree that can be written is parsed as what it
   means, with any whitespace and comments between its lexemes. The parentheses are those that
   precedence and associativity ask for, and a comma expression behind a unary operator has a second
   pair: what one pair encloses there is a list of arguments. -/
namespace DolphinXR.ExpressionParser

open Common

variable {V : Type} {tryParse : Text → Option V}

/-! ### Functions -/

theorem makeFunctionExpression_name (func : Function) :
    makeFunctionExpression func.name = some func := by
  cases func with
  | _ => rfl

theorem valid_name (func : Function) : (Lexeme.bareword func.name).Valid := by
  have hall : (func.name.head?.any Char.isAlpha && func.name.all isWordChar) = true := by
    cases func with
    | _ => rfl
  obtain ⟨hhead, hword⟩ := Bool.and_eq_true_iff.1 hall
  refine ⟨?_, List.all_eq_true.1 hword⟩
  cases hname : func.name.head? with
  | none =>
    rw [hname] at hhead
    contradiction
  | some c =>
    rw [hname] at hhead
    exact ⟨c, rfl, hhead⟩

theorem not_validate_zero (func : Function) : func.validateArguments 0 ≠ none := by
  cases func with
  | _ => exact nofun

theorem parseAtom_call {func : Function} {tok : Token} (htype : tok.type = .bareword)
    (hdata : tok.data = func.name) (fuel : Nat) (s : List Token) :
    parseAtom tryParse (fuel + 1) tok s =
      parseFunctionArguments tryParse fuel tok.data func tok s := by
  rw [parseAtom, htype]
  dsimp only
  have hfunc : makeFunctionExpression tok.data = some func := hdata ▸ makeFunctionExpression_name func
  rw [hfunc]

theorem parseAtom_unary {op : UnaryOp} {tok : Token} (htype : tok.type = op.type) (fuel : Nat)
    (s : List Token) :
    parseAtom tryParse (fuel + 1) tok s =
      parseFunctionArguments tryParse fuel op.func.name op.func tok s := by
  rw [parseAtom, htype]
  cases op with
  | not | minus | plus => rfl

theorem atom_call {func : Function} {lexemes : List Lexeme} {exprs : List (Expression V)}
    (h : Arguments tryParse lexemes exprs) (hargs : func.validateArguments exprs.length = none) :
    Atom tryParse (.bareword func.name :: .mark .lparen :: lexemes) (.function func exprs) := by
  refine ⟨_, _, rfl, nofun, nofun, fun tok s ks fuel htype hdata hreads hfuel => ?_⟩
  obtain ⟨fuel, rfl⟩ : ∃ rest, fuel = rest + 1 := ⟨fuel - 1, by omega⟩
  rw [parseAtom_call htype hdata]
  exact functionArguments_list h hargs _ _ hreads (by omega)

theorem validate_unary (op : UnaryOp) : op.func.validateArguments 1 = none := by
  cases op with
  | not | minus | plus => rfl

theorem atom_unary_single (op : UnaryOp) {lexemes : List Lexeme} {expr : Expression V}
    (h : Atom tryParse lexemes expr) (hfirst : ∀ l ∈ lexemes.head?, l.token.type ≠ .lparen) :
    Atom tryParse (.mark op.type :: lexemes) (.function op.func [expr]) := by
  have hmark : op.type ≠ .eof ∧ op.type ≠ .rparen := by
    cases op with
    | not | minus | plus => exact ⟨nofun, nofun⟩
  refine ⟨_, _, rfl, hmark.1, hmark.2, fun tok s ks fuel htype _ hreads hfuel => ?_⟩
  obtain ⟨fuel, rfl⟩ : ∃ rest, fuel = rest + 1 := ⟨fuel - 1, by omega⟩
  rw [parseAtom_unary htype]
  exact functionArguments_single h hfirst (validate_unary op) _ _ hreads (by omega)

theorem atom_unary_list (op : UnaryOp) {lexemes : List Lexeme} {expr : Expression V}
    (h : Arguments tryParse (lexemes ++ [.mark .rparen]) [expr]) :
    Atom tryParse (.mark op.type :: parens lexemes) (.function op.func [expr]) := by
  have hmark : op.type ≠ .eof ∧ op.type ≠ .rparen := by
    cases op with
    | not | minus | plus => exact ⟨nofun, nofun⟩
  refine ⟨_, _, rfl, hmark.1, hmark.2, fun tok s ks fuel htype _ hreads hfuel => ?_⟩
  obtain ⟨fuel, rfl⟩ : ∃ rest, fuel = rest + 1 := ⟨fuel - 1, by omega⟩
  rw [parseAtom_unary htype]
  exact functionArguments_list h (validate_unary op) _ _ hreads (by omega)

/-! ### Hotkeys -/

theorem chew_input (input : HotkeyInput) {s : List Token} {ks : List (TokenType × Text)}
    (hreads : Reads s (input.lexeme.token.key :: ks)) :
    ∃ tok s', chew s = .ok (tok, s') ∧ ¬ (tok.type ≠ .control ∧ tok.type ≠ .bareword) ∧
      ControlQualifier.fromString tok.data = input.qualifier ∧ Reads s' ks ∧
      s'.length < s.length := by
  cases input with
  | control name =>
    obtain ⟨tok, s', h⟩ := chew_reads hreads nofun
    exact ⟨tok, s', h.chew, fun hnot => hnot.1 h.type, congrArg _ h.data, h.reads, h.length⟩
  | bareword name =>
    obtain ⟨tok, s', h⟩ := chew_reads hreads nofun
    exact ⟨tok, s', h.chew, fun hnot => hnot.2 h.type, congrArg _ h.data, h.reads, h.length⟩

theorem parseHotkeyInputs_lexemes (first : HotkeyInput) (rest : List HotkeyInput) {s : List Token}
    {ks : List (TokenType × Text)} (fuel : Nat)
    (hreads : Reads s (keys (hotkeyLexemes first rest) ++ ks)) (hfuel : s.length + 1 ≤ fuel) :
    ∃ s', parseHotkeyInputs fuel s =
        .ok (((first :: rest).dropLast.map HotkeyInput.qualifier,
          ((first :: rest).getLast (List.cons_ne_nil first rest)).qualifier), s') ∧
      Reads s' ks ∧ s'.length ≤ s.length := by
  induction rest generalizing first s fuel with
  | nil =>
    obtain ⟨fuel, rfl⟩ : ∃ rest, fuel = rest + 1 := ⟨fuel - 1, by omega⟩
    obtain ⟨tok, s1, hchew, hname, hqualifier, hreads1, hlength1⟩ := chew_input first hreads
    obtain ⟨paren, s2, hparen⟩ := chew_reads hreads1 (by decide)
    have hlength2 := hparen.length
    have htype : paren.type = .rparen := hparen.type
    refine ⟨s2, ?_, hparen.reads, by omega⟩
    rw [parseHotkeyInputs, bind_ok hchew, if_neg hname, bind_ok hparen.chew,
      if_neg (by rw [htype]; decide), if_pos htype, hqualifier]
    rfl
  | cons next rest ih =>
    obtain ⟨fuel, rfl⟩ : ∃ rest, fuel = rest + 1 := ⟨fuel - 1, by omega⟩
    obtain ⟨tok, s1, hchew, hname, hqualifier, hreads1, hlength1⟩ := chew_input first hreads
    obtain ⟨plus, s2, hplus⟩ := chew_reads hreads1 (by decide)
    have hlength2 := hplus.length
    have htype : plus.type = .add := hplus.type
    obtain ⟨s3, hparse3, hreads3, hlength3⟩ := ih next fuel hplus.reads (by omega)
    refine ⟨s3, ?_, hreads3, by omega⟩
    rw [parseHotkeyInputs, bind_ok hchew, if_neg hname, bind_ok hplus.chew, if_pos htype,
      bind_ok hparse3, hqualifier]
    rfl

theorem atom_hotkeys (first : HotkeyInput) (rest : List HotkeyInput) :
    Atom tryParse (.mark .hotkey :: .mark .lparen :: hotkeyLexemes first rest)
      (.hotkey ((first :: rest).dropLast.map HotkeyInput.qualifier)
        ((first :: rest).getLast (List.cons_ne_nil first rest)).qualifier) := by
  refine ⟨_, _, rfl, nofun, nofun, fun tok s ks fuel htype _ hreads hfuel => ?_⟩
  obtain ⟨fuel, rfl⟩ : ∃ rest, fuel = rest + 1 := ⟨fuel - 1, by omega⟩
  obtain ⟨paren, s1, hparen⟩ := chew_reads hreads nofun
  have hlength1 := hparen.length
  have hlparen : paren.type = .lparen := hparen.type
  obtain ⟨s2, hparse2, hreads2, hlength2⟩ :=
    parseHotkeyInputs_lexemes first rest fuel hparen.reads (by omega)
  refine ⟨s2, ?_, hreads2, by omega⟩
  rw [parseAtom, htype]
  change parseHotkeys fuel s = _
  rw [parseHotkeys, bind_ok hparen.chew, if_neg (not_not_intro hlparen), bind_ok hparse2]
  rfl

/-! ### Trees -/

/-- The lexemes of a tree are an operand of its level; an atom where it stands for itself. -/
structure Parsed (tryParse : Text → Option V) (t : Tree V) : Prop where
  operand : Operand tryParse (t.lexemes true) t.expression t.level
  level : t.level ≤ 8
  atom : t.level = 0 → Atom tryParse (t.lexemes true) t.expression
  first : t.level = 0 → ∀ l ∈ (t.lexemes true).head?, l.token.type ≠ .lparen

theorem parsed_of_atom {t : Tree V} (hlevel : t.level = 0)
    (h : Atom tryParse (t.lexemes true) t.expression)
    (hfirst : ∀ l ∈ (t.lexemes true).head?, l.token.type ≠ .lparen) : Parsed tryParse t :=
  ⟨hlevel ▸ operand_of_atom h, by omega, fun _ => h, fun _ => hfirst⟩

theorem parsed_of_operand {t : Tree V}
    (h : Operand tryParse (t.lexemes true) t.expression t.level) (hpositive : 0 < t.level)
    (hlevel : t.level ≤ 8) : Parsed tryParse t :=
  ⟨h, hlevel, fun hzero => by omega, fun hzero => by omega⟩

theorem parsed_unary {op : UnaryOp} {arg : Tree V} (h : Parsed tryParse arg) :
    Parsed tryParse (.unary op arg) := by
  have hcomma : operatorPrecedence .comma = 8 := rfl
  refine parsed_of_atom rfl ?_ ?_
  · rw [Tree.lexemes, Tree.expression]
    unfold operand
    split
    case isTrue hlisted =>
      -- A comma expression: its own parentheses, then those of the list.
      refine atom_unary_list op (arguments_last (operand_of_atom (atom_parens h.operand h.level)) ?_)
      exact Nat.zero_le _
    case isFalse hlisted =>
      unfold within
      split
      case isTrue hzero =>
        have hlevel : arg.level = 0 := Nat.le_zero.1 hzero
        exact atom_unary_single op (h.atom hlevel) (h.first hlevel)
      case isFalse =>
        have hlevel := h.level
        have hne : arg.level ≠ 8 := fun heq => hlisted ⟨rfl, heq⟩
        refine atom_unary_list op (arguments_last h.operand ?_)
        rw [hcomma, (levels_of_ne (by decide)).1]
        omega
  · rw [Tree.lexemes]
    intro l hl
    cases hl
    cases op with
    | not | minus | plus => exact nofun

theorem parsed_binary {op : TokenType} {lhs rhs : Tree V} (hop : op.isBinaryOperator = true)
    (hlhs : Parsed tryParse lhs) (hrhs : Parsed tryParse rhs) :
    Parsed tryParse (.binary op lhs rhs) := by
  obtain ⟨hpositive, hlevel, -⟩ := precedence_operator hop
  refine parsed_of_operand ?_ hpositive hlevel
  obtain ⟨left, hleft, hoperand⟩ :=
    operand_within hlhs.operand hlhs.level (leftLevel (operatorPrecedence op))
  obtain ⟨right, hright, hoperand'⟩ :=
    operand_within hrhs.operand hrhs.level (rightLevel (operatorPrecedence op))
  rw [Tree.lexemes, Tree.expression]
  exact operand_between (.mark op) hoperand hoperand' hop hleft hright

theorem parsed_compound {op : TokenType} {lhs rhs : Tree V}
    (hop : op.isCompoundAssignmentUsable = true) (hlhs : Parsed tryParse lhs)
    (hrhs : Parsed tryParse rhs) : Parsed tryParse (.compound op lhs rhs) := by
  refine parsed_of_operand ?_ (show 0 < operatorPrecedence .assign by decide)
    (show operatorPrecedence .assign ≤ 8 by decide)
  obtain ⟨left, hleft, hoperand⟩ :=
    operand_within hlhs.operand hlhs.level (leftLevel (operatorPrecedence .assign))
  obtain ⟨right, hright, hoperand'⟩ :=
    operand_within hrhs.operand hrhs.level (rightLevel (operatorPrecedence .assign))
  have hexpr : infixExpression (Lexeme.compound op).token lhs.expression rhs.expression =
      .compoundAssignment op lhs.expression rhs.expression := by
    change Expression.compoundAssignment (getBinaryOperatorTokenTypeFromChar op.char) _ _ = _
    rw [operator_char (isBinaryOperator_of_usable hop)]
  rw [Tree.lexemes, Tree.expression, ← hexpr]
  exact operand_between (.compound op) hoperand hoperand' rfl hleft hright

theorem parsed_conditional {condition trueResult falseResult : Tree V}
    (hcondition : Parsed tryParse condition) (htrue : Parsed tryParse trueResult)
    (hfalse : Parsed tryParse falseResult) :
    Parsed tryParse (.conditional condition trueResult falseResult) := by
  refine parsed_of_operand ?_ (show 0 < operatorPrecedence .question by decide)
    (show operatorPrecedence .question ≤ 8 by decide)
  obtain ⟨left, hleft, hoperand⟩ := operand_within hcondition.operand hcondition.level
    (leftLevel (operatorPrecedence .question))
  obtain ⟨middle, hmiddle, hoperand'⟩ := operand_within htrue.operand htrue.level
    (rightLevel (operatorPrecedence .question))
  obtain ⟨right, hright, hoperand''⟩ := operand_within hfalse.operand hfalse.level
    (rightLevel (operatorPrecedence .question))
  rw [Tree.lexemes, Tree.expression]
  exact operand_conditional hoperand hoperand' hoperand'' hleft hmiddle hright

theorem head_ne_lparen {l : Lexeme} {rest : List Lexeme} (h : l.token.type ≠ .lparen) :
    ∀ first ∈ (l :: rest).head?, first.token.type ≠ .lparen := by
  intro first hfirst
  cases hfirst
  exact h

theorem length_expressions (args : List (Tree V)) : (expressions args).length = args.length := by
  induction args with
  | nil => rfl
  | cons arg args ih => rw [expressions, List.length_cons, List.length_cons, ih]

theorem parsed_argument {arg : Tree V} (h : Parsed tryParse arg) :
    ∃ level ≤ rightLevel (operatorPrecedence .comma),
      Operand tryParse
        (within (rightLevel (operatorPrecedence .comma)) arg.level (arg.lexemes true))
        arg.expression level :=
  operand_within h.operand h.level _

mutual

theorem Tree.parsed : (t : Tree V) → t.WellFormed tryParse → Parsed tryParse t
  | .number _ _, h => parsed_of_atom rfl (atom_literal rfl h.2) (head_ne_lparen nofun)
  | .quoted _ _, h => parsed_of_atom rfl (atom_literal rfl h.2) (head_ne_lparen nofun)
  | .variable _, h => parsed_of_atom rfl (atom_variable h.2) (head_ne_lparen nofun)
  | .control name, _ => parsed_of_atom rfl (atom_control name) (head_ne_lparen nofun)
  | .call func [], h => absurd h.1 (not_validate_zero func)
  | .call _ (arg :: args), h =>
    parsed_of_atom rfl
      (atom_call (parsed_arguments args h.2.2 (arg.parsed h.2.1))
        ((length_expressions (arg :: args)).symm ▸ h.1))
      (head_ne_lparen nofun)
  | .unary _ arg, h => parsed_unary (arg.parsed h)
  | .binary _ lhs rhs, h => parsed_binary h.1 (lhs.parsed h.2.1) (rhs.parsed h.2.2)
  | .compound _ lhs rhs, h => parsed_compound h.1 (lhs.parsed h.2.1) (rhs.parsed h.2.2)
  | .conditional condition trueResult falseResult, h =>
    parsed_conditional (condition.parsed h.1) (trueResult.parsed h.2.1) (falseResult.parsed h.2.2)
  | .hotkeys first rest, _ => parsed_of_atom rfl (atom_hotkeys first rest) (head_ne_lparen nofun)

theorem parsed_arguments : (args : List (Tree V)) → AllWellFormed tryParse args →
    {arg : Tree V} → Parsed tryParse arg →
      Arguments tryParse (argumentLexemes true (arg :: args)) (expressions (arg :: args))
  | [], _, _, harg =>
    let ⟨_, hlevel, hoperand⟩ := parsed_argument harg
    arguments_last hoperand hlevel
  | next :: args, h, _, harg =>
    let ⟨_, hlevel, hoperand⟩ := parsed_argument harg
    arguments_cons hoperand hlevel (parsed_arguments args h.2 (next.parsed h.1))

end

/-! ### Lexemes that can stand side by side -/

theorem joined_bareword {name : Text} (h : (Lexeme.bareword name).Valid) :
    Joined [.bareword name] := by
  refine joined_single h ?_ rfl
  obtain ⟨⟨c, hc, halpha⟩, -⟩ := h
  change (name.head?.all fun c => c != '=' && c != '*') = true
  cases name with
  | nil => cases hc
  | cons d name =>
    cases hc
    change (c != '=' && c != '*') = true
    have hne : c ≠ '=' ∧ c ≠ '*' := by
      constructor
      · rintro rfl
        contradiction
      · rintro rfl
        contradiction
    simpa using hne

theorem joined_number {text : Text} (h : (Lexeme.number text).Valid) : Joined [.number text] := by
  refine joined_single h ?_ rfl
  change (text.head?.all fun c => c != '=' && c != '*') = true
  cases text with
  | nil => rfl
  | cons c text =>
    change (c != '=' && c != '*') = true
    have hreal := isRealChar_of_isRealLiteral h c List.mem_cons_self
    have hne : c ≠ '=' ∧ c ≠ '*' := by
      constructor
      · rintro rfl
        contradiction
      · rintro rfl
        contradiction
    simpa using hne

theorem joined_input (input : HotkeyInput) (h : input.lexeme.Valid) : Joined [input.lexeme] := by
  cases input with
  | control name => exact joined_single h rfl rfl
  | bareword name => exact joined_bareword h

theorem joined_hotkeys (first : HotkeyInput) (rest : List HotkeyInput)
    (h : ∀ input ∈ first :: rest, input.lexeme.Valid) : Joined (hotkeyLexemes first rest) := by
  induction rest generalizing first with
  | nil => exact joined_rparen (joined_input first (h first List.mem_cons_self))
  | cons next rest ih =>
    obtain ⟨hfirst, hrest⟩ := List.forall_mem_cons.1 h
    exact joined_between (joined_input first hfirst) (ih next hrest) rfl

theorem isMark_of_isBinaryOperator {op : TokenType} (h : op.isBinaryOperator = true) :
    op.isMark = true := by
  cases op with
  | and | or | xor | add | sub | mul | div | mod | lthan | gthan | comma | assign => rfl
  | _ => contradiction

section
variable (listed : Bool)

mutual

theorem Tree.joined : (t : Tree V) → t.WellFormed tryParse → Joined (t.lexemes listed)
  | .number _ _, h => joined_number h.1
  | .quoted _ _, h => joined_single h.1 rfl rfl
  | .variable _, h => joined_single h.1 rfl rfl
  | .control _, h => joined_single h rfl rfl
  | .call func [], h => absurd h.1 (not_validate_zero func)
  | .call func (arg :: args), h =>
    joined_between (joined_bareword (valid_name func))
      (joined_more args h.2.2 (joined_within _ _ (arg.joined h.2.1))) rfl
  | .unary op arg, h => by
    have hoperand := joined_operand listed arg.level (arg.joined h)
    cases op with
    | not | minus | plus => exact joined_cons hoperand rfl nofun nofun
  | .binary op lhs rhs, h =>
    joined_between (joined_within _ _ (lhs.joined h.2.1)) (joined_within _ _ (rhs.joined h.2.2))
      (isMark_of_isBinaryOperator h.1)
  | .compound op lhs rhs, h =>
    joined_between (joined_within _ _ (lhs.joined h.2.1)) (joined_within _ _ (rhs.joined h.2.2)) h.1
  | .conditional condition trueResult falseResult, h =>
    joined_between (joined_within _ _ (condition.joined h.1))
      (joined_between (joined_within _ _ (trueResult.joined h.2.1))
        (joined_within _ _ (falseResult.joined h.2.2)) rfl) rfl
  | .hotkeys first rest, h =>
    joined_cons (joined_cons (joined_hotkeys first rest h) rfl nofun nofun) rfl nofun nofun

theorem joined_more : (args : List (Tree V)) → AllWellFormed tryParse args →
    {before : List Lexeme} → Joined before → Joined (before ++ moreLexemes listed args)
  | [], _, _, hbefore => joined_rparen hbefore
  | arg :: args, h, _, hbefore =>
    joined_between hbefore (joined_more args h.2 (joined_within _ _ (arg.joined h.1))) rfl

end

end

/-! ### Reading back -/

def ReadsBack (tryParse : Text → Option V) (text : Text) (expr : Expression V) : Prop :=
  ∃ tokens, tokenize text = some (.successful, tokens) ∧ parseTokens tryParse tokens = .ok expr

theorem parseTokens_parsed {t : Tree V} (h : Parsed tryParse t) {tokens : List Token}
    (hreads : Reads tokens (keys (t.lexemes true) ++ [(.eof, [])])) :
    parseTokens tryParse tokens = .ok t.expression := by
  obtain ⟨s1, hparse1, hreads1, -⟩ :=
    h.operand.result (operatorPrecedence .eof) (parseFuel tokens) (h.level.trans (by decide))
      (by decide) hreads (Nat.le_refl _)
  obtain ⟨tok, s2, hpeeked⟩ := peek_reads hreads1
  have htype : tok.type = .eof := hpeeked.type
  have hresult : parse tryParse (parseFuel tokens) tokens = .ok (t.expression, s2) := by
    rw [parse, bind_ok hparse1, bind_ok hpeeked.peek, if_pos htype]
    rfl
  rw [parseTokens, hresult]
  rfl

/-- Every tree, however its lexemes are separated, is read back; and reading ends on every text, with
    no look behind the tokens. -/
theorem expressions_read_back (tryParse : Text → Option V) :
    (∀ (t : Tree V) (pieces : List (List Inert × Lexeme)) (trailing : List Inert),
      t.WellFormed tryParse → pieces.map Prod.snd = t.lexemes true →
      (∀ piece ∈ pieces, ∀ i ∈ piece.1, i.Valid) → (∀ i ∈ trailing, i.Valid) →
      ReadsBack tryParse (spell pieces trailing) t.expression) ∧
    ∀ text : Text, ∃ status tokens, tokenize text = some (status, tokens) ∧
      parseTokens tryParse tokens ≠ .error .pastEnd ∧
      parseTokens tryParse tokens ≠ .error .outOfFuel := by
  constructor
  · intro t pieces trailing ht hpieces hinert htrailing
    have hjoined := t.joined true ht
    have hvalid : ∀ piece ∈ pieces, piece.2.Valid := fun piece hmem =>
      hjoined.valid piece.2 (hpieces ▸ List.mem_map_of_mem hmem)
    obtain ⟨tokens, htokens, hreads⟩ :=
      tokenize_spell hinert htrailing hvalid (hpieces ▸ hjoined.chain)
    refine ⟨tokens, htokens, parseTokens_parsed (t.parsed ht) ?_⟩
    have hkeys : (pieces.map fun piece => piece.2.token.key) = keys (t.lexemes true) := by
      rw [← hpieces, keys, List.map_map]
      rfl
    rwa [hkeys] at hreads
  · intro text
    obtain ⟨status, tokens, htokens, hended⟩ := tokenize_ends text
    exact ⟨status, tokens, htokens, parseTokens_ends hended⟩

/-- A product of a negated sum, with whitespace and a comment around the operator. -/
theorem expressions_read_back_product :
    ReadsBack (fun _ => (none : Option Nat)) "-($a+$b) /*x*/* $c".toList
      (.binary .mul (.function .minus [.binary .add (.variable ['a']) (.variable ['b'])])
        (.variable ['c'])) :=
  (expressions_read_back fun _ => none).1
    (.binary .mul (.unary .minus (.binary .add (.variable ['a']) (.variable ['b'])))
      (.variable ['c']))
    [([], .mark .sub), ([], .mark .lparen), ([], .variable ['a']), ([], .mark .add),
      ([], .variable ['b']), ([], .mark .rparen), ([.blank ' ', .comment ['x']], .mark .mul),
      ([.blank ' '], .variable ['c'])]
    [] (by simp [Tree.WellFormed, Lexeme.Valid, isWordChar, TokenType.isBinaryOperator]) rfl
    (by simp [Inert.Valid, List.infix_cons_iff]) nofun

def isParsed {V : Type} : Except Failure (Expression V) → Bool
  | .ok _ => true
  | .error _ => false

/-- `!($a,$b)`: the comma expression in parentheses is two arguments. -/
theorem negated_comma_not_read_back :
    ¬ ∀ (t : Tree Nat) (pieces : List (List Inert × Lexeme)) (trailing : List Inert),
      t.WellFormed (fun _ => none) → pieces.map Prod.snd = t.lexemes false →
      (∀ piece ∈ pieces, ∀ i ∈ piece.1, i.Valid) → (∀ i ∈ trailing, i.Valid) →
      ReadsBack (fun _ => none) (spell pieces trailing) t.expression := by
  intro h
  obtain ⟨tokens, htokens, hparse⟩ :=
    h (.unary .not (.binary .comma (.variable ['a']) (.variable ['b'])))
      [([], .mark .not), ([], .mark .lparen), ([], .variable ['a']), ([], .mark .comma),
        ([], .variable ['b']), ([], .mark .rparen)] []
      (by simp [Tree.WellFormed, Lexeme.Valid, isWordChar, TokenType.isBinaryOperator]) rfl
      (by simp) nofun
  have hparsed : (tokenize "!($a,$b)".toList).map
      (fun x => isParsed (parseTokens (fun _ => (none : Option Nat)) x.2)) = some false := by
    decide +kernel
  have htext : tokenize "!($a,$b)".toList = some (.successful, tokens) := htokens
  rw [htext, Option.map_some, hparse] at hparsed
  cases hparsed

end DolphinXR.ExpressionParser
