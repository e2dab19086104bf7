import DolphinXR.InputCommon.ExpressionParserEnds
import DolphinXR.InputCommon.ExpressionTrees

/- What the parser does with the lexemes of an operand, where more lexemes are behind it. `Atom`
   says that they are parsed as an expression whatever is behind; `Operand`, that parsing infix
   operations comes to its loop with their expression, if what is behind is no operator that belongs
   to them. Operands are put together from operands, and become atoms in parentheses or as
   arguments. -/
namespace DolphinXR.ExpressionParser

open Common

/-! ### Steps of the parser -/

theorem bind_ok {α β : Type} {m : Parser α} {f : α → Parser β} {s s' : List Token} {a : α}
    (h : m s = .ok (a, s')) : (m >>= f) s = f a s' := by
  change (Except.bind (m s) fun x => f x.1 x.2) = _
  rw [h]
  rfl

def keys (lexemes : List Lexeme) : List (TokenType × Text) := lexemes.map fun l => l.token.key

theorem keys_append (before after : List Lexeme) : keys (before ++ after) = keys before ++ keys after :=
  List.map_append

theorem keys_cons (l : Lexeme) (lexemes : List Lexeme) :
    keys (l :: lexemes) = l.token.key :: keys lexemes := rfl

theorem reads_cons {s : List Token} {key : TokenType × Text} {ks : List (TokenType × Text)}
    (h : Reads s (key :: ks)) :
    ∃ tok rest, s.dropWhile isInertToken = tok :: rest ∧ isInertToken tok = false ∧
      tok.key = key ∧ Reads rest ks ∧ rest.length < s.length := by
  induction s with
  | nil => cases h
  | cons tok s ih =>
    unfold Reads at h
    cases hinert : isInertToken tok with
    | true =>
      rw [List.filter_cons_of_neg (by simp [hinert])] at h
      obtain ⟨next, rest, hdrop, hnext, hkey, hreads, hlength⟩ := ih h
      rw [List.dropWhile_cons_of_pos hinert, List.length_cons]
      exact ⟨next, rest, hdrop, hnext, hkey, hreads, by omega⟩
    | false =>
      rw [List.filter_cons_of_pos (by simp [hinert]), List.map_cons] at h
      obtain ⟨hkey, hrest⟩ := List.cons.inj h
      exact ⟨tok, s, List.dropWhile_cons_of_neg (by simp [hinert]), hinert, hkey, hrest,
        Nat.lt_succ_self _⟩

structure ChewedKey (s : List Token) (key : TokenType × Text) (ks : List (TokenType × Text))
    (tok : Token) (s' : List Token) : Prop where
  chew : chew s = .ok (tok, s')
  type : tok.type = key.1
  data : tok.data = key.2
  reads : Reads s' ks
  length : s'.length < s.length

theorem chew_reads {s : List Token} {key : TokenType × Text} {ks : List (TokenType × Text)}
    (h : Reads s (key :: ks)) (heof : key.1 ≠ .eof) : ∃ tok s', ChewedKey s key ks tok s' := by
  obtain ⟨tok, rest, hdrop, -, rfl, hreads, hlength⟩ := reads_cons h
  exact ⟨tok, rest, (chew_eq hdrop).trans (if_neg heof), rfl, rfl, hreads, hlength⟩

structure PeekedKey (s : List Token) (key : TokenType × Text) (ks : List (TokenType × Text))
    (tok : Token) (s' : List Token) : Prop where
  peek : peek s = .ok (tok, s')
  type : tok.type = key.1
  data : tok.data = key.2
  reads : Reads s' (key :: ks)
  length : s'.length ≤ s.length

theorem peek_reads {s : List Token} {key : TokenType × Text} {ks : List (TokenType × Text)}
    (h : Reads s (key :: ks)) : ∃ tok s', PeekedKey s key ks tok s' := by
  obtain ⟨tok, rest, hdrop, hinert, rfl, hreads, hlength⟩ := reads_cons h
  refine ⟨tok, tok :: rest, ?_, rfl, rfl, ?_, hlength⟩
  · unfold peek
    rw [hdrop]
  · unfold Reads
    rw [List.filter_cons_of_pos (by simp [hinert]), List.map_cons]
    exact congrArg _ hreads

/-! ### Precedence -/

theorem levels_seven : rightLevel 7 = 7 ∧ leftLevel 7 = 6 := by decide

theorem levels_of_ne {precedence : Nat} (h : precedence ≠ 7) :
    rightLevel precedence = precedence - 1 ∧ leftLevel precedence = precedence := by
  have hassign : isRightAssociative precedence = false := decide_eq_false h
  unfold rightLevel leftLevel
  rw [hassign]
  exact ⟨rfl, rfl⟩

theorem rightLevel_le (precedence : Nat) : rightLevel precedence ≤ precedence := by
  obtain rfl | h := eq_or_ne precedence 7
  · exact levels_seven.1.le
  · rw [(levels_of_ne h).1]
    exact Nat.sub_le _ _

theorem leftLevel_le (precedence : Nat) : leftLevel precedence ≤ precedence := by
  obtain rfl | h := eq_or_ne precedence 7
  · decide
  · exact (levels_of_ne h).2.le

theorem rightLevel_lt {level precedence : Nat} (hpositive : 0 < precedence)
    (h : level ≤ leftLevel precedence) : rightLevel level < precedence := by
  obtain rfl | hne := eq_or_ne precedence 7
  · have hle := rightLevel_le level
    rw [levels_seven.2] at h
    omega
  · rw [(levels_of_ne hne).2] at h
    obtain rfl | hlevel := eq_or_ne level 7
    · rw [levels_seven.1]
      omega
    · rw [(levels_of_ne hlevel).1]
      omega

theorem precedence_operator {type : TokenType} (h : type.isBinaryOperator = true) :
    0 < operatorPrecedence type ∧ operatorPrecedence type ≤ 8 ∧
      (operatorPrecedence type = 7 ↔ type = .assign) := by
  cases type with
  | and | or | xor | add | sub | mul | div | mod | lthan | gthan | comma | assign => decide
  | _ => contradiction

theorem fits_iff {type : TokenType} (h : type.isBinaryOperator = true) (precedence : Nat) :
    isBinaryOpWithPrecedence type precedence = true ↔
      operatorPrecedence type ≤ rightLevel precedence := by
  obtain ⟨hpositive, -, hassign⟩ := precedence_operator h
  have hfits : isBinaryOpWithPrecedence type precedence = true ↔
      operatorPrecedence type < precedence ∨
        operatorPrecedence type = 7 ∧ operatorPrecedence type ≤ precedence := by
    unfold isBinaryOpWithPrecedence isRTLBinaryOp
    rw [h, hassign]
    simp
  rw [hfits]
  obtain rfl | hne := eq_or_ne precedence 7
  · rw [levels_seven.1]
    omega
  · rw [(levels_of_ne hne).1]
    omega

theorem not_fits {type : TokenType} {precedence : Nat}
    (h : rightLevel precedence < operatorPrecedence type) :
    isBinaryOpWithPrecedence type precedence = false := by
  cases hbinary : type.isBinaryOperator with
  | true =>
    refine Bool.eq_false_iff.2 fun hfits => ?_
    have hle := (fits_iff hbinary precedence).1 hfits
    omega
  | false =>
    unfold isBinaryOpWithPrecedence
    rw [hbinary]
    rfl

theorem question_fits (precedence : Nat) :
    operatorPrecedence .question ≤ precedence ↔
      operatorPrecedence .question ≤ rightLevel precedence := by
  have hquestion : operatorPrecedence .question = 7 := rfl
  rw [hquestion]
  obtain rfl | hne := eq_or_ne precedence 7
  · rw [levels_seven.1]
  · rw [(levels_of_ne hne).1]
    omega

/-! ### Atoms and operands -/

section
variable {V : Type} (tryParse : Text → Option V)

/-- The lexemes are parsed as one atom, whatever is behind them. -/
def Atom (lexemes : List Lexeme) (expr : Expression V) : Prop :=
  ∃ l rest, lexemes = l :: rest ∧ l.token.type ≠ .eof ∧ l.token.type ≠ .rparen ∧
    ∀ tok s ks fuel, tok.type = l.token.type → tok.data = l.token.data →
      Reads s (keys rest ++ ks) → 3 * s.length + 4 ≤ fuel →
      ∃ s', parseAtom tryParse fuel tok s = .ok (expr, s') ∧ Reads s' ks ∧ s'.length ≤ s.length

/-- Parsing comes to the loop with the expression of the lexemes, where the next lexeme is no
    operator that goes on with an operand of their level. -/
structure Operand (lexemes : List Lexeme) (expr : Expression V) (level : Nat) : Prop where
  first : ∃ l rest, lexemes = l :: rest ∧ l.token.type ≠ .rparen
  parses : ∀ precedence s next ks fuel, level ≤ rightLevel precedence →
    rightLevel level < operatorPrecedence next.1 → Reads s (keys lexemes ++ next :: ks) →
    3 * s.length + 2 ≤ fuel →
    ∃ fuel' s', parseInfixOperations tryParse fuel precedence s =
        parseInfixLoop tryParse fuel' precedence expr s' ∧
      Reads s' (next :: ks) ∧ s'.length < s.length ∧ 3 * s'.length + 2 ≤ fuel'

variable {tryParse} {lexemes lexemes' : List Lexeme} {expr expr' : Expression V}
  {level level' : Nat}

theorem operand_of_atom (h : Atom tryParse lexemes expr) : Operand tryParse lexemes expr 0 := by
  obtain ⟨l, rest, rfl, heof, hrparen, hatom⟩ := h
  refine ⟨⟨l, rest, rfl, hrparen⟩, fun precedence s next ks fuel _ _ hreads hfuel => ?_⟩
  obtain ⟨fuel, rfl⟩ : ∃ rest, fuel = rest + 1 := ⟨fuel - 1, by omega⟩
  obtain ⟨tok, s1, hchewed⟩ := chew_reads hreads heof
  have hlength := hchewed.length
  obtain ⟨s2, hparse, hreads2, hlength2⟩ :=
    hatom tok s1 (next :: ks) fuel hchewed.type hchewed.data hchewed.reads (by omega)
  refine ⟨fuel, s2, ?_, hreads2, by omega, by omega⟩
  rw [parseInfixOperations, bind_ok hchewed.chew, bind_ok hparse]

theorem loop_ends (expr : Expression V) {precedence fuel : Nat} {s : List Token} {next : TokenType × Text}
    {ks : List (TokenType × Text)} (hreads : Reads s (next :: ks))
    (hnext : rightLevel precedence < operatorPrecedence next.1) (hfuel : 0 < fuel) :
    ∃ s', parseInfixLoop tryParse fuel precedence expr s = .ok (expr, s') ∧
      Reads s' (next :: ks) ∧ s'.length ≤ s.length := by
  obtain ⟨fuel, rfl⟩ : ∃ rest, fuel = rest + 1 := ⟨fuel - 1, by omega⟩
  obtain ⟨op, s1, hpeeked⟩ := peek_reads hreads
  refine ⟨s1, ?_, hpeeked.reads, hpeeked.length⟩
  have hop : rightLevel precedence < operatorPrecedence op.type := hpeeked.type ▸ hnext
  rw [parseInfixLoop, bind_ok hpeeked.peek, not_fits hop, if_neg Bool.false_ne_true, if_neg]
  · rfl
  · rintro ⟨htype, hquestion⟩
    rw [htype] at hop
    have hle := (question_fits precedence).1 hquestion
    omega

theorem Operand.result (h : Operand tryParse lexemes expr level) (precedence fuel : Nat)
    {s : List Token} {next : TokenType × Text} {ks : List (TokenType × Text)}
    (hlevel : level ≤ rightLevel precedence)
    (hnext : rightLevel precedence < operatorPrecedence next.1)
    (hreads : Reads s (keys lexemes ++ next :: ks)) (hfuel : 3 * s.length + 2 ≤ fuel) :
    ∃ s', parseInfixOperations tryParse fuel precedence s = .ok (expr, s') ∧
      Reads s' (next :: ks) ∧ s'.length < s.length := by
  have hlt : rightLevel level < operatorPrecedence next.1 := by
    have hle := rightLevel_le level
    omega
  obtain ⟨fuel', s1, hparse, hreads1, hlength1, hfuel'⟩ :=
    h.parses precedence s next ks fuel hlevel hlt hreads hfuel
  have hpositive : 0 < fuel' := by omega
  obtain ⟨s2, hloop, hreads2, hlength2⟩ := loop_ends expr hreads1 hnext hpositive
  exact ⟨s2, hparse.trans hloop, hreads2, by omega⟩

theorem keys_parens (lexemes : List Lexeme) (ks : List (TokenType × Text)) :
    keys (lexemes ++ [.mark .rparen]) ++ ks = keys lexemes ++ (.rparen, []) :: ks := by
  rw [keys_append, List.append_assoc]
  rfl

theorem atom_parens (h : Operand tryParse lexemes expr level) (hlevel : level ≤ 8) :
    Atom tryParse (parens lexemes) expr := by
  refine ⟨_, _, rfl, nofun, nofun, fun tok s ks fuel htype _ hreads hfuel => ?_⟩
  obtain ⟨fuel, rfl⟩ : ∃ rest, fuel = rest + 2 := ⟨fuel - 2, by omega⟩
  rw [keys_parens] at hreads
  obtain ⟨s1, hresult, hreads1, hlength1⟩ :=
    h.result (operatorPrecedence .eof) fuel (hlevel.trans (by decide)) (by decide) hreads
      (by omega)
  obtain ⟨rparen, s2, hchewed⟩ := chew_reads hreads1 nofun
  refine ⟨s2, ?_, hchewed.reads, by have := hchewed.length; omega⟩
  rw [parseAtom, htype]
  change parseParens tryParse (fuel + 1) s = _
  rw [parseParens, bind_ok hresult, bind_ok hchewed.chew, if_neg (not_not_intro hchewed.type)]
  rfl

theorem operand_within (h : Operand tryParse lexemes expr level) (hlevel : level ≤ 8)
    (allowed : Nat) :
    ∃ level' ≤ allowed, Operand tryParse (within allowed level lexemes) expr level' := by
  unfold within
  split
  case isTrue hle => exact ⟨level, hle, h⟩
  case isFalse => exact ⟨0, Nat.zero_le _, operand_of_atom (atom_parens h hlevel)⟩

/-! ### Infix operators -/

theorem infixExpression_token {op op' : Token} (htype : op.type = op'.type)
    (hdata : op.data = op'.data) (lhs rhs : Expression V) :
    infixExpression op lhs rhs = infixExpression op' lhs rhs := by
  unfold infixExpression
  rw [htype, hdata]

theorem operand_between (separator : Lexeme) (hleft : Operand tryParse lexemes expr level)
    (hright : Operand tryParse lexemes' expr' level')
    (hbinary : separator.token.type.isBinaryOperator = true)
    (hlevel : level ≤ leftLevel (operatorPrecedence separator.token.type))
    (hlevel' : level' ≤ rightLevel (operatorPrecedence separator.token.type)) :
    Operand tryParse (lexemes ++ separator :: lexemes')
      (infixExpression separator.token expr expr') (operatorPrecedence separator.token.type) := by
  obtain ⟨hpositive, -⟩ := precedence_operator hbinary
  constructor
  · obtain ⟨l, rest, rfl, hl⟩ := hleft.first
    exact ⟨l, rest ++ separator :: lexemes', rfl, hl⟩
  · intro precedence s next ks fuel hfits hnext hreads hfuel
    rw [keys_append, keys_cons, List.append_assoc, List.cons_append] at hreads
    have hle := leftLevel_le (operatorPrecedence separator.token.type)
    -- The operand on the left ends at the operator.
    obtain ⟨fuel1, s1, hparse1, hreads1, hlength1, hfuel1⟩ :=
      hleft.parses precedence s separator.token.key _ fuel (by omega)
        (rightLevel_lt hpositive hlevel) hreads hfuel
    obtain ⟨fuel1, rfl⟩ : ∃ rest, fuel1 = rest + 1 := ⟨fuel1 - 1, by omega⟩
    obtain ⟨op, s2, hpeeked⟩ := peek_reads hreads1
    have hlength2 := hpeeked.length
    have htype : op.type = separator.token.type := hpeeked.type
    obtain ⟨op', s3, hchewed⟩ := chew_reads hpeeked.reads (by
      change separator.token.type ≠ .eof
      intro heof
      rw [heof] at hbinary
      cases hbinary)
    have hlength3 := hchewed.length
    obtain ⟨s4, hparse4, hreads4, hlength4⟩ :=
      hright.result (operatorPrecedence separator.token.type) fuel1 hlevel' hnext hchewed.reads
        (by omega)
    refine ⟨fuel1, s4, ?_, hreads4, by omega, by omega⟩
    rw [hparse1, parseInfixLoop, bind_ok hpeeked.peek, htype,
      if_pos ((fits_iff hbinary precedence).2 hfits), bind_ok hchewed.chew, bind_ok hparse4,
      infixExpression_token htype hpeeked.data]

theorem operand_conditional {lexemes'' : List Lexeme} {expr'' : Expression V} {level'' : Nat}
    (hcondition : Operand tryParse lexemes expr level)
    (htrue : Operand tryParse lexemes' expr' level')
    (hfalse : Operand tryParse lexemes'' expr'' level'')
    (hlevel : level ≤ leftLevel (operatorPrecedence .question))
    (hlevel' : level' ≤ rightLevel (operatorPrecedence .question))
    (hlevel'' : level'' ≤ rightLevel (operatorPrecedence .question)) :
    Operand tryParse
      (lexemes ++ .mark .question :: (lexemes' ++ .mark .colon :: lexemes''))
      (.function .if [expr, expr', expr'']) (operatorPrecedence .question) := by
  constructor
  · obtain ⟨l, rest, rfl, hl⟩ := hcondition.first
    exact ⟨l, _, rfl, hl⟩
  · intro precedence s next ks fuel hfits hnext hreads hfuel
    have hquestion : operatorPrecedence .question = 7 := rfl
    rw [keys_append, keys_cons, keys_append, keys_cons, List.append_assoc, List.cons_append,
      List.append_assoc, List.cons_append] at hreads
    have hle := leftLevel_le (operatorPrecedence .question)
    obtain ⟨fuel1, s1, hparse1, hreads1, hlength1, hfuel1⟩ :=
      hcondition.parses precedence s (.question, []) _ fuel (by omega)
        (rightLevel_lt (by decide) hlevel) hreads hfuel
    obtain ⟨fuel1, rfl⟩ : ∃ rest, fuel1 = rest + 1 := ⟨fuel1 - 1, by omega⟩
    obtain ⟨op, s2, hpeeked⟩ := peek_reads hreads1
    have hlength2 := hpeeked.length
    have htype : op.type = .question := hpeeked.type
    obtain ⟨op', s3, hchewed⟩ := chew_reads hpeeked.reads nofun
    have hlength3 := hchewed.length
    -- What is between the marks ends at the colon, which is no operator.
    obtain ⟨s4, hparse4, hreads4, hlength4⟩ :=
      htrue.result (operatorPrecedence .question) fuel1 hlevel' (by decide) hchewed.reads (by omega)
    obtain ⟨colon, s5, hcolon⟩ := chew_reads hreads4 nofun
    have hlength5 := hcolon.length
    have htype' : colon.type = .colon := hcolon.type
    obtain ⟨s6, hparse6, hreads6, hlength6⟩ :=
      hfalse.result (operatorPrecedence .question) fuel1 hlevel'' hnext hcolon.reads (by omega)
    refine ⟨fuel1, s6, ?_, hreads6, by omega, by omega⟩
    have hnot : isBinaryOpWithPrecedence .question precedence = false := rfl
    rw [hparse1, parseInfixLoop, bind_ok hpeeked.peek, htype, hnot, if_neg Bool.false_ne_true,
      if_pos ⟨rfl, (question_fits precedence).2 hfits⟩, bind_ok hchewed.chew, bind_ok hparse4,
      bind_ok hcolon.chew, if_neg (not_not_intro htype'), bind_ok hparse6]

theorem atom_literal {l : Lexeme} {value : V} (htype : l.token.type = .literal)
    (hvalue : tryParse l.token.data = some value) : Atom tryParse [l] (.literal value) := by
  refine ⟨l, [], rfl, by rw [htype]; nofun, by rw [htype]; nofun,
    fun tok s ks fuel htok hdata hreads hfuel => ⟨s, ?_, hreads, Nat.le_refl _⟩⟩
  obtain ⟨fuel, rfl⟩ : ∃ rest, fuel = rest + 1 := ⟨fuel - 1, by omega⟩
  rw [parseAtom, htok, htype]
  dsimp only
  rw [makeLiteralExpression, hdata, hvalue]
  rfl

theorem atom_variable {name : Text} (hname : name ≠ []) :
    Atom tryParse [.variable name] (.variable name) := by
  refine ⟨_, [], rfl, nofun, nofun,
    fun tok s ks fuel htok hdata hreads hfuel => ⟨s, ?_, hreads, Nat.le_refl _⟩⟩
  obtain ⟨fuel, rfl⟩ : ∃ rest, fuel = rest + 1 := ⟨fuel - 1, by omega⟩
  have hdata : tok.data = name := hdata
  rw [parseAtom, htok]
  change (if tok.data.isEmpty then _ else _ : Parser (Expression V)) s = _
  rw [hdata, if_neg (by simpa using hname)]
  rfl

theorem atom_control (name : Text) :
    Atom tryParse [.control name] (.control (ControlQualifier.fromString name)) := by
  refine ⟨_, [], rfl, nofun, nofun,
    fun tok s ks fuel htok hdata hreads hfuel => ⟨s, ?_, hreads, Nat.le_refl _⟩⟩
  obtain ⟨fuel, rfl⟩ : ∃ rest, fuel = rest + 1 := ⟨fuel - 1, by omega⟩
  have hdata : tok.data = name := hdata
  rw [parseAtom, htok]
  change (Pure.pure _ : Parser (Expression V)) s = _
  rw [hdata]
  rfl

/-! ### Functions -/

variable (tryParse) in
structure Arguments (lexemes : List Lexeme) (exprs : List (Expression V)) : Prop where
  first : ∃ l rest, lexemes = l :: rest ∧ l.token.type ≠ .rparen
  parses : ∀ s ks fuel, Reads s (keys lexemes ++ ks) → 3 * s.length + 3 ≤ fuel →
    ∃ s', parseArguments tryParse fuel s = .ok (exprs, s') ∧ Reads s' ks ∧ s'.length ≤ s.length

theorem arguments_last (h : Operand tryParse lexemes expr level)
    (hlevel : level ≤ rightLevel (operatorPrecedence .comma)) :
    Arguments tryParse (lexemes ++ [.mark .rparen]) [expr] := by
  constructor
  · obtain ⟨l, rest, rfl, hl⟩ := h.first
    exact ⟨l, _, rfl, hl⟩
  · intro s ks fuel hreads hfuel
    obtain ⟨fuel, rfl⟩ : ∃ rest, fuel = rest + 1 := ⟨fuel - 1, by omega⟩
    rw [keys_parens] at hreads
    obtain ⟨s1, hparse1, hreads1, hlength1⟩ :=
      h.result (operatorPrecedence .comma) fuel hlevel (by decide) hreads (by omega)
    obtain ⟨tok, s2, hchewed⟩ := chew_reads hreads1 nofun
    have hlength2 := hchewed.length
    have htype : tok.type = .rparen := hchewed.type
    refine ⟨s2, ?_, hchewed.reads, by omega⟩
    rw [parseArguments, bind_ok hparse1, bind_ok hchewed.chew, if_pos htype]
    rfl

theorem arguments_cons {exprs : List (Expression V)} (h : Operand tryParse lexemes expr level)
    (hlevel : level ≤ rightLevel (operatorPrecedence .comma))
    (hrest : Arguments tryParse lexemes' exprs) :
    Arguments tryParse (lexemes ++ .mark .comma :: lexemes') (expr :: exprs) := by
  constructor
  · obtain ⟨l, rest, rfl, hl⟩ := h.first
    exact ⟨l, _, rfl, hl⟩
  · intro s ks fuel hreads hfuel
    obtain ⟨fuel, rfl⟩ : ∃ rest, fuel = rest + 1 := ⟨fuel - 1, by omega⟩
    rw [keys_append, keys_cons, List.append_assoc, List.cons_append] at hreads
    obtain ⟨s1, hparse1, hreads1, hlength1⟩ :=
      h.result (operatorPrecedence .comma) fuel hlevel (by decide) hreads (by omega)
    obtain ⟨tok, s2, hchewed⟩ := chew_reads hreads1 (by decide)
    have hlength2 := hchewed.length
    have htype : tok.type = .comma := hchewed.type
    obtain ⟨s3, hparse3, hreads3, hlength3⟩ :=
      hrest.parses s2 ks fuel hchewed.reads (by omega)
    refine ⟨s3, ?_, hreads3, by omega⟩
    rw [parseArguments, bind_ok hparse1, bind_ok hchewed.chew, if_neg (by rw [htype]; decide),
      if_neg (not_not_intro htype), bind_ok hparse3]
    rfl

theorem functionExpression_ok {func : Function} {args : List (Expression V)}
    (hargs : func.validateArguments args.length = none) (name : Text) (funcTok : Token)
    (s : List Token) : functionExpression name func funcTok args s = .ok (.function func args, s) := by
  unfold functionExpression
  rw [hargs]
  rfl

theorem functionArguments_list {func : Function} {exprs : List (Expression V)}
    (h : Arguments tryParse lexemes exprs) (hargs : func.validateArguments exprs.length = none)
    (name : Text) (funcTok : Token) {s : List Token} {ks : List (TokenType × Text)} {fuel : Nat}
    (hreads : Reads s ((.lparen, []) :: (keys lexemes ++ ks))) (hfuel : 3 * s.length + 3 ≤ fuel) :
    ∃ s', parseFunctionArguments tryParse fuel name func funcTok s =
        .ok (.function func exprs, s') ∧ Reads s' ks ∧ s'.length ≤ s.length := by
  obtain ⟨fuel, rfl⟩ : ∃ rest, fuel = rest + 1 := ⟨fuel - 1, by omega⟩
  obtain ⟨next, s1, hnext⟩ := peek_reads hreads
  have hlength1 := hnext.length
  have htype : next.type = .lparen := hnext.type
  obtain ⟨tok, s2, hchewed⟩ := chew_reads hnext.reads nofun
  have hlength2 := hchewed.length
  obtain ⟨l, rest, rfl, hl⟩ := h.first
  obtain ⟨first, s3, hfirst⟩ := peek_reads hchewed.reads
  have hlength3 := hfirst.length
  have hparen : first.type ≠ .rparen := hfirst.type ▸ hl
  obtain ⟨s4, hparse4, hreads4, hlength4⟩ := h.parses s3 ks fuel hfirst.reads (by omega)
  refine ⟨s4, ?_, hreads4, by omega⟩
  rw [parseFunctionArguments, bind_ok hnext.peek, if_neg (not_not_intro htype),
    bind_ok hchewed.chew, bind_ok hfirst.peek, if_neg hparen, bind_ok hparse4,
    functionExpression_ok hargs]

theorem functionArguments_single {func : Function} (h : Atom tryParse lexemes expr)
    (hfirst : ∀ l ∈ lexemes.head?, l.token.type ≠ .lparen)
    (hargs : func.validateArguments 1 = none) (name : Text) (funcTok : Token) {s : List Token}
    {ks : List (TokenType × Text)} {fuel : Nat} (hreads : Reads s (keys lexemes ++ ks))
    (hfuel : 3 * s.length + 3 ≤ fuel) :
    ∃ s', parseFunctionArguments tryParse fuel name func funcTok s =
        .ok (.function func [expr], s') ∧ Reads s' ks ∧ s'.length ≤ s.length := by
  obtain ⟨fuel, rfl⟩ : ∃ rest, fuel = rest + 1 := ⟨fuel - 1, by omega⟩
  obtain ⟨l, rest, rfl, heof, -, hatom⟩ := h
  obtain ⟨next, s1, hnext⟩ := peek_reads hreads
  have hlength1 := hnext.length
  have htype : next.type ≠ .lparen := hnext.type ▸ hfirst l rfl
  obtain ⟨tok, s2, hchewed⟩ := chew_reads hnext.reads heof
  have hlength2 := hchewed.length
  obtain ⟨s3, hparse3, hreads3, hlength3⟩ :=
    hatom tok s2 ks fuel hchewed.type hchewed.data hchewed.reads (by omega)
  refine ⟨s3, ?_, hreads3, by omega⟩
  rw [parseFunctionArguments, bind_ok hnext.peek, if_pos htype, bind_ok hchewed.chew,
    bind_ok hparse3, functionExpression_ok hargs]

end

end DolphinXR.ExpressionParser
