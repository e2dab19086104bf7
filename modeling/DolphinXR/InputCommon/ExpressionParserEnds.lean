import DolphinXR.InputCommon.ExpressionParser

/- The parser comes to an end on every list of tokens that has one. `Runs` says of a piece of the
   parser that it neither looks past the list nor runs out of calls, and what holds where it
   succeeds. The bound on the calls falls with the tokens: between two tokens that are chewed lie at
   most three calls. A token that is invalid can be the last of the list and still be chewed, but
   each place that chews it gives up. -/
namespace DolphinXR.ExpressionParser

open Common

/-- No failure but an error of syntax, and the condition where there is a result. -/
def Runs {α : Type} (m : Parser α) (tokens : List Token) (post : α → List Token → Prop) : Prop :=
  match m tokens with
  | .ok (value, rest) => post value rest
  | .error (.syntaxError _ _) => True
  | .error .pastEnd => False
  | .error .outOfFuel => False

section Rules
variable {α β : Type} {m : Parser α} {tokens : List Token} {post : α → List Token → Prop}

theorem Runs.bind {f : α → Parser β} {post : β → List Token → Prop}
    (h : Runs m tokens fun value rest => Runs (f value) rest post) :
    Runs (m >>= f) tokens post := by
  unfold Runs at h ⊢
  change match (Except.bind (m tokens) fun x => f x.1 x.2) with
    | .ok (value, rest) => post value rest
    | .error (.syntaxError _ _) => True
    | .error .pastEnd => False
    | .error .outOfFuel => False
  cases hm : m tokens with
  | ok x =>
    rw [hm] at h
    exact h
  | error failure =>
    rw [hm] at h
    cases failure with
    | syntaxError => trivial
    | pastEnd => exact h
    | outOfFuel => exact h

theorem Runs.mono {post' : α → List Token → Prop} (h : Runs m tokens post)
    (hpost : ∀ value rest, post value rest → post' value rest) : Runs m tokens post' := by
  unfold Runs at h ⊢
  cases hm : m tokens with
  | ok x =>
    rw [hm] at h
    exact hpost x.1 x.2 h
  | error failure =>
    rw [hm] at h
    cases failure with
    | syntaxError => trivial
    | pastEnd => exact h
    | outOfFuel => exact h

theorem Runs.pure {value : α} (h : post value tokens) : Runs (pure value) tokens post := h

theorem Runs.errorResult {tok : Token} {description : String} :
    Runs (errorResult tok description : Parser α) tokens post := trivial

end Rules

/-! ### Peeking and chewing -/

theorem ended_tail {tok : Token} {rest : List Token} (h : Ended (tok :: rest))
    (heof : tok.type ≠ .eof) (hinvalid : tok.type ≠ .invalid) : Ended rest := by
  obtain ⟨last, hlast, hend⟩ := h
  cases rest with
  | nil =>
    cases hlast
    obtain h | h := hend
    · exact absurd h heof
    · exact absurd h hinvalid
  | cons next rest =>
    rw [List.getLast?_cons_cons] at hlast
    exact ⟨last, hlast, hend⟩

theorem ended_dropWhile {tokens : List Token} (h : Ended tokens) :
    ∃ tok rest, tokens.dropWhile isInertToken = tok :: rest ∧ isInertToken tok = false ∧
      Ended (tok :: rest) ∧ (tok :: rest).length ≤ tokens.length := by
  induction tokens with
  | nil =>
    obtain ⟨last, hlast, _⟩ := h
    cases hlast
  | cons tok tokens ih =>
    cases hinert : isInertToken tok with
    | false => exact ⟨tok, tokens, List.dropWhile_cons_of_neg (by simp [hinert]), hinert, h, le_rfl⟩
    | true =>
      obtain ⟨heof, hinvalid⟩ := inert_not_end hinert
      obtain ⟨next, rest, hdrop, hnext, hended, hlength⟩ := ih (ended_tail h heof hinvalid)
      rw [List.dropWhile_cons_of_pos hinert]
      exact ⟨next, rest, hdrop, hnext, hended, hlength.trans (Nat.le_succ _)⟩

def Shorter {α : Type} (tokens : List Token) (_ : α) (rest : List Token) : Prop :=
  Ended rest ∧ rest.length ≤ tokens.length

structure Chewed (tokens : List Token) (tok : Token) (rest : List Token) : Prop where
  length : tok.type ≠ .eof → rest.length < tokens.length
  le : rest.length ≤ tokens.length
  ended : tok.type ≠ .invalid → Ended rest

theorem chew_eq {tokens : List Token} {tok : Token} {rest : List Token}
    (hdrop : tokens.dropWhile isInertToken = tok :: rest) :
    chew tokens = if tok.type = .eof then .ok (tok, tok :: rest) else .ok (tok, rest) := by
  have hpeek : peek tokens = .ok (tok, tok :: rest) := by
    unfold peek
    rw [hdrop]
  have hbind : chew tokens = (Except.bind (peek tokens) fun x =>
      (if x.1.type = .eof then Pure.pure x.1 else do modify List.tail; Pure.pure x.1 :
        Parser Token) x.2) := rfl
  rw [hbind, hpeek]
  change (if tok.type = .eof then _ else _ : Parser Token) (tok :: rest) = _
  split
  · rfl
  · rfl

theorem runs_chew {tokens : List Token} (h : Ended tokens) :
    Runs chew tokens (Chewed tokens) := by
  obtain ⟨tok, rest, hdrop, _, hended, hlength⟩ := ended_dropWhile h
  rw [List.length_cons] at hlength
  unfold Runs
  rw [chew_eq hdrop]
  by_cases heof : tok.type = .eof
  · rw [if_pos heof]
    exact ⟨fun hne => absurd heof hne, hlength, fun _ => hended⟩
  · rw [if_neg heof]
    exact ⟨fun _ => hlength, by omega, fun hinvalid => ended_tail hended heof hinvalid⟩

/-- What is left after a token was looked at begins with it. -/
structure Peeked (tokens : List Token) (tok : Token) (rest : List Token) : Prop where
  inert : isInertToken tok = false
  ended : Ended rest
  le : rest.length ≤ tokens.length
  head : rest.dropWhile isInertToken = tok :: rest.tail

theorem runs_peek {tokens : List Token} (h : Ended tokens) :
    Runs peek tokens (Peeked tokens) := by
  obtain ⟨tok, rest, hdrop, hinert, hended, hlength⟩ := ended_dropWhile h
  unfold Runs peek
  rw [hdrop]
  exact ⟨hinert, hended, hlength, List.dropWhile_cons_of_neg (by simp [hinert])⟩

theorem Peeked.chew {tokens : List Token} {tok : Token} {rest : List Token}
    (h : Peeked tokens tok rest) :
    Runs chew rest fun next rest => next = tok ∧ Chewed tokens tok rest := by
  have hchew := runs_chew h.ended
  unfold Runs at hchew ⊢
  rw [chew_eq h.head] at hchew ⊢
  by_cases heof : tok.type = .eof
  · rw [if_pos heof] at hchew ⊢
    exact ⟨rfl, fun hne => absurd heof hne, hchew.le.trans h.le, hchew.ended⟩
  · rw [if_neg heof] at hchew ⊢
    exact ⟨rfl, fun hne => (hchew.length hne).trans_le h.le, hchew.le.trans h.le, hchew.ended⟩

/-! ### The functions of the parser -/

variable {V : Type} {tryParse : Text → Option V}

theorem runs_functionExpression {name : Text} {func : Function} {funcTok : Token}
    {args : List (Expression V)} {tokens rest : List Token} (h : Shorter tokens () rest) :
    Runs (functionExpression name func funcTok args) rest (Shorter tokens) := by
  unfold functionExpression
  cases func.validateArguments args.length with
  | none => exact h
  | some text => exact Runs.errorResult

theorem runs_parseHotkeyInputs {fuel : Nat} {tokens : List Token} (h : Ended tokens)
    (hfuel : tokens.length + 1 ≤ fuel) :
    Runs (parseHotkeyInputs fuel) tokens (Shorter tokens) := by
  induction fuel generalizing tokens with
  | zero => omega
  | succ fuel ih =>
    rw [parseHotkeyInputs]
    refine (runs_chew h).mono (fun tok rest hchewed => ?_) |>.bind
    split
    case isTrue => exact Runs.errorResult
    case isFalse hname =>
      have hended : Ended rest := hchewed.ended fun hinvalid => hname (by simp [hinvalid])
      have hle := hchewed.length fun heof => hname (by simp [heof])
      refine (runs_chew hended).mono (fun tok next hnext => ?_) |>.bind
      split
      case isTrue hadd =>
        have hlt := hnext.length (by simp [hadd])
        refine (ih (hnext.ended (by simp [hadd])) (by omega)).mono (fun inputs last hlast => ?_)
          |>.bind
        have hshort := hlast.2
        exact Runs.pure ⟨hlast.1, by omega⟩
      case isFalse =>
        split
        case isTrue hrparen =>
          have hshort := hnext.le
          exact Runs.pure ⟨hnext.ended (by simp [hrparen]), by omega⟩
        case isFalse => exact Runs.errorResult

theorem runs_parseHotkeys {fuel : Nat} {tokens : List Token} (h : Ended tokens)
    (hfuel : tokens.length + 1 ≤ fuel) :
    Runs (parseHotkeys fuel : Parser (Expression V)) tokens (Shorter tokens) := by
  unfold parseHotkeys
  refine (runs_chew h).mono (fun tok rest hchewed => ?_) |>.bind
  split
  case isTrue => exact Runs.errorResult
  case isFalse hlparen =>
    have htype : tok.type = .lparen := not_not.1 hlparen
    have hlt := hchewed.length (by simp [htype])
    refine (runs_parseHotkeyInputs (hchewed.ended (by simp [htype])) (by omega)).mono
      (fun inputs last hlast => ?_) |>.bind
    exact Runs.pure ⟨hlast.1, hlast.2.trans hchewed.le⟩

/-- A bound on the calls that is deep enough for what is left of the tokens. -/
structure Terminates (tryParse : Text → Option V) (fuel : Nat) : Prop where
  atom : ∀ tok tokens, 1 ≤ fuel →
    (tok.type ≠ .eof → tok.type ≠ .invalid → Ended tokens ∧ 3 * tokens.length + 4 ≤ fuel) →
    Runs (parseAtom tryParse fuel tok) tokens (Shorter tokens)
  functionArguments : ∀ name func funcTok tokens, Ended tokens → 3 * tokens.length + 3 ≤ fuel →
    Runs (parseFunctionArguments tryParse fuel name func funcTok) tokens (Shorter tokens)
  arguments : ∀ tokens, Ended tokens → 3 * tokens.length + 3 ≤ fuel →
    Runs (parseArguments tryParse fuel) tokens (Shorter tokens)
  infixOperations : ∀ precedence tokens, Ended tokens → 3 * tokens.length + 2 ≤ fuel →
    Runs (parseInfixOperations tryParse fuel precedence) tokens (Shorter tokens)
  infixLoop : ∀ precedence expr tokens, Ended tokens → 3 * tokens.length + 2 ≤ fuel →
    Runs (parseInfixLoop tryParse fuel precedence expr) tokens (Shorter tokens)
  parens : ∀ tokens, Ended tokens → 3 * tokens.length + 3 ≤ fuel →
    Runs (parseParens tryParse fuel) tokens (Shorter tokens)

section Step
variable {fuel : Nat} (ih : Terminates tryParse fuel)
include ih

theorem runs_atom {tok : Token} {tokens : List Token}
    (h : tok.type ≠ .eof → tok.type ≠ .invalid →
      Ended tokens ∧ 3 * tokens.length + 4 ≤ fuel + 1) :
    Runs (parseAtom tryParse (fuel + 1) tok) tokens (Shorter tokens) := by
  rw [parseAtom]
  cases htype : tok.type with
  | bareword =>
    obtain ⟨hended, hfuel⟩ := h (by simp [htype]) (by simp [htype])
    dsimp only
    cases makeFunctionExpression tok.data with
    | some func => exact ih.functionArguments _ _ _ _ hended (by omega)
    | none =>
      obtain ⟨fuel, rfl⟩ : ∃ rest, fuel = rest + 1 := ⟨fuel - 1, by omega⟩
      dsimp only
      rw [parseAtom]
      exact ⟨hended, Nat.le_refl _⟩
  | control => exact ⟨(h (by simp [htype]) (by simp [htype])).1, Nat.le_refl _⟩
  | not =>
    obtain ⟨hended, hfuel⟩ := h (by simp [htype]) (by simp [htype])
    exact ih.functionArguments _ _ _ _ hended (by omega)
  | sub =>
    obtain ⟨hended, hfuel⟩ := h (by simp [htype]) (by simp [htype])
    exact ih.functionArguments _ _ _ _ hended (by omega)
  | add =>
    obtain ⟨hended, hfuel⟩ := h (by simp [htype]) (by simp [htype])
    exact ih.functionArguments _ _ _ _ hended (by omega)
  | lparen =>
    obtain ⟨hended, hfuel⟩ := h (by simp [htype]) (by simp [htype])
    exact ih.parens _ hended (by omega)
  | hotkey =>
    obtain ⟨hended, hfuel⟩ := h (by simp [htype]) (by simp [htype])
    exact runs_parseHotkeys hended (by omega)
  | literal =>
    obtain ⟨hended, -⟩ := h (by simp [htype]) (by simp [htype])
    dsimp only
    unfold makeLiteralExpression
    cases tryParse tok.data with
    | some value => exact ⟨hended, Nat.le_refl _⟩
    | none => exact Runs.errorResult
  | «variable» =>
    obtain ⟨hended, -⟩ := h (by simp [htype]) (by simp [htype])
    dsimp only
    split
    · exact Runs.errorResult
    · exact ⟨hended, Nat.le_refl _⟩
  | _ => exact Runs.errorResult

theorem runs_functionArguments {name : Text} {func : Function} {funcTok : Token}
    {tokens : List Token} (h : Ended tokens) (hfuel : 3 * tokens.length + 3 ≤ fuel + 1) :
    Runs (parseFunctionArguments tryParse (fuel + 1) name func funcTok) tokens
      (Shorter tokens) := by
  rw [parseFunctionArguments]
  refine (runs_peek h).mono (fun next rest hpeeked => ?_) |>.bind
  split
  case isTrue =>
    refine hpeeked.chew.mono (fun tok rest hchewed => ?_) |>.bind
    obtain ⟨rfl, hchewed⟩ := hchewed
    refine (ih.atom tok rest (by omega) fun heof hinvalid => ?_).mono
      (fun arg last hlast => ?_) |>.bind
    · have hlt := hchewed.length heof
      exact ⟨hchewed.ended hinvalid, by omega⟩
    · exact runs_functionExpression ⟨hlast.1, hlast.2.trans hchewed.le⟩
  case isFalse hlparen =>
    have htype : next.type = .lparen := not_not.1 hlparen
    refine hpeeked.chew.mono (fun tok rest hchewed => ?_) |>.bind
    obtain ⟨rfl, hchewed⟩ := hchewed
    have hended : Ended rest := hchewed.ended (by simp [htype])
    have hlt := hchewed.length (by simp [htype])
    refine (runs_peek hended).mono (fun first rest hfirst => ?_) |>.bind
    have hle := hfirst.le
    split
    case isTrue hrparen =>
      refine hfirst.chew.mono (fun tok rest hchewed => ?_) |>.bind
      obtain ⟨rfl, hchewed⟩ := hchewed
      have := hchewed.le
      exact runs_functionExpression ⟨hchewed.ended (by simp [hrparen]), by omega⟩
    case isFalse =>
      refine (ih.arguments rest hfirst.ended (by omega)).mono (fun args last hlast => ?_) |>.bind
      exact runs_functionExpression ⟨hlast.1, by have := hlast.2; omega⟩

theorem runs_arguments {tokens : List Token} (h : Ended tokens)
    (hfuel : 3 * tokens.length + 3 ≤ fuel + 1) :
    Runs (parseArguments tryParse (fuel + 1)) tokens (Shorter tokens) := by
  rw [parseArguments]
  refine (ih.infixOperations _ tokens h (by omega)).mono (fun arg rest hrest => ?_) |>.bind
  refine (runs_chew hrest.1).mono (fun tok next hchewed => ?_) |>.bind
  have hle := hrest.2
  have hnext := hchewed.le
  split
  case isTrue hrparen => exact Runs.pure ⟨hchewed.ended (by simp [hrparen]), by omega⟩
  case isFalse =>
    split
    case isTrue => exact Runs.errorResult
    case isFalse hcomma =>
      have htype : tok.type = .comma := not_not.1 hcomma
      have hlt := hchewed.length (by simp [htype])
      refine (ih.arguments next (hchewed.ended (by simp [htype])) (by omega)).mono
        (fun args last hlast => ?_) |>.bind
      exact Runs.pure ⟨hlast.1, by have := hlast.2; omega⟩

theorem runs_infixOperations {precedence : Nat} {tokens : List Token} (h : Ended tokens)
    (hfuel : 3 * tokens.length + 2 ≤ fuel + 1) :
    Runs (parseInfixOperations tryParse (fuel + 1) precedence) tokens (Shorter tokens) := by
  have hpositive : 0 < tokens.length := by
    obtain ⟨last, hlast, -⟩ := h
    cases tokens with
    | nil => cases hlast
    | cons => simp
  rw [parseInfixOperations]
  refine (runs_chew h).mono (fun tok rest hchewed => ?_) |>.bind
  have hle := hchewed.le
  by_cases heof : tok.type = .eof
  · -- The end is not chewed, and is no atom.
    refine Runs.bind ?_
    obtain ⟨fuel, rfl⟩ : ∃ rest, fuel = rest + 1 := ⟨fuel - 1, by omega⟩
    rw [parseAtom, heof]
    exact Runs.errorResult
  · have hlt := hchewed.length heof
    refine (ih.atom tok rest (by omega) fun _ hinvalid => ⟨hchewed.ended hinvalid, by omega⟩).mono
      (fun lhs next hnext => ?_) |>.bind
    have hshort := hnext.2
    refine (ih.infixLoop precedence lhs next hnext.1 (by omega)).mono fun expr last hlast => ?_
    exact ⟨hlast.1, by have := hlast.2; omega⟩

theorem runs_infixLoop {precedence : Nat} {expr : Expression V} {tokens : List Token}
    (h : Ended tokens) (hfuel : 3 * tokens.length + 2 ≤ fuel + 1) :
    Runs (parseInfixLoop tryParse (fuel + 1) precedence expr) tokens (Shorter tokens) := by
  rw [parseInfixLoop]
  refine (runs_peek h).mono (fun op rest hpeeked => ?_) |>.bind
  split
  case isTrue hop =>
    have hbinary : op.type.isBinaryOperator = true := by
      unfold isBinaryOpWithPrecedence at hop
      by_contra hnot
      rw [if_pos (by simp [hnot])] at hop
      contradiction
    refine hpeeked.chew.mono (fun tok rest hchewed => ?_) |>.bind
    obtain ⟨rfl, hchewed⟩ := hchewed
    have hlt := hchewed.length fun heof => by simp [heof, TokenType.isBinaryOperator] at hbinary
    have hended : Ended rest := hchewed.ended fun hinvalid => by
      simp [hinvalid, TokenType.isBinaryOperator] at hbinary
    refine (ih.infixOperations _ rest hended (by omega)).mono (fun rhs next hnext => ?_) |>.bind
    have hshort := hnext.2
    refine (ih.infixLoop precedence _ next hnext.1 (by omega)).mono fun expr last hlast => ?_
    exact ⟨hlast.1, by have := hlast.2; omega⟩
  case isFalse =>
    split
    case isFalse => exact Runs.pure ⟨hpeeked.ended, hpeeked.le⟩
    case isTrue hquestion =>
      refine hpeeked.chew.mono (fun tok rest hchewed => ?_) |>.bind
      obtain ⟨rfl, hchewed⟩ := hchewed
      have hlt := hchewed.length (by simp [hquestion.1])
      have hended : Ended rest := hchewed.ended (by simp [hquestion.1])
      refine (ih.infixOperations _ rest hended (by omega)).mono (fun rhs next hnext => ?_) |>.bind
      have hshort := hnext.2
      refine (runs_chew hnext.1).mono (fun colon rest hcolon => ?_) |>.bind
      split
      case isTrue => exact Runs.errorResult
      case isFalse hne =>
        have htype : colon.type = .colon := not_not.1 hne
        have hafter := hcolon.le
        refine (ih.infixOperations _ rest (hcolon.ended (by simp [htype])) (by omega)).mono
          (fun rhs next hnext => ?_) |>.bind
        have hshort := hnext.2
        refine (ih.infixLoop precedence _ next hnext.1 (by omega)).mono fun expr last hlast => ?_
        exact ⟨hlast.1, by have := hlast.2; omega⟩

theorem runs_parens {tokens : List Token} (h : Ended tokens)
    (hfuel : 3 * tokens.length + 3 ≤ fuel + 1) :
    Runs (parseParens tryParse (fuel + 1)) tokens (Shorter tokens) := by
  rw [parseParens]
  refine (ih.infixOperations _ tokens h (by omega)).mono (fun result rest hrest => ?_) |>.bind
  refine (runs_chew hrest.1).mono (fun rparen next hchewed => ?_) |>.bind
  split
  case isTrue => exact Runs.errorResult
  case isFalse hne =>
    have htype : rparen.type = .rparen := not_not.1 hne
    exact Runs.pure ⟨hchewed.ended (by simp [htype]), hchewed.le.trans hrest.2⟩

end Step

theorem terminates (fuel : Nat) : Terminates tryParse fuel := by
  induction fuel with
  | zero =>
    exact ⟨fun _ _ h => absurd h (by omega), fun _ _ _ _ _ h => absurd h (by omega),
      fun _ _ h => absurd h (by omega), fun _ _ _ h => absurd h (by omega),
      fun _ _ _ _ h => absurd h (by omega), fun _ _ h => absurd h (by omega)⟩
  | succ fuel ih =>
    exact ⟨fun _ _ _ h => runs_atom ih h, fun _ _ _ _ h => runs_functionArguments ih h,
      fun _ h => runs_arguments ih h, fun _ _ h => runs_infixOperations ih h,
      fun _ _ _ h => runs_infixLoop ih h, fun _ h => runs_parens ih h⟩

theorem parseTokens_ends {tokens : List Token} (h : Ended tokens) :
    parseTokens tryParse tokens ≠ .error .pastEnd ∧
      parseTokens tryParse tokens ≠ .error .outOfFuel := by
  have hruns : Runs (parse tryParse (parseFuel tokens)) tokens fun _ _ => True := by
    unfold parse
    refine ((terminates _).infixOperations _ tokens h (Nat.le_refl _)).mono
      (fun result rest hrest => ?_) |>.bind
    refine (runs_peek hrest.1).mono (fun tok next _ => ?_) |>.bind
    split
    · trivial
    · exact Runs.errorResult
  unfold parseTokens
  unfold Runs at hruns
  cases hresult : parse tryParse (parseFuel tokens) tokens with
  | ok x => exact ⟨nofun, nofun⟩
  | error failure =>
    rw [hresult] at hruns
    cases failure with
    | syntaxError => exact ⟨nofun, nofun⟩
    | pastEnd => exact hruns.elim
    | outOfFuel => exact hruns.elim

end DolphinXR.ExpressionParser
