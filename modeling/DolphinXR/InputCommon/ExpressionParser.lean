import DolphinXR.InputCommon.ExpressionLexer

/- The parser of input expressions (InputCommon/ControlReference/ExpressionParser.cpp), with the
   functions it knows (FunctionExpression.cpp). The parser's place in the list of tokens is what is
   left of the list; looking at the next token of an empty rest is `pastEnd`. The functions call each
   other, so they take a bound on the depth of the calls, and `outOfFuel` says that it is reached.

   The values of literals are a parameter, read by `tryParse`. A device is told by the text that
   its qualifier is read from. -/
namespace DolphinXR.ExpressionParser

open Common

/-! ### Expressions -/

inductive Function where
  | not | if | abs | sin | cos | tan | asin | acos | atan | atan2 | sqrt | pow | floor | ceil
  | round | trunc | min | max | clamp | timer | toggle | minus | plus | deadzone | smooth | hold
  | tap | relative | pulse
  deriving DecidableEq

namespace Function

def name : Function → Text
  | not => ['n', 'o', 't']
  | «if» => ['i', 'f']
  | abs => ['a', 'b', 's']
  | sin => ['s', 'i', 'n']
  | cos => ['c', 'o', 's']
  | tan => ['t', 'a', 'n']
  | asin => ['a', 's', 'i', 'n']
  | acos => ['a', 'c', 'o', 's']
  | atan => ['a', 't', 'a', 'n']
  | atan2 => ['a', 't', 'a', 'n', '2']
  | sqrt => ['s', 'q', 'r', 't']
  | pow => ['p', 'o', 'w']
  | floor => ['f', 'l', 'o', 'o', 'r']
  | ceil => ['c', 'e', 'i', 'l']
  | round => ['r', 'o', 'u', 'n', 'd']
  | trunc => ['t', 'r', 'u', 'n', 'c']
  | min => ['m', 'i', 'n']
  | max => ['m', 'a', 'x']
  | clamp => ['c', 'l', 'a', 'm', 'p']
  | timer => ['t', 'i', 'm', 'e', 'r']
  | toggle => ['t', 'o', 'g', 'g', 'l', 'e']
  | minus => ['m', 'i', 'n', 'u', 's']
  | plus => ['p', 'l', 'u', 's']
  | deadzone => ['d', 'e', 'a', 'd', 'z', 'o', 'n', 'e']
  | smooth => ['s', 'm', 'o', 'o', 't', 'h']
  | hold => ['h', 'o', 'l', 'd']
  | tap => ['t', 'a', 'p']
  | relative => ['r', 'e', 'l', 'a', 't', 'i', 'v', 'e']
  | pulse => ['p', 'u', 'l', 's', 'e']

/-- In the order in which `MakeFunctionExpression` compares their names. -/
def all : List Function :=
  [not, «if», abs, sin, cos, tan, asin, acos, atan, atan2, sqrt, pow, floor, ceil, round, trunc,
    min, max, clamp, timer, toggle, minus, plus, deadzone, smooth, hold, tap, relative, pulse]

/-- The least and the greatest number of arguments. -/
def argCounts : Function → Nat × Nat
  | toggle => (1, 2)
  | atan2 | pow | min | max | deadzone | hold | pulse => (2, 2)
  | clamp | «if» => (3, 3)
  | smooth | tap => (2, 3)
  | relative => (2, 4)
  | _ => (1, 1)

def expectedArguments : Function → String
  | toggle => "toggle_state_input, [clear_state_input]"
  | atan2 => "y, x"
  | pow => "base, exponent"
  | min | max => "a, b"
  | clamp => "value, min, max"
  | timer => "seconds"
  | «if» => "condition, true_expression, false_expression"
  | deadzone => "input, amount"
  | smooth => "input, seconds_up, seconds_down = seconds_up"
  | hold | pulse => "input, seconds"
  | tap => "input, seconds, taps = 2"
  | relative => "input, speed, [max_abs_value, [shared_state]]"
  | _ => "expression"

def validateArguments (f : Function) (count : Nat) : Option String :=
  if f.argCounts.1 ≤ count ∧ count ≤ f.argCounts.2 then none else some f.expectedArguments

end Function

def makeFunctionExpression (name : Text) : Option Function :=
  Function.all.find? fun f => f.name == name

structure ControlQualifier where
  /-- The text of the device's qualifier, if there is one. -/
  device : Option Text
  controlName : Text
  deriving DecidableEq

def ControlQualifier.fromString (str : Text) : ControlQualifier :=
  match splitAtLast ':' str with
  | some (device, controlName) => { device := some device, controlName := controlName }
  | none => { device := none, controlName := str }

inductive Expression (V : Type) where
  | literal (value : V)
  | variable (name : Text)
  | control (qualifier : ControlQualifier)
  | function (func : Function) (args : List (Expression V))
  | binary (op : TokenType) (lhs rhs : Expression V)
  | compoundAssignment (op : TokenType) (lhs rhs : Expression V)
  | hotkey (modifiers : List ControlQualifier) (finalInput : ControlQualifier)

def operatorPrecedence : TokenType → Nat
  | .mul | .div | .mod => 1
  | .add | .sub => 2
  | .gthan | .lthan => 3
  | .and => 4
  | .xor => 5
  | .or => 6
  | .assign | .question => 7
  | .comma => 8
  | _ => 999

def isRTLBinaryOp (type : TokenType) : Bool := decide (type = .assign)

def isBinaryOpWithPrecedence (type : TokenType) (precedence : Nat) : Bool :=
  if !type.isBinaryOperator then false
  else
    decide (operatorPrecedence type < precedence) ||
      (isRTLBinaryOp type && decide (operatorPrecedence type ≤ precedence))

/-! ### The parser -/

inductive Failure where
  | syntaxError (token : Token) (description : String)
  | pastEnd
  | outOfFuel

abbrev Parser := StateT (List Token) (Except Failure)

def errorResult {α : Type} (token : Token) (description : String) : Parser α :=
  throw (.syntaxError token description)

def peek : Parser Token := fun tokens =>
  match tokens.dropWhile isInertToken with
  | [] => .error .pastEnd
  | tok :: rest => .ok (tok, tok :: rest)

def chew : Parser Token := do
  let tok ← peek
  if tok.type = .eof then return tok
  else
    modify List.tail
    return tok

variable {V : Type} (tryParse : Text → Option V)

def makeLiteralExpression (tok : Token) : Parser (Expression V) :=
  match tryParse tok.data with
  | some value => return .literal value
  | none => errorResult tok "Invalid literal."

def functionExpression (name : Text) (func : Function) (funcTok : Token)
    (args : List (Expression V)) : Parser (Expression V) :=
  match func.validateArguments args.length with
  | none => return .function func args
  | some text =>
    errorResult funcTok ("Expected arguments: " ++ String.ofList name ++ "(" ++ text ++ ")")

/-- A compound assignment token has its operator in the data. -/
def infixExpression (op : Token) (lhs rhs : Expression V) : Expression V :=
  match op.data with
  | [] => .binary op.type lhs rhs
  | c :: _ =>
    if op.type = .assign then
      .compoundAssignment (getBinaryOperatorTokenTypeFromChar c) lhs rhs
    else .binary op.type lhs rhs

/-- The inputs of a hotkey: its modifiers and the final input. -/
def parseHotkeyInputs : Nat → Parser (List ControlQualifier × ControlQualifier)
  | 0 => throw .outOfFuel
  | fuel + 1 => do
    let tok ← chew
    if tok.type ≠ .control ∧ tok.type ≠ .bareword then
      errorResult tok "Expected name of input."
    else
      let input := ControlQualifier.fromString tok.data
      let tok ← chew
      if tok.type = .add then
        let inputs ← parseHotkeyInputs fuel
        return (input :: inputs.1, inputs.2)
      else if tok.type = .rparen then return ([], input)
      else errorResult tok "Expected + or closing paren."

def parseHotkeys (fuel : Nat) : Parser (Expression V) := do
  let tok ← chew
  if tok.type ≠ .lparen then errorResult tok "Expected opening paren."
  else
    let inputs ← parseHotkeyInputs fuel
    return .hotkey inputs.1 inputs.2

mutual

def parseAtom : Nat → Token → Parser (Expression V)
  | 0, _ => throw .outOfFuel
  | fuel + 1, tok =>
    match tok.type with
    | .bareword =>
      match makeFunctionExpression tok.data with
      -- Invalid function, interpret this as a bareword control.
      | none => parseAtom fuel { tok with type := .control }
      | some func => parseFunctionArguments fuel tok.data func tok
    | .control => return .control (ControlQualifier.fromString tok.data)
    | .not => parseFunctionArguments fuel Function.not.name .not tok
    | .literal => makeLiteralExpression tryParse tok
    | .variable =>
      if tok.data.isEmpty then errorResult tok "Expected variable name."
      else return .variable tok.data
    | .lparen => parseParens fuel
    | .hotkey => parseHotkeys fuel
    -- An atom was expected: the unary operators.
    | .sub => parseFunctionArguments fuel Function.minus.name .minus tok
    | .add => parseFunctionArguments fuel Function.plus.name .plus tok
    | _ => errorResult tok "Expected start of expression."

def parseFunctionArguments : Nat → Text → Function → Token → Parser (Expression V)
  | 0, _, _, _ => throw .outOfFuel
  | fuel + 1, name, func, funcTok => do
    let next ← peek
    if next.type ≠ .lparen then
      -- Single argument with no parens (useful for unary ! function)
      let tok ← chew
      let arg ← parseAtom fuel tok
      functionExpression name func funcTok [arg]
    else
      let _ ← chew
      let first ← peek
      if first.type = .rparen then
        let _ ← chew
        functionExpression name func funcTok []
      else
        let args ← parseArguments fuel
        functionExpression name func funcTok args

/-- The arguments of a call and the paren behind them. -/
def parseArguments : Nat → Parser (List (Expression V))
  | 0 => throw .outOfFuel
  | fuel + 1 => do
    -- Grab an expression, but stop at comma.
    let arg ← parseInfixOperations fuel (operatorPrecedence .comma)
    let tok ← chew
    if tok.type = .rparen then return [arg]
    else if tok.type ≠ .comma then errorResult tok "Expected closing paren."
    else
      let args ← parseArguments fuel
      return arg :: args

def parseInfixOperations : Nat → Nat → Parser (Expression V)
  | 0, _ => throw .outOfFuel
  | fuel + 1, precedence => do
    let tok ← chew
    let lhs ← parseAtom fuel tok
    parseInfixLoop fuel precedence lhs

/-- The operators behind an expression. -/
def parseInfixLoop : Nat → Nat → Expression V → Parser (Expression V)
  | 0, _, _ => throw .outOfFuel
  | fuel + 1, precedence, expr => do
    let op ← peek
    if isBinaryOpWithPrecedence op.type precedence then
      let _ ← chew
      let rhs ← parseInfixOperations fuel (operatorPrecedence op.type)
      parseInfixLoop fuel precedence (infixExpression op expr rhs)
    else if op.type = .question ∧ operatorPrecedence .question ≤ precedence then
      -- Handle conditional operator: (a ? b : c)
      let _ ← chew
      let trueResult ← parseInfixOperations fuel (operatorPrecedence op.type)
      let shouldBeColon ← chew
      if shouldBeColon.type ≠ .colon then errorResult shouldBeColon "Expected colon."
      else
        let falseResult ← parseInfixOperations fuel (operatorPrecedence op.type)
        parseInfixLoop fuel precedence (.function .if [expr, trueResult, falseResult])
    else return expr

def parseParens : Nat → Parser (Expression V)
  | 0 => throw .outOfFuel
  | fuel + 1 => do
    -- lparen already chewed
    let result ← parseInfixOperations fuel (operatorPrecedence .eof)
    let rparen ← chew
    if rparen.type ≠ .rparen then errorResult rparen "Expected closing paren."
    else return result

end

def parse (fuel : Nat) : Parser (Expression V) := do
  let result ← parseInfixOperations tryParse fuel (operatorPrecedence .eof)
  let tok ← peek
  if tok.type = .eof then return result
  else errorResult tok "Expected end of expression."

def parseFuel (tokens : List Token) : Nat := 3 * tokens.length + 2

def parseTokens (tokens : List Token) : Except Failure (Expression V) :=
  (parse tryParse (parseFuel tokens) tokens).map Prod.fst

end DolphinXR.ExpressionParser
