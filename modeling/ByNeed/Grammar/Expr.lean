import ByNeed.Decimal.Reading
import ByNeed.Grammar.Parser
import ByNeed.Grammar.Precedence

set_option autoImplicit false

-- Each parser consumes a token before it calls another one on what is left. The number of tokens left, plus
-- one, is therefore enough fuel for all of them.
namespace ByNeed.Parser

def literalInteger (digits : String) : Parser Literal :=
  match Decimal.integer? digits with
  | some value => pure (.integer value)
  | none => throw (.integerOutOfRange false)

def literalFloat (text : String) : Parser Float :=
  match Decimal.float? text with
  | some value => pure value
  | none => throw .malformedFloat

def elements (element : Parser Expr) : Nat → List Expr → Parser (List Expr)
  | 0, _ => throw (.endOfInput .expression)
  | fuel + 1, found => do
    let parsed ← element
    skipBreaks
    let token ← next?
    match token.map Token.kind with
    | some (.symbol .comma) =>
      skipBreaks
      elements element fuel (parsed :: found)
    | some (.symbol .closeBracket) => return (parsed :: found).reverse
    | _ => throw (.mismatch (.token (.symbol .comma)) token)

def bracketedElements (element : Parser Expr) (fuel : Nat) : Parser (List Expr) := do
  skipBreaks
  if ← accept (.symbol .closeBracket) then return []
  elements element fuel []

def operand (expression : Precedence → Parser Expr) (fuel : Nat) (precedence : Precedence)
    (token : Token) : Parser Expr :=
  match token.kind with
  | .name id => return .name id
  | .integer digits => return .literal (← literalInteger digits)
  | .decimal text => return .literal (.float (← literalFloat text))
  | .string text => return .literal (.string text)
  | .boolean value => return .literal (.boolean value)
  | .symbol .plus => return .unary .plus (← expression .unary)
  | .symbol .minus => return .unary .minus (← expression .unary)
  | .symbol .increment => return .unary .increment (← expression .unary)
  | .symbol .decrement => return .unary .decrement (← expression .unary)
  | .keyword .negation =>
    if precedence ≤ .negation then return .unary .negation (← expression .negation)
    else throw (.notAnExpression token)
  | .symbol .openParen => do
    let inner ← expression .lowest
    expect (.symbol .closeParen)
    return inner
  | .symbol .openBracket => return .list (← bracketedElements (expression .lowest) fuel)
  | .keyword .create => do
    let type ← identifier
    if ← accept (.symbol .openBracket) then
      return .create type (← bracketedElements (expression .lowest) fuel)
    else return .create type []
  | .illegal error => throw (.lexical error token.span)
  | _ => throw (.notAnExpression token)

def continued (expression : Precedence → Parser Expr) (left : Expr)
    (continuation : Continuation) : Parser Expr :=
  match continuation with
  | .arithmetic op => return .arithmetic op left (← expression continuation.precedence)
  | .logical op => return .logical op left (← expression continuation.precedence)
  | .comparison op => return .comparison op left (← expression .comparisonChain)
  | .step op => return .unary op left
  | .index => do
    let position ← expression .lowest
    expect (.symbol .closeBracket)
    return .index left position
  | .member => return .member left (← identifier)

def continuations (expression : Precedence → Parser Expr) (precedence : Precedence) :
    Nat → Expr → Parser Expr
  | 0, left => return left
  | fuel + 1, left => do
    match (← peek?).bind Continuation.ofKind? with
    | none => return left
    | some continuation =>
      if precedence < continuation.precedence then
        let _ ← next?
        let larger ← continued expression left continuation
        continuations expression precedence fuel larger
      else return left

def expression : Nat → Precedence → Parser Expr
  | 0, _ => throw (.endOfInput .expression)
  | fuel + 1, precedence => do
    match ← next? with
    | none => throw (.endOfInput .expression)
    | some token =>
      let left ← operand (expression fuel) fuel precedence token
      continuations (expression fuel) precedence fuel left

end ByNeed.Parser

namespace ByNeed

def Expr.parse (precedence : Precedence) : Parser Expr := fun tokens =>
  Parser.expression (tokens.length + 1) precedence tokens

end ByNeed
