import ByNeed.Grammar.Expr
import ByNeed.Token.Lexer

set_option autoImplicit false

namespace ByNeed.Parser

def negativeNumber : Parser Pattern := do
  match ← next? with
  | none => throw (.endOfInput .pattern)
  | some token =>
    match token.kind with
    | .integer digits =>
      match Decimal.negativeInteger? digits with
      | some value => return .literal (.integer value)
      | none => throw (.integerOutOfRange true)
    | .decimal text => return .literal (.float (-(← literalFloat text)))
    | _ => throw (.notAPattern token)

def pattern : Parser Pattern := do
  match ← next? with
  | none => throw (.endOfInput .pattern)
  | some token =>
    match token.kind with
    | .name id => if id = "_" then return .wildcard else return .binding id
    | .integer digits => return .literal (← literalInteger digits)
    | .decimal text => return .literal (.float (← literalFloat text))
    | .string text => return .literal (.string text)
    | .boolean value => return .literal (.boolean value)
    | .symbol .minus => negativeNumber
    | .illegal error => throw (.lexical error token.span)
    | _ => throw (.notAPattern token)

def closes (closing : List Keyword) : Token.Kind → Bool
  | .keyword word => closing.contains word
  | _ => false

def block (statement : Parser Statement) (closing : List Keyword) : Nat → List Statement →
    Parser Block
  | 0, _ => throw (.endOfInput (.token (.keyword .finish)))
  | fuel + 1, found => do
    skipBreaks
    match ← peek? with
    | none => throw (.endOfInput (.token (.keyword .finish)))
    | some kind =>
      if closes closing kind then return found.reverse
      let parsed ← statement
      statementEnd
      block statement closing fuel (parsed :: found)

/-- A condition, its block and what follows up to the keyword that closes the whole statement. A
further condition becomes the only statement of the alternative. -/
def branch (statement : Parser Statement) (condition : Parser Expr) : Nat → Parser Statement
  | 0 => throw (.endOfInput .expression)
  | fuel + 1 => do
    let test ← condition
    expect (.keyword .consequence)
    expect .lineBreak
    let consequence ← block statement [.elseBranch, .otherwise, .finish] fuel []
    match ← peek? with
    | some (.keyword .elseBranch) =>
      let _ ← next?
      let nested ← branch statement condition fuel
      return .branch test consequence (some [nested])
    | some (.keyword .otherwise) =>
      let _ ← next?
      expect .lineBreak
      return .branch test consequence (some (← block statement [.finish] fuel []))
    | _ => return .branch test consequence none

def caseBody (statement : Parser Statement) (fuel : Nat) : Parser Block := do
  match ← peek? with
  | some .lineBreak => block statement [.option, .otherwise, .finish] fuel []
  | _ =>
    let parsed ← statement
    statementEnd
    return [parsed]

def cases (statement : Parser Statement) : Nat → List (Pattern × Block) →
    Parser (List (Pattern × Block))
  | 0, _ => throw (.endOfInput (.token (.keyword .option)))
  | fuel + 1, found => do
    skipBreaks
    let next ← peek?
    if found.isEmpty || next = some (.keyword .option) then
      expect (.keyword .option)
      let shape ← pattern
      expect (.keyword .consequence)
      let body ← caseBody statement fuel
      cases statement fuel ((shape, body) :: found)
    else return found.reverse

def fields : Nat → List String → Parser (List String)
  | 0, _ => throw (.endOfInput (.token (.keyword .finish)))
  | fuel + 1, found => do
    skipBreaks
    let token ← next?
    match token.map Token.kind with
    | some (.keyword .field) =>
      let id ← identifier
      statementEnd
      fields fuel (id :: found)
    | some (.keyword .finish) => return found.reverse
    | _ => throw (.mismatch (.token (.keyword .finish)) token)

def startsAssignment : List Token → Bool
  | _ :: ⟨.symbol .assign, _⟩ :: _ => true
  | _ => false

def statementWith (statement : Parser Statement) (fuel : Nat) : Parser Statement := do
  let whole := expression fuel .lowest
  let assignment := startsAssignment (← get)
  match ← peek? with
  | some (.keyword .record) =>
    let _ ← next?
    let type ← identifier
    expect .lineBreak
    return .define type (← fields fuel [])
  | some (.keyword .print) =>
    let _ ← next?
    return .print (← whole)
  | some (.keyword .branch) =>
    let _ ← next?
    let parsed ← branch statement whole fuel
    expect (.keyword .finish)
    return parsed
  | some (.keyword .select) =>
    let _ ← next?
    let scrutinee ← whole
    expect .lineBreak
    let found ← cases statement fuel []
    let alternative ← if ← accept (.keyword .otherwise) then
        some <$> caseBody statement fuel
      else pure none
    skipBreaks
    expect (.keyword .finish)
    return .select scrutinee found alternative
  | some (.keyword .iterate) =>
    let _ ← next?
    let id ← identifier
    expect (.keyword .among)
    let items ← whole
    expect .lineBreak
    let body ← block statement [.finish] fuel []
    expect (.keyword .finish)
    return .iterate id items body
  | some (.name id) =>
    if assignment then
      let _ ← next?
      let _ ← next?
      return .assign id (← whole)
    else return .evaluate (← whole)
  | _ => return .evaluate (← whole)

def statement : Nat → Parser Statement
  | 0 => throw (.endOfInput .expression)
  | fuel + 1 => statementWith (statement fuel) (fuel + 1)

def statements : Nat → List Statement → Parser Block
  | 0, found => return found.reverse
  | fuel + 1, found => do
    skipBreaks
    match ← peek? with
    | none => return found.reverse
    | some _ =>
      let parsed ← statement (fuel + 1)
      statementEnd
      statements fuel (parsed :: found)

end ByNeed.Parser

namespace ByNeed

def Program.ofTokens (tokens : List Token) : Except SyntaxError Program :=
  match Parser.statements (tokens.length + 1) [] tokens with
  | .ok statements _ => .ok ⟨statements⟩
  | .error error _ => .error error

def Program.parse (source : String) : Except SyntaxError Program :=
  Program.ofTokens (Token.scan source)

end ByNeed
