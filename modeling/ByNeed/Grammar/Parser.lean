import ByNeed.Grammar.Error

set_option autoImplicit false

-- The tokens that a failing parser has consumed stay consumed.
namespace ByNeed

abbrev Parser := EStateM SyntaxError (List Token)

namespace Parser

def next? : Parser (Option Token)
  | [] => .ok none []
  | token :: rest => .ok (some token) rest

def peek? : Parser (Option Token.Kind)
  | [] => .ok none []
  | token :: rest => .ok (some token.kind) (token :: rest)

def accept (kind : Token.Kind) : Parser Bool
  | [] => .ok false []
  | token :: rest =>
    if token.kind = kind then .ok true rest else .ok false (token :: rest)

def expect (kind : Token.Kind) : Parser Unit
  | [] => .error (.endOfInput (.token kind)) []
  | token :: rest =>
    if token.kind = kind then .ok () rest
    else .error (.mismatch (.token kind) (some token)) rest

def identifier : Parser String
  | [] => .error (.endOfInput .identifier) []
  | ⟨.name id, _⟩ :: rest => .ok id rest
  | token :: rest => .error (.mismatch .identifier (some token)) rest

def skipBreaks : Parser Unit
  | tokens => .ok () (tokens.dropWhile fun token => token.kind = .lineBreak)

def closesStatement : Token.Kind → Bool
  | .lineBreak => true
  | .keyword .finish | .keyword .otherwise | .keyword .elseBranch | .keyword .option => true
  | _ => false

def statementEnd : Parser Unit
  | [] => .ok () []
  | token :: rest =>
    if closesStatement token.kind then .ok () (token :: rest)
    else .error (.mismatch .statementEnd (some token)) (token :: rest)

end Parser

end ByNeed
