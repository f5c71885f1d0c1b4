import ByNeed.Token.Basic

set_option autoImplicit false

namespace ByNeed

inductive Expected where
  | token (kind : Token.Kind)
  | identifier
  | expression
  | pattern
  | statementEnd
deriving Repr, DecidableEq

def Expected.describe : Expected → String
  | token kind => kind.describe
  | identifier => "an identifier"
  | expression => "an expression"
  | pattern => "a pattern"
  | statementEnd => "end of statement"

inductive SyntaxError where
  | endOfInput (expected : Expected)
  | unexpected (expected : Expected) (token : Token)
  | integerOutOfRange (negative : Bool)
  | malformedFloat
  | notAnExpression (token : Token)
  | notAPattern (token : Token)
  | lexical (error : LexError) (span : Span)
deriving Repr, DecidableEq

namespace SyntaxError

def message : SyntaxError → String
  | endOfInput expected => "Unexpected end of input, expected " ++ expected.describe
  | unexpected expected token =>
    "Expected " ++ expected.describe ++ ", got " ++ token.kind.describe
  | integerOutOfRange negative =>
    "Invalid integer literal: number too " ++ (if negative then "small" else "large") ++
      " to fit in target type"
  | malformedFloat => "Invalid float literal: invalid float literal"
  | notAnExpression token => "Expected an expression, got " ++ token.kind.describe
  | notAPattern token => token.kind.describe ++ " cannot be used as a pattern"
  | lexical error _ => error.message

def span? : SyntaxError → Option Span
  | unexpected _ token | notAnExpression token | notAPattern token => some token.span
  | lexical _ span => some span
  | endOfInput _ | integerOutOfRange _ | malformedFloat => none

/-- The error for a token, or the end of input, in place of what was expected. An illegal token is
reported as such. -/
def mismatch (expected : Expected) : Option Token → SyntaxError
  | none => endOfInput expected
  | some ⟨.illegal error, span⟩ => lexical error span
  | some token => unexpected expected token

end SyntaxError

end ByNeed
