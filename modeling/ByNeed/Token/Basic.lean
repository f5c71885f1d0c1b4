import ByNeed.Token.Keyword
import ByNeed.Text.Visible

set_option autoImplicit false

namespace ByNeed

inductive Symbol where
  | assign
  | plus
  | increment
  | minus
  | decrement
  | times
  | divide
  | modulo
  | equal
  | notEqual
  | greater
  | less
  | comma
  | dot
  | openParen
  | closeParen
  | openBracket
  | closeBracket
deriving Repr, DecidableEq

def Symbol.spelling : Symbol → String
  | assign => "="
  | plus => "+"
  | increment => "++"
  | minus => "-"
  | decrement => "--"
  | times => "*"
  | divide => "/"
  | modulo => "%"
  | equal => "=="
  | notEqual => "!="
  | greater => ">"
  | less => "<"
  | comma => ","
  | dot => "."
  | openParen => "("
  | closeParen => ")"
  | openBracket => "["
  | closeBracket => "]"

inductive LexError where
  | unknownCharacter (c : Char)
  | malformedNumber (text : String)
  | unterminatedString
deriving Repr, DecidableEq

def LexError.message : LexError → String
  | unknownCharacter c => "Unknown character " ++ Text.quotedChar c
  | malformedNumber text => "Malformed number literal `" ++ text ++ "`"
  | unterminatedString => "Unterminated string literal"

inductive Token.Kind where
  | illegal (error : LexError)
  | name (text : String)
  | integer (digits : String)
  | decimal (text : String)
  | string (text : String)
  | boolean (value : Bool)
  | keyword (word : Keyword)
  | symbol (mark : Symbol)
  | lineBreak
deriving Repr, DecidableEq

def Token.Kind.describe : Token.Kind → String
  | illegal error => error.message
  | name text => "identifier `" ++ text ++ "`"
  | integer text | decimal text => "number `" ++ text ++ "`"
  | string text => "string \"" ++ text ++ "\""
  | boolean value => "`" ++ booleanSpelling value ++ "`"
  | keyword word => "`" ++ word.spelling ++ "`"
  | symbol mark => "`" ++ mark.spelling ++ "`"
  | lineBreak => "line break"

structure Span where
  start : Nat
  stop : Nat
deriving Repr, DecidableEq

structure Token where
  kind : Token.Kind
  span : Span
deriving Repr, DecidableEq

end ByNeed
