import ByNeed.Token.Basic

set_option autoImplicit false

namespace ByNeed.Text

-- The code points with the White_Space property.
def isBlank (c : Char) : Bool :=
  let code := c.toNat
  (9 ≤ code && code ≤ 13) || code == 0x20 || code == 0x85 || code == 0xa0 || code == 0x1680 ||
    (0x2000 ≤ code && code ≤ 0x200a) || code == 0x2028 || code == 0x2029 || code == 0x202f ||
    code == 0x205f || code == 0x3000

end ByNeed.Text

-- Where no token is in progress the scan classifies what starts there, and the number of further characters
-- that belong to it is skipped. Every character therefore lies in exactly one token, blank or comment.
namespace ByNeed.Token

def byteSize (text : List Char) : Nat :=
  text.foldr (fun c size => c.utf8Size + size) 0

def startsWord (c : Char) : Bool :=
  c.isAlpha || c = '_'

def continuesWord (c : Char) : Bool :=
  startsWord c || c.isDigit

def continuesNumber (c : Char) : Bool :=
  c.isDigit || c = '.'

def isGap (c : Char) : Bool :=
  Text.isBlank c && c ≠ '\n'

def isQuote (c : Char) : Bool :=
  c = Text.singleQuote || c = Text.doubleQuote

def Kind.ofWord (word : String) : Kind :=
  match Keyword.ofSpelling? word with
  | some reserved => .keyword reserved
  | none =>
    match booleanOfSpelling? word with
    | some value => .boolean value
    | none => .name word

def Kind.ofNumber (text : List Char) : Kind :=
  match text.count '.' with
  | 0 => .integer (String.ofList text)
  | 1 => .decimal (String.ofList text)
  | _ => .illegal (.malformedNumber (String.ofList text))

def Kind.ofSymbol? : Char → Option Kind
  | '\n' => some .lineBreak
  | '=' => some (.symbol .assign)
  | '+' => some (.symbol .plus)
  | '-' => some (.symbol .minus)
  | '*' => some (.symbol .times)
  | '/' => some (.symbol .divide)
  | '%' => some (.symbol .modulo)
  | '<' => some (.symbol .less)
  | '>' => some (.symbol .greater)
  | ',' => some (.symbol .comma)
  | '.' => some (.symbol .dot)
  | '(' => some (.symbol .openParen)
  | ')' => some (.symbol .closeParen)
  | '[' => some (.symbol .openBracket)
  | ']' => some (.symbol .closeBracket)
  | _ => none

def Kind.ofSymbolPair? : Char → Char → Option Kind
  | '=', '=' => some (.symbol .equal)
  | '!', '=' => some (.symbol .notEqual)
  | '+', '+' => some (.symbol .increment)
  | '-', '-' => some (.symbol .decrement)
  | _, _ => none

structure Lexeme where
  kind : Kind
  extra : Nat
deriving Repr, DecidableEq

def Lexeme.word (first : Char) (following : List Char) : Lexeme :=
  let more := following.takeWhile continuesWord
  ⟨.ofWord (String.ofList (first :: more)), more.length⟩

def Lexeme.number (first : Char) (following : List Char) : Lexeme :=
  let more := following.takeWhile continuesNumber
  ⟨.ofNumber (first :: more), more.length⟩

def Lexeme.string (quote : Char) (following : List Char) : Lexeme :=
  let text := following.takeWhile (· ≠ quote)
  if text.length < following.length then ⟨.string (String.ofList text), text.length + 1⟩
  else ⟨.illegal .unterminatedString, text.length⟩

def Lexeme.symbol (first : Char) (following : List Char) : Lexeme :=
  match following.head?.bind (Kind.ofSymbolPair? first) with
  | some kind => ⟨kind, 1⟩
  | none => ⟨(Kind.ofSymbol? first).getD (.illegal (.unknownCharacter first)), 0⟩

def Lexeme.of (first : Char) (following : List Char) : Lexeme :=
  if isQuote first then .string first following
  else if startsWord first then .word first following
  else if first.isDigit || (first = '.' && following.head?.any Char.isDigit) then
    .number first following
  else .symbol first following

def commentExtra? (first : Char) (following : List Char) : Option Nat :=
  if first = '^' && following.head? = some '^' then
    some (following.takeWhile (· ≠ '\n')).length
  else none

/-- Appends the tokens of the characters from `offset` on to the tokens found so far. The first
`skip` characters belong to a token or comment that is already accounted for. -/
def scanFrom : List Char → Nat → Nat → Array Token → Array Token
  | [], _, _, found => found
  | c :: rest, skip + 1, offset, found => scanFrom rest skip (offset + c.utf8Size) found
  | c :: rest, 0, offset, found =>
    let next := offset + c.utf8Size
    if isGap c then scanFrom rest 0 next found
    else
      match commentExtra? c rest with
      | some extra => scanFrom rest extra next found
      | none =>
        let lexeme := Lexeme.of c rest
        let stop := next + byteSize (rest.take lexeme.extra)
        scanFrom rest lexeme.extra next (found.push ⟨lexeme.kind, ⟨offset, stop⟩⟩)

def scan (source : String) : List Token :=
  (scanFrom source.toList 0 0 #[]).toList

end ByNeed.Token
