import ByNeed.Heap.Basic
import ByNeed.Program.Text

set_option autoImplicit false

-- A value is replaced by pieces for its parts, one level at a time, so that deep values need no deep
-- recursion.
namespace ByNeed

inductive Fragment where
  | text (text : String)
  | value (value : Value) (nested : Bool)
  | cell (ref : Ref)

structure Style where
  value : Value → Bool → List Fragment
  cell : Option Outcome → List Fragment

def separated (groups : List (List Fragment)) : List Fragment :=
  [Fragment.text ", "].intercalate groups

namespace Heap

variable {τ : Type}

def write (style : Style) (heap : Heap τ) : Nat → List Fragment → String → Option String
  | 0, _, _ => none
  | _ + 1, [], written => some written
  | fuel + 1, .text text :: rest, written => write style heap fuel rest (written ++ text)
  | fuel + 1, .value value nested :: rest, written =>
    write style heap fuel (style.value value nested ++ rest) written
  | fuel + 1, .cell ref :: rest, written =>
    write style heap fuel (style.cell (heap.settled? ref) ++ rest) written

end Heap

/-- The text that printing shows. A string inside another value is quoted, and a cell without a
value is only marked. -/
def Style.display : Style where
  value
    | .integer value, _ => [.text (Decimal.integerText value)]
    | .float value, _ => [.text (Decimal.floatText value)]
    | .string text, true => [.text "\"", .text text, .text "\""]
    | .string text, false => [.text text]
    | .boolean value, _ => [.text (booleanSpelling value)]
    | .list elements, _ =>
      .text "[" :: separated (elements.map fun ref => [.cell ref]) ++ [.text "]"]
    | .record type [], _ => [.text type, .text " \x7b\x7d"]
    | .record type fields, _ =>
      .text type :: .text " \x7b " ::
        separated (fields.map fun field => [.text field.1, .text ": ", .value field.2 true]) ++
        [.text " \x7d"]
  cell
    | some (.ok value) => [.value value true]
    | _ => [.text "<unforced>"]

def Fault.label : Fault → String
  | .undefinedVariable _ => "UndefinedVariable"
  | .typeMismatch .. => "TypeMismatch"
  | .divisionByZero => "DivisionByZero"
  | .moduloByZero => "ModuloByZero"
  | .indexOutOfBounds .. => "IndexOutOfBounds"
  | .unknownMember .. => "UnknownAttribute"
  | .unknownRecordType _ => "UnknownRecordType"
  | .arityMismatch .. => "ArityMismatch"
  | .duplicateRecordType _ => "DuplicateRecordDefinition"
  | .noPatternMatched _ => "NoPatternMatched"
  | .integerOverflow => "IntegerOverflow"
  | .notAVariable _ => "NotAVariable"
  | .dependsOnItself => "ReentrantForce"

def braced (parts : List (String × String)) : String :=
  " \x7b " ++ String.intercalate ", " (parts.map fun part => part.1 ++ ": " ++ part.2) ++ " \x7d"

def Fault.inspect (fault : Fault) : String :=
  fault.label ++ match fault with
    | .undefinedVariable text | .unknownRecordType text | .duplicateRecordType text
    | .noPatternMatched text | .notAVariable text => "(" ++ Text.quotedString text ++ ")"
    | .typeMismatch operation expected found =>
      braced [("operation", Text.quotedString operation), ("expected", Text.quotedString expected),
        ("found", Text.quotedString found)]
    | .indexOutOfBounds index length =>
      braced [("index", Decimal.integerText index), ("length", naturalText length)]
    | .unknownMember type field =>
      braced [("type_name", Text.quotedString type), ("field", Text.quotedString field)]
    | .arityMismatch type expected actual =>
      braced [("type_name", Text.quotedString type), ("expected", naturalText expected),
        ("actual", naturalText actual)]
    | .divisionByZero | .moduloByZero | .integerOverflow | .dependsOnItself => ""

def Style.inspect : Style where
  value
    | .integer value, _ => [.text "Integer(", .text (Decimal.integerText value), .text ")"]
    | .float value, _ => [.text "Float(", .text (Decimal.floatText value), .text ")"]
    | .string text, _ => [.text "String(", .text (Text.quotedString text), .text ")"]
    | .boolean value, _ => [.text (if value then "Boolean(true)" else "Boolean(false)")]
    | .list elements, _ =>
      .text "List([" :: separated (elements.map fun ref => [.cell ref]) ++ [.text "])"]
    | .record type fields, _ =>
      .text "Record(Record \x7b type_name: " :: .text (Text.quotedString type) ::
        .text ", fields: [" ::
        separated (fields.map fun field =>
          [.text "(", .text (Text.quotedString field.1), .text ", ", .value field.2 true,
            .text ")"]) ++
        [.text "] \x7d)"]
  cell
    | some (.ok value) => [.text "Thunk(", .value value true, .text ")"]
    | some (.error fault) => [.text "Thunk(", .text fault.inspect, .text ")"]
    | none => [.text "Thunk(<unforced>)"]

namespace Heap

variable {τ : Type}

def display (heap : Heap τ) (fuel : Nat) (value : Value) : Option String :=
  heap.write .display fuel [.value value false] ""

def inspect (heap : Heap τ) (fuel : Nat) (ref : Ref) : Option String :=
  heap.write .inspect fuel [.cell ref] ""

end Heap

end ByNeed
