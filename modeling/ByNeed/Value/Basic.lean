import ByNeed.Program.Basic
import ByNeed.Value.Fault

set_option autoImplicit false

-- The elements of a list are cells of a heap; the fields of a record are values.
namespace ByNeed

abbrev Ref := Nat

inductive Value where
  | integer (value : Int64)
  | float (value : Float)
  | string (text : String)
  | boolean (value : Bool)
  | list (elements : List Ref)
  | record (type : String) (fields : List (String × Value))
deriving Repr

abbrev Outcome := Except Fault Value

namespace Value

def typeName : Value → String
  | integer _ => "integer"
  | float _ => "float"
  | string _ => "string"
  | boolean _ => "boolean"
  | list _ => "list"
  | record _ _ => "record"

def truthy : Value → Bool
  | integer value => value != 0
  | float value => value != 0.0
  | string text => !text.isEmpty
  | boolean value => value
  | list elements => !elements.isEmpty
  | record _ _ => true

def ofLiteral : Literal → Value
  | .integer value => integer value
  | .float value => float value
  | .string text => string text
  | .boolean value => boolean value

/-- Holds if a literal pattern describes the value. Integers and floats do not match each other. -/
def matchesLiteral : Value → Literal → Bool
  | integer value, .integer value' => value == value'
  | float value, .float value' => value == value'
  | string text, .string text' => text == text'
  | boolean value, .boolean value' => value == value'
  | _, _ => false

end Value

inductive Pair where
  | cells (left right : Ref)
  | values (left right : Value)
deriving Repr

def nearest (value : Int64) : Float :=
  Float.ofInt value.toInt

/-- The pairs of parts on which the equality of two values hangs, or `none` if they differ already.
An integer and a float are compared as numbers. -/
def Value.parts? : Value → Value → Option (List Pair)
  | integer left, integer right => if left = right then some [] else none
  | float left, float right => if left == right then some [] else none
  | integer left, float right => if nearest left == right then some [] else none
  | float left, integer right => if nearest right == left then some [] else none
  | string left, string right => if left = right then some [] else none
  | boolean left, boolean right => if left = right then some [] else none
  | list left, list right =>
    if left.length = right.length then some (List.zipWith .cells left right) else none
  | record type left, record type' right =>
    if type = type' ∧ left.map Prod.fst = right.map Prod.fst then
      some (List.zipWith (fun field field' => .values field.2 field'.2) left right)
    else none
  | _, _ => none

end ByNeed
