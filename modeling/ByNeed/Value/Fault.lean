import ByNeed.Decimal.Format

set_option autoImplicit false

namespace ByNeed

inductive Fault where
  | undefinedVariable (id : String)
  | typeMismatch (operation expected found : String)
  | divisionByZero
  | moduloByZero
  | indexOutOfBounds (index : Int64) (length : Nat)
  | unknownMember (type field : String)
  | unknownRecordType (type : String)
  | arityMismatch (type : String) (expected actual : Nat)
  | duplicateRecordType (type : String)
  | noPatternMatched (text : String)
  | integerOverflow
  | notAVariable (text : String)
  | dependsOnItself
deriving Repr, DecidableEq

def naturalText (n : Nat) : String :=
  String.ofList (Decimal.digitsOf n)

def Fault.message : Fault → String
  | undefinedVariable id => "Undefined variable `" ++ id ++ "`"
  | typeMismatch operation expected found =>
    "Type mismatch for `" ++ operation ++ "`: expected " ++ expected ++ ", found " ++ found
  | divisionByZero => "Division by zero"
  | moduloByZero => "Modulo by zero"
  | indexOutOfBounds index length =>
    "Index " ++ Decimal.integerText index ++ " out of bounds for a list of length " ++
      naturalText length ++ " (indices start at 1)"
  | unknownMember type field => "Unknown attribute `" ++ field ++ "` on " ++ type
  | unknownRecordType type => "Unknown record type `" ++ type ++ "`"
  | arityMismatch type expected actual =>
    type ++ " expects " ++ naturalText expected ++ " arguments, got " ++ naturalText actual
  | duplicateRecordType type => "Record type `" ++ type ++ "` is already defined"
  | noPatternMatched text => "No pattern matched value " ++ text
  | integerOverflow => "Integer overflow"
  | notAVariable text => "`" ++ text ++ "` is not a variable"
  | dependsOnItself => "Value depends on itself"

end ByNeed
