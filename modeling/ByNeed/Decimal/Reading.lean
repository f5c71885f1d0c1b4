set_option autoImplicit false

namespace ByNeed.Decimal

def digitValue (c : Char) : Nat :=
  c.toNat - '0'.toNat

def ofDigits (digits : List Char) : Nat :=
  digits.foldl (fun value c => 10 * value + digitValue c) 0

def toInt64? (n : Int) : Option Int64 :=
  if Int64.minValue.toInt ≤ n ∧ n ≤ Int64.maxValue.toInt then some (Int64.ofInt n) else none

def integer? (digits : String) : Option Int64 :=
  toInt64? (ofDigits digits.toList)

def negativeInteger? (digits : String) : Option Int64 :=
  toInt64? (-(ofDigits digits.toList : Int))

def nearestFloat (digits : Nat) (exponent : Int) : Float :=
  Float.ofScientific digits (exponent < 0) exponent.natAbs

def float? (text : String) : Option Float :=
  let whole := text.toList.takeWhile Char.isDigit
  match text.toList.dropWhile Char.isDigit with
  | '.' :: fraction =>
    if fraction.all Char.isDigit && !(whole.isEmpty && fraction.isEmpty) then
      some (nearestFloat (ofDigits (whole ++ fraction)) (-(fraction.length : Int)))
    else none
  | _ => none

end ByNeed.Decimal
