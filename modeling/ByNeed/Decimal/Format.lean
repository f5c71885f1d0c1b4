import ByNeed.Decimal.Reading
import ByNeed.Decimal.Shortest

set_option autoImplicit false

-- A float is written positionally from 1e-4 up to 1e16, and else with an exponent.
namespace ByNeed.Decimal

def digitsOf (n : Nat) : List Char :=
  Nat.toDigits 10 n

def zeros (count : Nat) : List Char :=
  List.replicate count '0'

def integerText (n : Int64) : String :=
  let magnitude := String.ofList (digitsOf n.toInt.natAbs)
  if n < 0 then "-" ++ magnitude else magnitude

def Digits.leading (decimal : Digits) : Int :=
  (digitsOf decimal.digits).length + decimal.exponent - 1

def Digits.positional (decimal : Digits) : List Char :=
  let digits := digitsOf decimal.digits
  let point := digits.length + decimal.exponent
  if 0 ≤ decimal.exponent then
    digits ++ zeros decimal.exponent.toNat ++ ['.', '0']
  else if 0 < point then
    digits.take point.toNat ++ '.' :: digits.drop point.toNat
  else
    '0' :: '.' :: zeros (-point).toNat ++ digits

def Digits.scientific (decimal : Digits) : List Char :=
  let mantissa := match digitsOf decimal.digits with
    | [] => []
    | [lead] => [lead]
    | lead :: rest => lead :: '.' :: rest
  let exponent := digitsOf decimal.leading.natAbs
  mantissa ++ 'e' :: (if decimal.leading < 0 then '-' :: exponent else exponent)

def Digits.text (decimal : Digits) : List Char :=
  if -4 ≤ decimal.leading ∧ decimal.leading < 16 then decimal.positional else decimal.scientific

def floatText (x : Float) : String :=
  let bits := x.toBits.toNat
  let magnitude := bits % Nat.pow 2 63
  let sign := if Nat.pow 2 63 ≤ bits then "-" else ""
  let infinite := 0x7ff * Nat.pow 2 52
  if infinite < magnitude then "NaN"
  else if magnitude = infinite then sign ++ "inf"
  else if magnitude = 0 then sign ++ "0.0"
  else sign ++ String.ofList (Binary.ofBits magnitude).shortest.text

end ByNeed.Decimal
