set_option autoImplicit false

-- The reals that round to a float form an interval around it. For each number of digits the two neighbours of
-- the value on that decimal grid are tried; the first grid with a hit decides, and of two hits the nearer
-- one, or the upper one if both are equally near.
namespace ByNeed.Decimal

structure Binary where
  mantissa : Nat
  exponent : Int
  -- The gap to the float below is half the gap to the float above.
  narrowBelow : Bool
deriving Repr, DecidableEq

structure Digits where
  digits : Nat
  exponent : Int
deriving Repr, DecidableEq

def Binary.ofBits (bits : Nat) : Binary :=
  let field : Nat := bits / Nat.pow 2 52 % Nat.pow 2 11
  let fraction := bits % Nat.pow 2 52
  if field = 0 then
    { mantissa := fraction, exponent := -1074, narrowBelow := false }
  else
    { mantissa := fraction + Nat.pow 2 52
      exponent := field - 1075
      narrowBelow := fraction = 0 && field ≠ 1 }

structure Scale where
  numerator : Nat
  denominator : Nat

def Scale.of (twos tens : Int) : Scale :=
  { numerator := Nat.pow 2 twos.toNat * Nat.pow 10 tens.toNat
    denominator := Nat.pow 2 (-twos).toNat * Nat.pow 10 (-tens).toNat }

def Binary.reaches (value : Binary) (tens : Int) : Bool :=
  let scale := Scale.of value.exponent (-tens)
  scale.denominator ≤ value.mantissa * scale.numerator

/-- The number of places before the point: `10 ^ (places - 1) ≤ value < 10 ^ places`. It is
estimated from the binary logarithm, and the estimate is off by one at most. -/
def Binary.places (value : Binary) : Int :=
  let estimate := (value.mantissa.log2 + value.exponent) * 30103 / 100000
  if value.reaches (estimate + 1) then estimate + 2
  else if value.reaches estimate then estimate + 1
  else estimate

def Binary.onGrid? (value : Binary) (step : Int) : Option Digits :=
  let scale := Scale.of (value.exponent - 2) (-step)
  let centre := 4 * value.mantissa * scale.numerator
  let low := (4 * value.mantissa - if value.narrowBelow then 1 else 2) * scale.numerator
  let high := (4 * value.mantissa + 2) * scale.numerator
  let unit := scale.denominator
  let within (candidate : Nat) : Bool :=
    if value.mantissa % 2 = 0 then low ≤ candidate * unit && candidate * unit ≤ high
    else low < candidate * unit && candidate * unit < high
  let below := centre / unit
  let above := below + 1
  match within below, within above with
  | true, true =>
    if centre - below * unit < above * unit - centre then some ⟨below, step⟩
    else some ⟨above, step⟩
  | true, false => some ⟨below, step⟩
  | false, true => some ⟨above, step⟩
  | false, false => none

def Digits.trim : Nat → Digits → Digits
  | 0, decimal => decimal
  | fuel + 1, decimal =>
    if decimal.digits ≠ 0 && decimal.digits % 10 = 0 then
      trim fuel ⟨decimal.digits / 10, decimal.exponent + 1⟩
    else decimal

/-- Seventeen digits always suffice, so the fallback to all of them is never taken. -/
def Binary.shortest (value : Binary) : Digits :=
  let places := value.places
  let found := (List.range 17).findSome? fun (count : Nat) => value.onGrid? (places - (count + 1))
  (found.getD ⟨value.mantissa, 0⟩).trim 20

end ByNeed.Decimal
