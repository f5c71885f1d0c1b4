import ByNeed.Program.Text
import ByNeed.Value.Basic

set_option autoImplicit false

namespace ByNeed

def mismatch (operation expected : String) (found : Value) : Fault :=
  .typeMismatch operation expected found.typeName

def checked (n : Int) : Outcome :=
  match Decimal.toInt64? n with
  | some value => .ok (.integer value)
  | none => .error .integerOverflow

namespace UnaryOp

def operation : UnaryOp → String
  | .negation => Keyword.negation.spelling
  | op => op.text

def step (op : UnaryOp) (delta : Int) : Value → Outcome
  | .integer value => checked (value.toInt + delta)
  | .float value => .ok (.float (value + Float.ofInt delta))
  | other => .error (mismatch op.operation "number" other)

def apply (op : UnaryOp) (operand : Value) : Outcome :=
  match op, operand with
  | .negation, .boolean value => .ok (.boolean (!value))
  | .negation, other => .error (mismatch op.operation "boolean" other)
  | .plus, .integer value => .ok (.integer value)
  | .plus, .float value => .ok (.float value)
  | .minus, .integer value => checked (-value.toInt)
  | .minus, .float value => .ok (.float (-value))
  | .increment, value => op.step 1 value
  | .decrement, value => op.step (-1) value
  | _, other => .error (mismatch op.operation "number" other)

end UnaryOp

def asFloat (operation : String) : Value → Except Fault Float
  | .integer value => .ok (nearest value)
  | .float value => .ok value
  | other => .error (mismatch operation "number" other)

-- The remainder that is zero or has the sign of the divisor.
def flooredRemainder (left right : Int64) : Int64 :=
  let remainder := left % right
  if (remainder < 0 ∧ 0 < right) ∨ (0 < remainder ∧ right < 0) then remainder + right
  else remainder

namespace ArithmeticOp

def mixed (op : ArithmeticOp) (exact : Int → Int → Int) (rounded : Float → Float → Float)
    (left right : Value) : Outcome :=
  match left, right with
  | .integer left, .integer right => checked (exact left.toInt right.toInt)
  | _, _ => do
    let left ← asFloat op.text left
    let right ← asFloat op.text right
    return .float (rounded left right)

def quotient (left right : Value) : Outcome := do
  let left ← asFloat divide.text left
  let right ← asFloat divide.text right
  if right == 0.0 then throw .divisionByZero
  return .float (left / right)

def remainder (left right : Value) : Outcome :=
  match left, right with
  | .integer left, .integer right =>
    if right = 0 then .error .moduloByZero
    else if left = Int64.minValue ∧ right = -1 then .error .integerOverflow
    else .ok (.integer (flooredRemainder left right))
  | .integer _, other => .error (mismatch modulo.text "integer" other)
  | other, _ => .error (mismatch modulo.text "integer" other)

def apply (op : ArithmeticOp) (left right : Value) : Outcome :=
  match op with
  | .add => op.mixed (· + ·) (· + ·) left right
  | .subtract => op.mixed (· - ·) (· - ·) left right
  | .multiply => op.mixed (· * ·) (· * ·) left right
  | .divide => quotient left right
  | .modulo => remainder left right

end ArithmeticOp

namespace LogicalOp

def onBooleans : LogicalOp → Bool → Bool → Bool
  | .conjunction, left, right => left && right
  | .disjunction, left, right => left || right

def apply (op : LogicalOp) (left right : Value) : Outcome :=
  match left, right with
  | .boolean left, .boolean right => .ok (.boolean (op.onBooleans left right))
  | .boolean _, other => .error (mismatch op.text "boolean" other)
  | other, _ => .error (mismatch op.text "boolean" other)

-- The left operand that settles the result, whatever the right one is.
def deciding : LogicalOp → Bool
  | .conjunction => false
  | .disjunction => true

end LogicalOp

/-- Two numbers of the same kind as given to an order. A comparison with NaN does not hold. -/
def ordered (operation : String) (onIntegers : Int64 → Int64 → Bool)
    (onFloats : Float → Float → Bool) (left right : Value) : Outcome :=
  match left, right with
  | .integer left, .integer right => .ok (.boolean (onIntegers left right))
  | .float left, .float right => .ok (.boolean (onFloats left right))
  | _, _ =>
    if left.typeName ≠ right.typeName then .error (mismatch operation left.typeName right)
    else .error (mismatch operation "number" left)

def less (left right : Value) : Outcome :=
  ordered ComparisonOp.less.text (· < ·) (· < ·) left right

def greater (left right : Value) : Outcome :=
  ordered ComparisonOp.greater.text (· > ·) (· > ·) left right

end ByNeed
