import ByNeed.Value.Operator
import Mathlib

set_option autoImplicit false

-- The remainder is formed on words: it is what division towards zero leaves, plus the divisor if the signs
-- are opposite.
namespace ByNeed

-- The integers that a word of 64 bits can hold.
def FitsWord (n : Int) : Prop :=
  -2 ^ 63 ≤ n ∧ n < 2 ^ 63

-- The outcome is the integer if a word can hold it, and else the fault for those that none can hold.
def ExactOutcome (outcome : Outcome) (n : Int) : Prop :=
  (FitsWord n → ∃ word : Int64, outcome = .ok (.integer word) ∧ word.toInt = n) ∧
    (¬ FitsWord n → outcome = .error .integerOverflow)

structure FlooredRemainder (left right remainder : Int) : Prop where
  exact : left = right * ⌊(left : ℚ) / right⌋ + remainder
  smaller : |remainder| < |right|
  signed : remainder = 0 ∨ remainder.sign = right.sign

-- One of the words is negative and the other one positive.
def Opposed (left right : Int64) : Prop :=
  (left < 0 ∧ 0 < right) ∨ (0 < left ∧ right < 0)

theorem checked_exact (n : Int) : ExactOutcome (checked n) n := by
  have range : Int64.minValue.toInt ≤ n ∧ n ≤ Int64.maxValue.toInt ↔ FitsWord n := by
    rw [Int64.toInt_minValue, Int64.toInt_maxValue, FitsWord]
    omega
  unfold ExactOutcome checked Decimal.toInt64?
  constructor
  · intro fits
    rw [if_pos (range.mpr fits)]
    exact ⟨_, rfl, Int64.toInt_ofInt_of_le fits.1 fits.2⟩
  · intro outside
    rw [if_neg fun fits => outside (range.mp fits)]

section Remainder

-- The quotient of a remainder that is between zero and the divisor.
theorem floor_of_remainder {left right quotient remainder : Int} (split : left = right * quotient + remainder)
    (between : 0 ≤ remainder ∧ remainder < right ∨ right < remainder ∧ remainder ≤ 0) :
    ⌊(left : ℚ) / right⌋ = quotient := by
  have nonzero : (right : ℚ) ≠ 0 := by
    norm_cast
    omega
  have parts : (left : ℚ) / right = quotient + remainder / right := by
    rw [split]
    push_cast
    field_simp
  rw [parts, Int.floor_intCast_add, Int.floor_eq_zero_iff.mpr, add_zero]
  rcases between with ⟨nonneg, less⟩ | ⟨less, nonpos⟩
  · have positive : (0 : ℚ) < right := by exact_mod_cast lt_of_le_of_lt nonneg less
    exact ⟨by positivity, (div_lt_one positive).mpr (by exact_mod_cast less)⟩
  · have negative : (right : ℚ) < 0 := by exact_mod_cast lt_of_lt_of_le less nonpos
    exact ⟨div_nonneg_of_nonpos (by exact_mod_cast nonpos) negative.le,
      (div_lt_one_of_neg negative).mpr (by exact_mod_cast less)⟩

theorem flooredRemainder_of_split {left right quotient remainder : Int}
    (split : left = right * quotient + remainder)
    (between : 0 ≤ remainder ∧ remainder < right ∨ right < remainder ∧ remainder ≤ 0) :
    FlooredRemainder left right remainder where
  exact := by rw [floor_of_remainder split between, ← split]
  smaller := by
    rcases between with ⟨nonneg, less⟩ | ⟨less, nonpos⟩
    · rwa [abs_of_nonneg nonneg, abs_of_pos (by omega)]
    · rw [abs_of_nonpos nonpos, abs_of_neg (by omega)]
      omega
  signed := by
    rcases between with ⟨nonneg, less⟩ | ⟨less, nonpos⟩
    · by_cases zero : remainder = 0
      · exact .inl zero
      · rw [Int.sign_eq_one_of_pos (by omega), Int.sign_eq_one_of_pos (by omega)]
        exact .inr rfl
    · by_cases zero : remainder = 0
      · exact .inl zero
      · rw [Int.sign_eq_neg_one_of_neg (by omega), Int.sign_eq_neg_one_of_neg (by omega)]
        exact .inr rfl

variable {left right : Int64}

-- Words of opposite sign have a sum that is nearer to zero than one of them.
theorem toInt_add_of_opposed (opposed : Opposed left right) :
    (left + right).toInt = left.toInt + right.toInt := by
  simp only [Opposed, Int64.lt_iff_toInt_lt, Int64.toInt_zero] at opposed
  have := left.le_toInt
  have := right.le_toInt
  have := left.toInt_lt
  have := right.toInt_lt
  rw [Int64.toInt_add, Int.bmod_eq_of_le] <;> omega

theorem abs_tmod_lt (left : Int) {right : Int} (nonzero : right ≠ 0) :
    (left.tmod right).natAbs < right.natAbs := by
  rw [Int.natAbs_tmod]
  exact Nat.mod_lt _ (by omega)

-- Where the divisor is added, the quotient is one less than that of division towards zero.
theorem flooredRemainder_split (nonzero : right ≠ 0) :
    ∃ quotient, left.toInt = right.toInt * quotient + (flooredRemainder left right).toInt ∧
      (0 ≤ (flooredRemainder left right).toInt ∧ (flooredRemainder left right).toInt < right.toInt ∨
        right.toInt < (flooredRemainder left right).toInt ∧ (flooredRemainder left right).toInt ≤ 0) := by
  have nonzero : right.toInt ≠ 0 := fun zero => nonzero (Int64.toInt_inj.mp zero)
  have whole := Int.mul_tdiv_add_tmod left.toInt right.toInt
  have small := abs_tmod_lt left.toInt nonzero
  by_cases opposed : Opposed (left % right) right
  · have corrected : flooredRemainder left right = left % right + right := if_pos opposed
    have exact := toInt_add_of_opposed opposed
    simp only [Opposed, Int64.lt_iff_toInt_lt, Int64.toInt_zero, Int64.toInt_mod] at opposed exact
    rw [corrected, exact]
    refine ⟨left.toInt.tdiv right.toInt - 1, ?_, by omega⟩
    rw [mul_sub, mul_one]
    omega
  · have kept : flooredRemainder left right = left % right := if_neg opposed
    simp only [Opposed, Int64.lt_iff_toInt_lt, Int64.toInt_zero, Int64.toInt_mod] at opposed
    rw [kept, Int64.toInt_mod]
    exact ⟨left.toInt.tdiv right.toInt, whole.symm, by omega⟩

end Remainder

section Modulo

variable {left right : Int64}

-- The least word divided by minus one, which is the only quotient that no word can hold.
def Overflows (left right : Int64) : Prop :=
  left.toInt = -2 ^ 63 ∧ right.toInt = -1

theorem overflows_iff : Overflows left right ↔ left = Int64.minValue ∧ right = -1 := by
  have least : (-2 ^ 63 : Int) = Int64.minValue.toInt := Int64.toInt_minValue.symm
  have minusOne : (-1 : Int) = (-1 : Int64).toInt := rfl
  rw [Overflows, least, minusOne, Int64.toInt_inj, Int64.toInt_inj]

theorem modulo_of_zero : ArithmeticOp.modulo.apply (.integer left) (.integer 0) = .error .moduloByZero :=
  rfl

theorem modulo_of_overflows (overflows : Overflows left right) :
    ArithmeticOp.modulo.apply (.integer left) (.integer right) = .error .integerOverflow := by
  obtain ⟨rfl, rfl⟩ := overflows_iff.mp overflows
  rfl

theorem modulo_of_fits (nonzero : right ≠ 0) (fits : ¬ Overflows left right) :
    ArithmeticOp.modulo.apply (.integer left) (.integer right) =
      .ok (.integer (flooredRemainder left right)) := by
  rw [overflows_iff] at fits
  simp only [ArithmeticOp.apply, ArithmeticOp.remainder, if_neg nonzero, if_neg fits]

theorem modulo_byZero_iff :
    ArithmeticOp.modulo.apply (.integer left) (.integer right) = .error .moduloByZero ↔ right = 0 := by
  constructor
  · intro byZero
    by_contra nonzero
    by_cases overflows : Overflows left right
    · cases (modulo_of_overflows overflows).symm.trans byZero
    · cases (modulo_of_fits nonzero overflows).symm.trans byZero
  · rintro rfl
    exact modulo_of_zero

theorem modulo_overflow_iff :
    ArithmeticOp.modulo.apply (.integer left) (.integer right) = .error .integerOverflow ↔
      Overflows left right := by
  constructor
  · intro overflow
    by_contra fits
    by_cases zero : right = 0
    · subst zero
      cases modulo_of_zero.symm.trans overflow
    · cases (modulo_of_fits zero fits).symm.trans overflow
  · exact modulo_of_overflows

theorem modulo_floored (nonzero : right ≠ 0) (fits : ¬ Overflows left right) :
    ∃ word : Int64, ArithmeticOp.modulo.apply (.integer left) (.integer right) = .ok (.integer word) ∧
      FlooredRemainder left.toInt right.toInt word.toInt := by
  obtain ⟨quotient, split, between⟩ := flooredRemainder_split nonzero
  exact ⟨_, modulo_of_fits nonzero fits, flooredRemainder_of_split split between⟩

end Modulo

/-- On integers, sums, differences, products, negations and steps are exact, or a word cannot hold them
and they overflow. A remainder fails for a zero divisor, overflows for the least integer and minus one, and
else is that of a division that rounds down. Where it is corrected, no bit of the sum is lost. -/
theorem integer_arithmetic_exact (left right : Int64) :
    ExactOutcome (ArithmeticOp.add.apply (.integer left) (.integer right)) (left.toInt + right.toInt) ∧
      ExactOutcome (ArithmeticOp.subtract.apply (.integer left) (.integer right)) (left.toInt - right.toInt) ∧
      ExactOutcome (ArithmeticOp.multiply.apply (.integer left) (.integer right)) (left.toInt * right.toInt) ∧
      ExactOutcome (UnaryOp.minus.apply (.integer left)) (-left.toInt) ∧
      ExactOutcome (UnaryOp.increment.apply (.integer left)) (left.toInt + 1) ∧
      ExactOutcome (UnaryOp.decrement.apply (.integer left)) (left.toInt - 1) ∧
      (ArithmeticOp.modulo.apply (.integer left) (.integer right) = .error .moduloByZero ↔ right.toInt = 0) ∧
      (ArithmeticOp.modulo.apply (.integer left) (.integer right) = .error .integerOverflow ↔
        left.toInt = -2 ^ 63 ∧ right.toInt = -1) ∧
      (right.toInt ≠ 0 → ¬ (left.toInt = -2 ^ 63 ∧ right.toInt = -1) →
        ∃ word : Int64, ArithmeticOp.modulo.apply (.integer left) (.integer right) = .ok (.integer word) ∧
          FlooredRemainder left.toInt right.toInt word.toInt) ∧
      (Opposed (left % right) right → (left % right + right).toInt = (left % right).toInt + right.toInt) := by
  have zero : right.toInt = 0 ↔ right = 0 := Int64.toInt_inj (y := 0)
  refine ⟨checked_exact _, checked_exact _, checked_exact _, checked_exact _, checked_exact _, checked_exact _,
    modulo_byZero_iff.trans zero.symm, modulo_overflow_iff, ?_, toInt_add_of_opposed⟩
  rw [Ne, zero]
  exact modulo_floored

-- The remainder towards zero is minus two, and one after the correction.
theorem integer_arithmetic_exact_least :
    (∃ word : Int64, ArithmeticOp.modulo.apply (.integer Int64.minValue) (.integer 3) = .ok (.integer word) ∧
      FlooredRemainder (-2 ^ 63) 3 word.toInt) ∧
    Opposed (Int64.minValue % 3) 3 ∧ (Int64.minValue % 3 + 3).toInt = (Int64.minValue % 3).toInt + 3 := by
  obtain ⟨_, _, _, _, _, _, _, _, floored, corrected⟩ := integer_arithmetic_exact Int64.minValue 3
  have opposed : Opposed (Int64.minValue % 3) 3 := .inl (by decide)
  exact ⟨floored (by decide) (by decide), opposed, corrected opposed⟩

end ByNeed
