import ByNeed.Program.Text

set_option autoImplicit false

-- A string is written between double quotes as it is, so it must not hold one. In a block each line of the
-- text is indented, so a string there must not go over a line. A float must be written without an exponent. A
-- point after a number would be part of the number, so a number has no fields.
namespace ByNeed

def Decimal.readsBack (x : Float) : Bool :=
  (float? (floatText x)).any fun y => x == y

def Decimal.readsBackSigned (x : Float) : Bool :=
  readsBack x ||
    match (floatText x).toList with
    | '-' :: text => (float? (String.ofList text)).any fun y => x == -y
    | _ => false

def isPlainString (nested : Bool) (text : String) : Bool :=
  !text.toList.contains Text.doubleQuote && !(nested && text.toList.contains '\n')

def Literal.isPlain (nested : Bool) : Literal → Bool
  | .string text => isPlainString nested text
  | .float value => Decimal.readsBack value
  | _ => true

def Expr.isNumber : Expr → Bool
  | .literal (.integer _) | .literal (.float _) => true
  | _ => false

mutual

def Expr.isPlain (nested : Bool) : Expr → Bool
  | .name _ => true
  | .literal value => value.isPlain nested
  | .list elements | .create _ elements => Expr.arePlain nested elements
  | .index collection position => collection.isPlain nested && position.isPlain nested
  | .member object _ => object.isPlain nested && !object.isNumber
  | .unary _ operand => operand.isPlain nested
  | .arithmetic _ left right | .logical _ left right | .comparison _ left right =>
    left.isPlain nested && right.isPlain nested

def Expr.arePlain (nested : Bool) : List Expr → Bool
  | [] => true
  | first :: rest => first.isPlain nested && Expr.arePlain nested rest

end

def Pattern.isPlain (nested : Bool) : Pattern → Bool
  | .literal (.float value) => Decimal.readsBackSigned value
  | .literal value => value.isPlain nested
  | _ => true

mutual

/-- What stands in the header of a statement is nested where the statement is, and what stands in its
blocks is nested always. -/
def Statement.isPlain (nested : Bool) : Statement → Bool
  | .assign _ value | .print value | .evaluate value => value.isPlain nested
  | .branch condition body none => condition.isPlain nested && Statement.blockIsPlain body
  | .branch condition body (some alternative) =>
    condition.isPlain nested && Statement.blockIsPlain body && Statement.blockIsPlain alternative
  | .iterate _ items body => items.isPlain nested && Statement.blockIsPlain body
  | .select scrutinee cases none =>
    scrutinee.isPlain nested && Statement.casesArePlain nested cases
  | .select scrutinee cases (some alternative) =>
    scrutinee.isPlain nested && Statement.casesArePlain nested cases &&
      Statement.blockIsPlain alternative
  | .define _ _ => true

def Statement.blockIsPlain : List Statement → Bool
  | [] => true
  | first :: rest => first.isPlain true && Statement.blockIsPlain rest

def Statement.casesArePlain (nested : Bool) : List (Pattern × List Statement) → Bool
  | [] => true
  | (pattern, body) :: rest =>
    pattern.isPlain nested && Statement.blockIsPlain body && Statement.casesArePlain nested rest

end

def Program.isPlain (program : Program) : Bool :=
  program.statements.all (Statement.isPlain false)

theorem isPlainString_iff {nested : Bool} {text : String} :
    isPlainString nested text = true ↔
      Text.doubleQuote ∉ text.toList ∧ (nested = true → '\n' ∉ text.toList) := by
  cases nested <;> simp [isPlainString]

theorem Expr.arePlain_iff {nested : Bool} {exprs : List Expr} :
    Expr.arePlain nested exprs = true ↔ ∀ expr ∈ exprs, expr.isPlain nested = true := by
  induction exprs with
  | nil => simp [Expr.arePlain]
  | cons first rest ih => simp [Expr.arePlain, ih]

theorem Statement.blockIsPlain_iff {block : Block} :
    Statement.blockIsPlain block = true ↔ ∀ statement ∈ block, statement.isPlain true = true := by
  induction block with
  | nil => simp [Statement.blockIsPlain]
  | cons first rest ih => simp [Statement.blockIsPlain, ih]

theorem Statement.casesArePlain_iff {nested : Bool} {cases : List (Pattern × Block)} :
    Statement.casesArePlain nested cases = true ↔
      ∀ case ∈ cases, case.1.isPlain nested = true ∧ Statement.blockIsPlain case.2 = true := by
  induction cases with
  | nil => simp [Statement.casesArePlain]
  | cons first rest ih => simp [Statement.casesArePlain, ih]

theorem Decimal.readsBack_iff {x : Float} :
    readsBack x = true ↔ ∃ y, float? (floatText x) = some y ∧ (x == y) = true := by
  simp [readsBack, Option.any_eq_true]

theorem Decimal.readsBackSigned_iff {x : Float} :
    readsBackSigned x = true ↔
      readsBack x = true ∨
        ∃ text y, floatText x = "-" ++ text ∧ float? text = some y ∧ (x == -y) = true := by
  have signed {text : String} : floatText x = "-" ++ text ↔ (floatText x).toList = '-' :: text.toList := by
    rw [← String.toList_inj, String.toList_append]
    rfl
  simp only [readsBackSigned, Bool.or_eq_true, signed]
  apply or_congr_right
  constructor
  · intro holds
    split at holds
    case h_1 text spelled =>
      obtain ⟨y, read, same⟩ := Option.any_eq_true _ _ |>.mp holds
      exact ⟨String.ofList text, y, by rw [spelled, String.toList_ofList], read, same⟩
    case h_2 => cases holds
  · rintro ⟨text, y, spelled, read, same⟩
    simp [spelled, String.ofList_toList, read, same]

namespace Decimal

theorem digitValue_digitChar {n : Nat} (small : n < 10) : digitValue n.digitChar = n := by
  simp [digitValue, Nat.toNat_digitChar_of_lt_ten small]

theorem ofDigits_append_digit (digits : List Char) (c : Char) :
    ofDigits (digits ++ [c]) = 10 * ofDigits digits + digitValue c := by
  simp [ofDigits]

theorem ofDigits_digitsOf (n : Nat) : ofDigits (digitsOf n) = n := by
  induction n using Nat.strongRecOn with
  | ind n ih =>
    by_cases small : n < 10
    · simp [digitsOf, Nat.toDigits_of_lt_base small, ofDigits, digitValue_digitChar small]
    · have shorter := ih (n / 10) (by omega)
      rw [digitsOf] at shorter ⊢
      rw [Nat.toDigits_of_base_le (by decide) (by omega), ofDigits_append_digit, shorter,
        digitValue_digitChar (Nat.mod_lt n (by decide))]
      omega

theorem toInt64?_eq_some {n : Int} {value : Int64} (fits : toInt64? n = some value) :
    value.toInt = n := by
  unfold toInt64? at fits
  split at fits
  case isTrue bounds =>
    cases fits
    exact Int64.toInt_ofInt_of_le bounds.1 (Int.lt_of_le_of_lt bounds.2 (by decide))
  case isFalse => cases fits

theorem toInt64?_toInt (value : Int64) : toInt64? value.toInt = some value := by
  rw [toInt64?, if_pos ⟨value.minValue_le_toInt, value.toInt_le⟩, Int64.ofInt_toInt]

end Decimal

end ByNeed
