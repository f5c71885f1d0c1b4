import ByNeed.Proofs.Grammar.Blocks
import ByNeed.Proofs.Rendering.Plain
import ByNeed.Proofs.Rendering.Scan
import ByNeed.Program.Same

set_option autoImplicit false

namespace ByNeed

open Token (Scans IsName continuesNumber continuesWord)

/-- A text that does not change when its lines are indented: it does not end with a carriage return,
and if it is nested in a block it is one line. -/
structure Inline (nested : Bool) (text : List Char) : Prop where
  ending : text.getLast? ≠ some '\r'
  unbroken : nested = true → '\n' ∉ text

namespace Inline

variable {nested : Bool} {text text' : List Char}

theorem of_visible (visible : ∀ c ∈ text, 33 ≤ c.toNat) : Inline nested text where
  ending last := absurd (visible _ (List.mem_of_getLast? last)) (by decide)
  unbroken _ broken := absurd (visible _ broken) (by decide)

theorem append (front : nested = true → '\n' ∉ text) (back : Inline nested text')
    (filled : text' ≠ []) : Inline nested (text ++ text') where
  ending := by
    rw [List.getLast?_append, Option.or_of_isSome (by simpa using filled)]
    exact back.ending
  unbroken inside := by
    rw [List.mem_append, not_or]
    exact ⟨front inside, back.unbroken inside⟩

theorem cons {c : Char} (visible : 33 ≤ c.toNat) (back : Inline nested text) (filled : text ≠ []) :
    Inline nested (c :: text) :=
  append (of_visible (List.forall_mem_singleton.mpr visible)).unbroken back filled

-- A text that ends with a visible character.
theorem close {c : Char} (front : nested = true → '\n' ∉ text) (visible : 33 ≤ c.toNat) :
    Inline nested (text ++ [c]) :=
  append front (of_visible (by simpa using visible)) (by simp)

theorem of_word {word : String} (spelled : Token.isWord word = true) :
    Inline nested word.toList := by
  obtain ⟨first, more, split, starts, continues⟩ := Token.isWord_iff.mp spelled
  apply of_visible
  intro c member
  have part : continuesWord c = true := by
    rw [split, List.mem_cons] at member
    rcases member with rfl | later
    · simp [continuesWord, starts]
    · exact List.all_eq_true.mp continues c later
  simp only [continuesWord, Bool.or_eq_true] at part
  rcases part with letter | digit
  · have := Token.startsWord_bounds letter
    omega
  · have := Token.isDigit_bounds digit
    omega

theorem of_number (number : text.all continuesNumber = true) : Inline nested text := by
  apply of_visible
  intro c member
  have := Token.continuesNumber_bounds (List.all_eq_true.mp number c member)
  omega

end Inline

namespace Decimal

theorem all_digitsOf (n : Nat) : (digitsOf n).all Char.isDigit = true := by
  rw [List.all_eq_true]
  intro c member
  exact Nat.isDigit_of_mem_toDigits (by decide) (by decide) member

theorem continuesNumber_of_digits {digits : List Char} (all : digits.all Char.isDigit = true) :
    digits.all continuesNumber = true := by
  rw [List.all_eq_true] at all ⊢
  intro c member
  simp [continuesNumber, all c member]

theorem count_point_of_digits {digits : List Char} (all : digits.all Char.isDigit = true) :
    digits.count '.' = 0 := by
  rw [List.count_eq_zero]
  intro point
  exact absurd (List.all_eq_true.mp all _ point) (by decide)

theorem scans_digitsOf (n : Nat) :
    Scans (digitsOf n) [.integer (String.ofList (digitsOf n))] fun next =>
      continuesNumber next = false := by
  have all := all_digitsOf n
  have kind : Token.Kind.ofNumber (digitsOf n) = .integer (String.ofList (digitsOf n)) := by
    simp [Token.Kind.ofNumber, count_point_of_digits all]
  cases spelled : digitsOf n with
  | nil => exact absurd spelled Nat.toDigits_ne_nil
  | cons first more =>
    rw [spelled] at all kind
    rw [← kind]
    rw [List.all_cons, Bool.and_eq_true] at all
    exact Token.scans_number (continuesNumber_of_digits all.2) (.inl all.1)

theorem integerText_of_nonneg {value : Int64} (nonneg : 0 ≤ value.toInt) :
    integerText value = String.ofList (digitsOf value.toInt.natAbs) := by
  have unsigned : ¬ value < 0 := by
    rw [Int64.lt_iff_toInt_lt]
    simpa using nonneg
  simp [integerText, unsigned]

theorem integerText_of_neg {value : Int64} (negative : value.toInt < 0) :
    integerText value = "-" ++ String.ofList (digitsOf value.toInt.natAbs) := by
  have signed : value < 0 := by
    rw [Int64.lt_iff_toInt_lt]
    simpa using negative
  simp [integerText, signed]

theorem integer?_digitsOf {value : Int64} (nonneg : 0 ≤ value.toInt) :
    integer? (String.ofList (digitsOf value.toInt.natAbs)) = some value := by
  have same : (value.toInt.natAbs : Int) = value.toInt := by omega
  rw [integer?, String.toList_ofList, ofDigits_digitsOf, same, toInt64?_toInt]

theorem negativeInteger?_digitsOf {value : Int64} (negative : value.toInt < 0) :
    negativeInteger? (String.ofList (digitsOf value.toInt.natAbs)) = some value := by
  have same : -(value.toInt.natAbs : Int) = value.toInt := by omega
  rw [negativeInteger?, String.toList_ofList, ofDigits_digitsOf, same, toInt64?_toInt]

theorem nonneg_of_integer? {digits : String} {value : Int64}
    (read : integer? digits = some value) : 0 ≤ value.toInt := by
  rw [toInt64?_eq_some read]
  omega

-- What is read as a float is digits with one point among them.
theorem float?_eq_some {text : String} {value : Float} (read : float? text = some value) :
    ∃ whole fraction, text.toList = whole ++ '.' :: fraction ∧ whole.all Char.isDigit = true ∧
      fraction.all Char.isDigit = true ∧ (whole = [] → fraction ≠ []) := by
  simp only [float?] at read
  split at read
  case h_1 fraction found =>
    split at read
    case isTrue digits =>
      simp only [Bool.and_eq_true, Bool.not_eq_true', Bool.and_eq_false_iff, List.isEmpty_eq_false_iff]
        at digits
      refine ⟨text.toList.takeWhile Char.isDigit, fraction, ?_, List.all_takeWhile, digits.1, ?_⟩
      · rw [← found, List.takeWhile_append_dropWhile]
      · intro whole
        exact digits.2.resolve_left (absurd whole)
    case isFalse => cases read
  case h_2 => cases read

theorem float?_ne_none {text : String} {whole fraction : List Char}
    (spelled : text.toList = whole ++ '.' :: fraction) (digits : whole.all Char.isDigit = true)
    (digits' : fraction.all Char.isDigit = true) (nonempty : whole = [] → fraction ≠ []) :
    float? text ≠ none := by
  have digit : ∀ c ∈ whole, c.isDigit = true := List.all_eq_true.mp digits
  have before : text.toList.takeWhile Char.isDigit = whole := by
    rw [spelled, List.takeWhile_append_of_pos digit]
    simp
  have after : text.toList.dropWhile Char.isDigit = '.' :: fraction := by
    rw [spelled, List.dropWhile_append_of_pos digit]
    simp
  have some : (!(whole.isEmpty && fraction.isEmpty)) = true := by
    cases whole with
    | nil => simpa using nonempty rfl
    | cons c rest => rfl
  simp only [float?, before, after, digits', some]
  simp

-- A number with one point among its digits splits there.
theorem split_at_point {text : List Char} (all : text.all continuesNumber = true)
    (single : text.count '.' = 1) :
    ∃ whole fraction, text = whole ++ '.' :: fraction ∧ whole.all Char.isDigit = true ∧
      fraction.all Char.isDigit = true := by
  have point : '.' ∈ text := List.count_pos_iff.mp (by omega)
  obtain ⟨whole, fraction, rfl⟩ := List.append_of_mem point
  rw [List.count_append, List.count_cons_self] at single
  rw [List.all_append, List.all_cons, Bool.and_eq_true, Bool.and_eq_true] at all
  have digits {part : List Char} (all : part.all continuesNumber = true) (none : part.count '.' = 0) :
      part.all Char.isDigit = true := by
    rw [List.all_eq_true] at all ⊢
    intro c member
    have other : c ≠ '.' := by
      rintro rfl
      exact List.count_eq_zero.mp none member
    simpa [continuesNumber, other] using all c member
  exact ⟨whole, fraction, rfl, digits all.1 (by omega), digits all.2.2 (by omega)⟩

theorem ne_nil_of_float? {text : String} {value : Float} (read : float? text = some value) :
    text.toList ≠ [] := by
  obtain ⟨whole, fraction, spelled, -⟩ := float?_eq_some read
  simp [spelled]

theorem all_continuesNumber_of_float? {text : String} {value : Float}
    (read : float? text = some value) : text.toList.all continuesNumber = true := by
  obtain ⟨whole, fraction, spelled, digits, digits', -⟩ := float?_eq_some read
  have point : continuesNumber '.' = true := by decide
  simp only [spelled, List.all_append, List.all_cons, continuesNumber_of_digits digits,
    continuesNumber_of_digits digits', point, Bool.and_self]

theorem scans_float {text : String} {value : Float} (read : float? text = some value) :
    Scans text.toList [.decimal text] fun next => continuesNumber next = false := by
  have all := all_continuesNumber_of_float? read
  obtain ⟨whole, fraction, spelled, digits, digits', filled⟩ := float?_eq_some read
  have onePoint : text.toList.count '.' = 1 := by
    simp [spelled, List.count_append, count_point_of_digits digits, count_point_of_digits digits']
  have kind : Token.Kind.ofNumber text.toList = .decimal text := by
    simp [Token.Kind.ofNumber, onePoint]
  rw [← kind]
  cases whole with
  | nil =>
    rw [spelled, List.nil_append, List.all_cons, Bool.and_eq_true] at all
    rw [spelled, List.nil_append]
    refine Token.scans_number all.2 (.inr ⟨rfl, ?_⟩)
    cases fraction with
    | nil => exact absurd rfl (filled rfl)
    | cons digit _ => simpa using (List.all_cons.symm.trans digits' |> Bool.and_eq_true_iff.mp).1
  | cons first more =>
    rw [spelled, List.cons_append, List.all_cons, Bool.and_eq_true] at all
    rw [spelled, List.cons_append]
    rw [List.all_cons, Bool.and_eq_true] at digits
    exact Token.scans_number all.2 (.inl digits.1)

end Decimal

theorem scans_boolean (value : Bool) :
    Scans (booleanSpelling value).toList [.boolean value] fun next => continuesWord next = false := by
  have read : Token.Kind.ofWord (booleanSpelling value) = .boolean value := by
    cases value <;> decide
  rw [← read]
  exact Token.scans_word (by cases value <;> decide)

theorem scans_minus {text : List Char} {kinds : List Token.Kind} {allowed : Char → Prop}
    (scans : Scans text kinds allowed) (number : text.all continuesNumber = true)
    (filled : text ≠ []) : Scans ('-' :: text) (.symbol .minus :: kinds) allowed := by
  obtain ⟨first, more, rfl⟩ := List.exists_cons_of_ne_nil filled
  have alone : Token.Kind.ofSymbolPair? '-' first = none := by
    rw [List.all_cons, Bool.and_eq_true] at number
    unfold Token.Kind.ofSymbolPair?
    split <;> first | rfl | exact absurd number.1 (by decide)
  exact (Scans.lone (by decide) rfl).append scans alone

theorem Inline.of_string {nested : Bool} {text : String} (plain : isPlainString nested text = true) :
    Inline nested ("\"" ++ text ++ "\"").toList := by
  rw [String.toList_append]
  apply Inline.close
  · intro inside
    have unbroken := (isPlainString_iff.mp plain).2 inside
    simpa [String.toList_append] using unbroken
  · decide

theorem Literal.beq_integer (value : Int64) : (Literal.integer value == .integer value) = true := by
  simp [BEq.beq, instBEqLiteral.beq]

theorem Literal.beq_string (text : String) : (Literal.string text == .string text) = true := by
  simp [BEq.beq, instBEqLiteral.beq]

theorem Literal.beq_boolean (value : Bool) : (Literal.boolean value == .boolean value) = true := by
  cases value <;> rfl

def Pattern.ReadsBack (nested : Bool) (pattern : Pattern) : Prop :=
  ∃ kinds pattern', Scans pattern.text.toList kinds (· = ' ') ∧ pattern'.Derives kinds ∧
    (pattern == pattern') = true ∧ Inline nested pattern.text.toList

namespace Pattern.ReadsBack

variable {nested : Bool}

theorem integer (value : Int64) : ReadsBack nested (.literal (.integer value)) := by
  have scans := (Decimal.scans_digitsOf value.toInt.natAbs).mono Token.continuesNumber_space
  have digits := Decimal.continuesNumber_of_digits (Decimal.all_digitsOf value.toInt.natAbs)
  by_cases negative : value.toInt < 0
  · have text : (Pattern.literal (.integer value)).text.toList =
        '-' :: Decimal.digitsOf value.toInt.natAbs := by
      simp [Pattern.text, Literal.text, Decimal.integerText_of_neg negative, String.toList_append]
    refine ⟨_, .literal (.integer value), ?_,
      .negativeInteger (Decimal.negativeInteger?_digitsOf negative), Literal.beq_integer value, ?_⟩
    · rw [text]
      exact scans_minus scans digits Nat.toDigits_ne_nil
    · rw [text]
      exact .cons (by decide) (.of_number digits) Nat.toDigits_ne_nil
  · have text : (Pattern.literal (.integer value)).text.toList =
        Decimal.digitsOf value.toInt.natAbs := by
      simp [Pattern.text, Literal.text, Decimal.integerText_of_nonneg (Int.not_lt.mp negative)]
    refine ⟨_, .literal (.integer value), ?_,
      .integer (Decimal.integer?_digitsOf (Int.not_lt.mp negative)), Literal.beq_integer value, ?_⟩
    · rw [text]
      exact scans
    · rw [text]
      exact .of_number digits

theorem float {value : Float} (plain : Decimal.readsBackSigned value = true) :
    ReadsBack nested (.literal (.float value)) := by
  rcases Decimal.readsBackSigned_iff.mp plain with unsigned | ⟨text, y, spelled, read, same⟩
  · obtain ⟨y, read, same⟩ := Decimal.readsBack_iff.mp unsigned
    have scans := (Decimal.scans_float read).mono Token.continuesNumber_space
    exact ⟨_, .literal (.float y), scans, .decimal read, same,
      .of_number (Decimal.all_continuesNumber_of_float? read)⟩
  · have scans := (Decimal.scans_float read).mono Token.continuesNumber_space
    have number := Decimal.all_continuesNumber_of_float? read
    have filled := Decimal.ne_nil_of_float? read
    have signed : (Pattern.literal (.float value)).text.toList = '-' :: text.toList := by
      simp [Pattern.text, Literal.text, spelled, String.toList_append]
    refine ⟨_, .literal (.float (-y)), ?_, .negativeDecimal read, same, ?_⟩
    · rw [signed]
      exact scans_minus scans number filled
    · rw [signed]
      exact .cons (by decide) (.of_number number) filled

end Pattern.ReadsBack

theorem Pattern.Derives.reads_back {nested : Bool} {kinds : List Token.Kind} {pattern : Pattern}
    (derives : pattern.Derives kinds) (named : ∀ kind ∈ kinds, kind.Named)
    (plain : pattern.isPlain nested = true) : pattern.ReadsBack nested := by
  have space := Token.continuesWord_space
  cases derives with
  | wildcard =>
    have scans := Token.scans_word (show Token.isWord "_" = true by decide)
    exact ⟨_, _, scans.mono space, .wildcard, rfl, .of_word (by decide)⟩
  | @binding id distinct =>
    have name : IsName id := named _ List.mem_cons_self
    exact ⟨_, _, name.scans.mono space, .binding distinct, by simp [BEq.beq, instBEqPattern.beq],
      .of_word name.1⟩
  | string text =>
    have unquoted := (isPlainString_iff.mp plain).1
    exact ⟨_, _, Token.scans_string unquoted, .string text, Literal.beq_string text,
      .of_string plain⟩
  | boolean value =>
    exact ⟨_, _, (scans_boolean value).mono space, .boolean value, Literal.beq_boolean value,
      .of_word (by cases value <;> decide)⟩
  | integer read | negativeInteger read => exact .integer _
  | decimal read | negativeDecimal read => exact .float plain

end ByNeed
