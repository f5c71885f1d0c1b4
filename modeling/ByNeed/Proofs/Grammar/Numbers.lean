import ByNeed.Proofs.Grammar.Leads
import ByNeed.Proofs.Grammar.PrefixStatement
import ByNeed.Proofs.Token.Tiling

set_option autoImplicit false

-- An integer that is out of range stops the parser, and it is the first one to be so: what stands before it
-- can be completed to a program, so that nothing there is out of range.
namespace ByNeed

open ByNeed.Parser (breaks)

namespace Decimal

def denoted (digits : String) : Nat :=
  Nat.ofDigits 10 (digits.toList.reverse.map digitValue)

end Decimal

-- A number among the tokens, and whether it follows the minus sign of a pattern.
inductive Numeral where
  | integer (negative : Bool) (digits : String)
  | decimal (negative : Bool) (text : String)
deriving Repr, DecidableEq

def Lead.numeral? (lead : Lead) : Token.Kind → Option Numeral
  | .integer digits => some (.integer (lead = .sign) digits)
  | .decimal text => some (.decimal (lead = .sign) text)
  | _ => none

def Lead.numerals : Lead → List Token.Kind → List Numeral
  | _, [] => []
  | lead, kind :: rest => (lead.numeral? kind).toList ++ (lead.next kind).numerals rest

def numerals (tokens : List Token) : List Numeral :=
  Lead.other.numerals (tokens.map Token.kind)

inductive Numeral.Denotes : Numeral → Literal → Prop
  | integer {digits : String} {value : Int64} (exact : value.toInt = Decimal.denoted digits) :
    Denotes (.integer false digits) (.integer value)
  | negativeInteger {digits : String} {value : Int64} (exact : value.toInt = -Decimal.denoted digits) :
    Denotes (.integer true digits) (.integer value)
  | decimal {text : String} {value : Float} (read : Decimal.float? text = some value) :
    Denotes (.decimal false text) (.float value)
  | negativeDecimal {text : String} {value : Float} (read : Decimal.float? text = some value) :
    Denotes (.decimal true text) (.float (-value))

def Numeral.OutOfRange : Numeral → Prop
  | .integer false digits => 2 ^ 63 - 1 < Decimal.denoted digits
  | .integer true digits => 2 ^ 63 < Decimal.denoted digits
  | .decimal _ _ => False

section Literals

def Literal.numbers : Literal → List Literal
  | .integer value => [.integer value]
  | .float value => [.float value]
  | .string _ | .boolean _ => []

mutual

def Expr.numbers : Expr → List Literal
  | .name _ => []
  | .literal value => value.numbers
  | .list elements | .create _ elements => Expr.allNumbers elements
  | .index collection position => collection.numbers ++ position.numbers
  | .member operand _ | .unary _ operand => operand.numbers
  | .arithmetic _ left right | .logical _ left right | .comparison _ left right =>
    left.numbers ++ right.numbers

def Expr.allNumbers : List Expr → List Literal
  | [] => []
  | first :: rest => first.numbers ++ Expr.allNumbers rest

end

def Pattern.numbers : Pattern → List Literal
  | .literal value => value.numbers
  | .binding _ | .wildcard => []

mutual

def Statement.numbers : Statement → List Literal
  | .assign _ value | .print value | .evaluate value => value.numbers
  | .branch condition consequence none => condition.numbers ++ Statement.blockNumbers consequence
  | .branch condition consequence (some alternative) =>
    condition.numbers ++ (Statement.blockNumbers consequence ++ Statement.blockNumbers alternative)
  | .iterate _ items body => items.numbers ++ Statement.blockNumbers body
  | .select scrutinee cases none => scrutinee.numbers ++ Statement.caseNumbers cases
  | .select scrutinee cases (some alternative) =>
    scrutinee.numbers ++ (Statement.caseNumbers cases ++ Statement.blockNumbers alternative)
  | .define _ _ => []

def Statement.blockNumbers : List Statement → List Literal
  | [] => []
  | first :: rest => first.numbers ++ Statement.blockNumbers rest

def Statement.caseNumbers : List (Pattern × List Statement) → List Literal
  | [] => []
  | (pattern, body) :: rest =>
    pattern.numbers ++ (Statement.blockNumbers body ++ Statement.caseNumbers rest)

end

def Program.numbers (program : Program) : List Literal :=
  Statement.blockNumbers program.statements

theorem Expr.allNumbers_eq_flatten (elements : List Expr) :
    Expr.allNumbers elements = (elements.map Expr.numbers).flatten := by
  induction elements with
  | nil => simp [Expr.allNumbers]
  | cons first rest ih => simp [Expr.allNumbers, ih]

theorem Statement.blockNumbers_eq_flatten (body : List Statement) :
    Statement.blockNumbers body = (body.map Statement.numbers).flatten := by
  induction body with
  | nil => simp [Statement.blockNumbers]
  | cons first rest ih => simp [Statement.blockNumbers, ih]

end Literals

section Range

variable {digits : String} {value : Int64}

namespace Decimal

theorem ofDigits_eq_denoted (digits : String) : ofDigits digits.toList = denoted digits := by
  unfold denoted
  induction digits.toList using List.reverseRecOn with
  | nil => rfl
  | append_singleton digits c ih =>
    rw [ofDigits_append_digit, ih, List.reverse_append, List.reverse_singleton, List.singleton_append,
      List.map_cons, Nat.ofDigits_cons, Nat.add_comm]

theorem toInt64?_eq_none_iff {n : Int} : toInt64? n = none ↔ n < -2 ^ 63 ∨ 2 ^ 63 ≤ n := by
  unfold toInt64?
  rw [Int64.toInt_minValue, Int64.toInt_maxValue]
  split
  · simp only [reduceCtorEq, false_iff]
    omega
  · simp only [true_iff]
    omega

theorem denoted_of_integer? (read : integer? digits = some value) : value.toInt = denoted digits := by
  rw [← ofDigits_eq_denoted]
  exact toInt64?_eq_some read

theorem denoted_of_negativeInteger? (read : negativeInteger? digits = some value) :
    value.toInt = -denoted digits := by
  rw [← ofDigits_eq_denoted]
  exact toInt64?_eq_some read

theorem outOfRange_of_integer? (unread : integer? digits = none) :
    (Numeral.integer false digits).OutOfRange := by
  rw [integer?, toInt64?_eq_none_iff, ofDigits_eq_denoted] at unread
  rw [Numeral.OutOfRange]
  omega

theorem outOfRange_of_negativeInteger? (unread : negativeInteger? digits = none) :
    (Numeral.integer true digits).OutOfRange := by
  rw [negativeInteger?, toInt64?_eq_none_iff, ofDigits_eq_denoted] at unread
  rw [Numeral.OutOfRange]
  omega

end Decimal

theorem Numeral.Denotes.inRange {numeral : Numeral} {literal : Literal} (denotes : numeral.Denotes literal) :
    ¬ numeral.OutOfRange := by
  cases denotes with
  | @integer digits value exact =>
    have most := value.toInt_lt
    rw [OutOfRange]
    omega
  | @negativeInteger digits value exact =>
    have least := value.le_toInt
    rw [OutOfRange]
    omega
  | decimal | negativeDecimal => exact id

end Range

def isPlain : Token.Kind → Bool
  | .integer _ | .decimal _ | .keyword .option => false
  | _ => true

-- The literals are what the numbers among the tokens denote, and the tokens lead up to nothing more.
structure Reckons (kinds : List Token.Kind) (literals : List Literal) : Prop where
  settled : Lead.after kinds = .other
  denotes : List.Forall₂ Numeral.Denotes (Lead.other.numerals kinds) literals

section Reckoning

variable {kinds kinds' : List Token.Kind} {literals literals' : List Literal}

theorem Lead.numerals_append (lead : Lead) (kinds kinds' : List Token.Kind) :
    lead.numerals (kinds ++ kinds') =
      lead.numerals kinds ++ (kinds.foldl Lead.next lead).numerals kinds' := by
  induction kinds generalizing lead with
  | nil => rfl
  | cons kind kinds ih =>
    rw [List.cons_append, numerals, ih, numerals, List.foldl_cons, List.append_assoc]

theorem other_of_isPlain {kind : Token.Kind} (plain : isPlain kind = true) :
    Lead.other.next kind = .other ∧ Lead.other.numeral? kind = none := by
  unfold isPlain at plain
  split at plain
  · cases plain
  · cases plain
  · cases plain
  · next integer decimal option =>
    refine ⟨Lead.next_other fun same => option same, ?_⟩
    unfold Lead.numeral?
    split
    · next digits => exact absurd rfl (integer digits)
    · next text => exact absurd rfl (decimal text)
    · rfl

namespace Reckons

theorem append (first : Reckons kinds literals) (second : Reckons kinds' literals') :
    Reckons (kinds ++ kinds') (literals ++ literals') := by
  constructor
  · rw [Lead.after_append first.settled, second.settled]
  · have settled : kinds.foldl Lead.next .other = .other := first.settled
    rw [Lead.numerals_append, settled]
    exact List.rel_append first.denotes second.denotes

theorem plain (plain : kinds.all isPlain = true) : Reckons kinds [] := by
  induction kinds with
  | nil => exact ⟨rfl, .nil⟩
  | cons kind kinds ih =>
    rw [List.all_cons, Bool.and_eq_true] at plain
    obtain ⟨settled, none⟩ := other_of_isPlain plain.1
    have here : Reckons [kind] [] := ⟨settled, by simp [Lead.numerals, none]⟩
    exact here.append (ih plain.2)

theorem after (later : Reckons kinds literals) (front : List Token.Kind) (plain : front.all isPlain = true) :
    Reckons (front ++ kinds) literals :=
  (Reckons.plain plain).append later

theorem before (earlier : Reckons kinds literals) (back : List Token.Kind) (plain : back.all isPlain = true) :
    Reckons (kinds ++ back) literals := by
  simpa using earlier.append (.plain plain)

theorem breaks (count : Nat) : Reckons (breaks count) [] := by
  apply plain
  simp [Parser.breaks, isPlain]

end Reckons

end Reckoning

section Layout

variable {parts : List (List Token.Kind)} {kinds : List Token.Kind} {literals : List (List Literal)}

theorem Separated.reckons (separated : Separated parts kinds) (each : List.Forall₂ Reckons parts literals) :
    Reckons kinds literals.flatten := by
  induction separated generalizing literals with
  | last after =>
    obtain ⟨first, _, here, none, rfl⟩ := List.forall₂_cons_left_iff.mp each
    cases none
    simpa using here.append (.breaks after)
  | more after before rest ih =>
    obtain ⟨first, others, here, later, rfl⟩ := List.forall₂_cons_left_iff.mp each
    have comma := ((Reckons.breaks before).append (ih later)).after [.symbol .comma] rfl
    simpa using (here.append (.breaks after)).append comma

theorem Sequence.reckons (sequence : Sequence parts kinds) (each : List.Forall₂ Reckons parts literals) :
    Reckons kinds literals.flatten := by
  cases sequence with
  | none count =>
    cases each
    exact .breaks count
  | some before separated => exact (Reckons.breaks before).append (separated.reckons each)

theorem Lines.reckons (lines : Lines parts kinds) (each : List.Forall₂ Reckons parts literals) :
    Reckons kinds literals.flatten := by
  induction lines generalizing literals with
  | none count =>
    cases each
    exact .breaks count
  | cons before rest apart ih =>
    obtain ⟨first, others, here, later, rfl⟩ := List.forall₂_cons_left_iff.mp each
    exact ((Reckons.breaks before).append here).append (ih later)

theorem Body.reckons (body : Body parts kinds) (each : List.Forall₂ Reckons parts literals) :
    Reckons kinds literals.flatten := by
  cases body with
  | lines lines => exact (lines.reckons each).after [.lineBreak] rfl
  | single part after =>
    obtain ⟨first, _, here, none, rfl⟩ := List.forall₂_cons_left_iff.mp each
    cases none
    simpa using here.append (.breaks after)

theorem reckons_parts {α : Type} {numbers : α → List Literal} {parts : List (List Token.Kind × α)}
    (each : ∀ part ∈ parts, Reckons part.1 (numbers part.2)) :
    List.Forall₂ Reckons (parts.map Prod.fst) ((parts.map Prod.snd).map numbers) := by
  rw [List.map_map, List.forall₂_map_left_iff, List.forall₂_map_right_iff, List.forall₂_same]
  exact each

end Layout

section Expressions

theorem Sequence.reckons_elements {elements : List (List Token.Kind × Expr)} {kinds : List Token.Kind}
    (sequence : Sequence (elements.map Prod.fst) kinds)
    (each : ∀ element ∈ elements, Reckons element.1 element.2.numbers) :
    Reckons kinds (Expr.allNumbers (elements.map Prod.snd)) := by
  rw [Expr.allNumbers_eq_flatten]
  exact sequence.reckons (reckons_parts each)

theorem Layer.Derives.reckons {layer : Layer} {kinds : List Token.Kind} {expr : Expr}
    (derives : layer.Derives kinds expr) : Reckons kinds expr.numbers := by
  induction derives with
  | loosen _ _ ih => exact ih
  | disjunction _ _ ih ih' => exact ih.append (ih'.after [LogicalOp.disjunction.kind] rfl)
  | conjunction _ _ ih ih' => exact ih.append (ih'.after [LogicalOp.conjunction.kind] rfl)
  | comparison op _ _ ih ih' => exact ih.append (ih'.after [op.kind] (by cases op <;> rfl))
  | sum op _ _ _ ih ih' | product op _ _ _ ih ih' =>
    exact ih.append (ih'.after [op.kind] (by cases op <;> rfl))
  | negation _ ih => exact ih.after [UnaryOp.negation.kind] rfl
  | signed op _ _ ih => exact ih.after [op.kind] (by cases op <;> rfl)
  | step op _ _ ih => exact ih.before [op.kind] (by cases op <;> rfl)
  | index _ _ _ ih ih' =>
    exact ih.append ((ih'.before [.symbol .closeBracket] rfl).after [.symbol .openBracket] rfl)
  | member field _ ih => exact ih.before [.symbol .dot, .name field] rfl
  | name | string | boolean | bareCreate => exact .plain rfl
  | integer read => exact ⟨rfl, .cons (.integer (Decimal.denoted_of_integer? read)) .nil⟩
  | decimal read => exact ⟨rfl, .cons (.decimal read) .nil⟩
  | group _ ih => exact (ih.after [.symbol .openParen] rfl).before [.symbol .closeParen] rfl
  | list sequence _ ih =>
    exact ((sequence.reckons_elements ih).after [.symbol .openBracket] rfl).before [.symbol .closeBracket] rfl
  | @create type _ _ sequence _ ih =>
    exact ((sequence.reckons_elements ih).after [.keyword .create, .name type, .symbol .openBracket] rfl).before
      [.symbol .closeBracket] rfl

end Expressions

section Statements

variable {kinds : List Token.Kind}

-- The keyword of a case comes first, since it leads up to the sign of a negative number.
theorem Pattern.Derives.reckons {pattern : Pattern} (derives : pattern.Derives kinds) :
    Reckons (.keyword .option :: kinds) pattern.numbers := by
  cases derives with
  | wildcard | binding | string | boolean => exact ⟨rfl, .nil⟩
  | integer read => exact ⟨rfl, .cons (.integer (Decimal.denoted_of_integer? read)) .nil⟩
  | decimal read => exact ⟨rfl, .cons (.decimal read) .nil⟩
  | negativeInteger read =>
    exact ⟨rfl, .cons (.negativeInteger (Decimal.denoted_of_negativeInteger? read)) .nil⟩
  | negativeDecimal read => exact ⟨rfl, .cons (.negativeDecimal read) .nil⟩

section Blocks

variable {body : List Part} (each : ∀ part ∈ body, Reckons part.1 part.2.numbers)
include each

theorem Lines.reckons_block (lines : Lines (body.map Prod.fst) kinds) :
    Reckons kinds (Statement.blockNumbers (body.map Prod.snd)) := by
  rw [Statement.blockNumbers_eq_flatten]
  exact lines.reckons (reckons_parts each)

theorem Body.reckons_block (layout : Body (body.map Prod.fst) kinds) :
    Reckons kinds (Statement.blockNumbers (body.map Prod.snd)) := by
  rw [Statement.blockNumbers_eq_flatten]
  exact layout.reckons (reckons_parts each)

end Blocks

theorem Cases.reckons {options : List (Pattern × List (List Token.Kind))} (layout : Cases options kinds)
    {cases : List (Pattern × List Part)} (same : options = cases.map fun case => (case.1, case.2.map Prod.fst))
    (each : ∀ case ∈ cases, ∀ part ∈ case.2, Reckons part.1 part.2.numbers) :
    Reckons kinds (Statement.caseNumbers (cases.map fun case => (case.1, case.2.map Prod.snd))) := by
  induction layout generalizing cases with
  | none =>
    obtain rfl := List.map_eq_nil_iff.mp same.symm
    exact .plain rfl
  | cons header inside others ih =>
    obtain ⟨⟨pattern, body⟩, cases, rfl, same, rfl⟩ := List.map_eq_cons_iff.mp same.symm
    cases same
    rw [List.forall_mem_cons] at each
    have rest := (inside.reckons_block each.1).append (ih rfl each.2)
    simpa [Statement.caseNumbers] using header.reckons.append (rest.after [.keyword .consequence] rfl)

theorem Lines.reckons_fields {names : List String} (lines : Lines (names.map fieldKinds) kinds) :
    Reckons kinds [] := by
  have each : List.Forall₂ Reckons (names.map fieldKinds) (names.map fun _ => []) := by
    rw [List.forall₂_map_left_iff, List.forall₂_map_right_iff, List.forall₂_same]
    exact fun name _ => .plain rfl
  simpa using lines.reckons each

-- The induction is on the derivation: the statements of a block are parts of it.
theorem Form.Derives.reckons {form : Form} {statement : Statement} (derives : form.Derives kinds statement) :
    Reckons kinds statement.numbers := by
  induction derives with
  | assign id derives => exact derives.reckons.after [.name id, .symbol .assign] rfl
  | print derives => exact derives.reckons.after [.keyword .print] rfl
  | evaluate derives => exact derives.reckons
  | define type lines =>
    exact (lines.reckons_fields.before [.keyword .finish] rfl).after
      [.keyword .record, .name type, .lineBreak] rfl
  | iterate id derives lines _ ih =>
    have body := (lines.reckons_block ih).before [.keyword .finish] rfl
    exact (derives.reckons.append (body.after [.lineBreak] rfl)).after
      [.keyword .iterate, .name id, .keyword .among] rfl
  | branch _ ih => exact (ih.before [.keyword .finish] rfl).after [.keyword .branch] rfl
  | consequence derives lines _ ih =>
    exact derives.reckons.append ((lines.reckons_block ih).after [.keyword .consequence, .lineBreak] rfl)
  | elseBranch derives lines _ _ ih ih' =>
    have rest := (lines.reckons_block ih).append (ih'.after [.keyword .elseBranch] rfl)
    simpa [Statement.numbers, Statement.blockNumbers] using
      derives.reckons.append (rest.after [.keyword .consequence, .lineBreak] rfl)
  | otherwise derives lines _ lines' _ ih ih' =>
    have alternative := (lines'.reckons_block ih').after [.keyword .otherwise, .lineBreak] rfl
    have rest := (lines.reckons_block ih).append alternative
    exact derives.reckons.append (rest.after [.keyword .consequence, .lineBreak] rfl)
  | select derives before _ layout _ ih =>
    have rest := (layout.reckons rfl ih).before [.keyword .finish] rfl
    have cases := (Reckons.breaks before).append rest
    exact (derives.reckons.append (cases.after [.lineBreak] rfl)).after [.keyword .select] rfl
  | selectOtherwise derives before _ layout _ layout' _ ih ih' =>
    have alternative := (layout'.reckons_block ih').before [.keyword .finish] rfl
    have rest := (layout.reckons rfl ih).append (alternative.after [.keyword .otherwise] rfl)
    have cases := (Reckons.breaks before).append rest
    exact (derives.reckons.append (cases.after [.lineBreak] rfl)).after [.keyword .select] rfl

theorem Program.ofTokens_numerals {tokens : List Token} {program : Program}
    (parsed : Program.ofTokens tokens = .ok program) :
    List.Forall₂ Numeral.Denotes (numerals tokens) program.numbers := by
  obtain ⟨parts, same, lines, each⟩ := Program.derives_of_ofTokens parsed
  have reckons := lines.reckons_block fun part member => (each part member).reckons
  rw [← same] at reckons
  exact reckons.denotes

end Statements

section Errors

variable {source : String} {before rest tokens : List Token} {token : Token} {digits : String}
  {negative : Bool}

theorem Program.inRange_of_ofTokens {program : Program} (parsed : Program.ofTokens tokens = .ok program) :
    ∀ numeral ∈ numerals tokens, ¬ numeral.OutOfRange := by
  have denotes := Program.ofTokens_numerals parsed
  exact ((List.forall₂_and_left _ _).mp (denotes.imp fun _ _ denotes => ⟨denotes.inRange, denotes⟩)).1

theorem numerals_append (before tokens : List Token) :
    numerals (before ++ tokens) = numerals before ++ (Lead.of before).numerals (tokens.map Token.kind) := by
  rw [numerals, List.map_append, Lead.numerals_append]
  rfl

theorem integer_mem_numerals (integer : token.kind = .integer digits) :
    .integer (Lead.of before = .sign) digits ∈ numerals (before ++ token :: rest) := by
  simp [numerals_append, Lead.numerals, Lead.numeral?, integer]

theorem SyntaxError.Suits.outOfRange {lead : Lead}
    (suits : (SyntaxError.integerOutOfRange negative).Suits lead token) :
    ∃ digits, token.kind = .integer digits ∧ negative = decide (lead = .sign) ∧
      (Numeral.integer negative digits).OutOfRange := by
  cases suits with
  | tooLarge integer plain unread =>
    exact ⟨_, integer, by simp [plain], Decimal.outOfRange_of_integer? unread⟩
  | tooSmall integer signed unread =>
    exact ⟨_, integer, by simp [signed], Decimal.outOfRange_of_negativeInteger? unread⟩

structure OutOfRangeAt (negative : Bool) (before : List Token) (token : Token) (digits : String) : Prop where
  integer : token.kind = .integer digits
  signed : negative = true ↔ Lead.of before = .sign
  outside : (Numeral.integer negative digits).OutOfRange

theorem outOfRangeAt_of_ofTokens {more : List Token} {program : Program}
    (parsed : Program.ofTokens (before ++ more) = .ok program)
    (failed : Program.ofTokens (before ++ [token]) = .error (.integerOutOfRange negative)) :
    ∃ digits, OutOfRangeAt negative before token digits := by
  cases Program.ofTokens_error_fits failed with
  | @about used rest token' _ split suits =>
    obtain ⟨digits, integer, signed, outside⟩ := suits.outOfRange
    rcases List.eq_nil_or_concat' rest with rfl | ⟨rest, last, rfl⟩
    · obtain ⟨rfl, same⟩ := List.append_inj' split rfl
      cases same
      exact ⟨digits, integer, by simp [signed], outside⟩
    -- An integer before the token would be out of range in a program.
    · rw [← List.cons_append, ← List.append_assoc] at split
      obtain ⟨rfl, -⟩ := List.append_inj' split rfl
      have member : .integer negative digits ∈ numerals (used ++ token' :: rest ++ more) := by
        rw [signed, List.append_assoc]
        exact integer_mem_numerals integer
      exact absurd outside (Program.inRange_of_ofTokens parsed _ member)

-- Parsing stops between the tokens, because of the next one or because there is none.
structure StopsAt (source : String) (error : SyntaxError) (before rest : List Token) : Prop where
  split : Token.scan source = before ++ rest
  completes : ∃ more program, Program.ofTokens (before ++ more) = .ok program ∧
    List.Forall₂ Numeral.Denotes (numerals (before ++ more)) program.numbers
  always : ∀ rest', rest'.head? = rest.head? → Program.ofTokens (before ++ rest') = .error error
  outOfRange : ∀ negative, error = .integerOutOfRange negative →
    ∃ token digits, rest.head? = some token ∧ OutOfRangeAt negative before token digits

theorem Program.stopsAt_of_parse {error : SyntaxError} (failed : Program.parse source = .error error) :
    ∃ before rest, StopsAt source error before rest := by
  obtain ⟨⟨expected, rfl⟩, more, program, parsed⟩ |
    ⟨before, token, rest, split, -, ⟨more, program, parsed⟩, always⟩ := parse_error_at failed
  · refine ⟨Token.scan source, [], (List.append_nil _).symm,
      ⟨more, program, parsed, Program.ofTokens_numerals parsed⟩, fun rest same => ?_, nofun⟩
    rw [List.head?_eq_none_iff.mp same, List.append_nil]
    exact failed
  · refine ⟨before, token :: rest, split,
      ⟨more, program, parsed, Program.ofTokens_numerals parsed⟩, fun rest' same => ?_, ?_⟩
    · obtain ⟨rest', rfl⟩ := List.head?_eq_some_iff.mp same
      exact always rest'
    · rintro negative rfl
      obtain ⟨digits, outside⟩ := outOfRangeAt_of_ofTokens parsed (always [])
      exact ⟨token, digits, rfl, outside⟩

end Errors

section Scan

theorem Token.continuesNumber_of_isNumeral {text : List Char} (numeral : Token.isNumeral text = true) :
    ∀ c ∈ text, Token.continuesNumber c = true := by
  cases text with
  | nil => cases numeral
  | cons first more =>
    rw [Token.isNumeral, Bool.and_eq_true] at numeral
    rw [List.forall_mem_cons]
    exact ⟨Token.continuesNumber_of_startsNumber numeral.1, List.all_eq_true.mp numeral.2⟩

variable {source : String} {token : Token} {text : String}

theorem Token.spells_scan (member : token ∈ Token.scan source) :
    Token.Spells (token.span.text source) token.kind :=
  ((Token.stands_scan member).spelled token.kind).mpr rfl

theorem Token.integer_of_scan (member : token ∈ Token.scan source) (integer : token.kind = .integer text) :
    token.span.text source = text ∧ text ≠ "" ∧ ∀ c ∈ text.toList, c.isDigit = true := by
  have spells := Token.spells_scan member
  rw [integer] at spells
  generalize token.span.text source = written at spells
  cases spells with
  | integer numeral points =>
    refine ⟨rfl, ?_, fun c inside => ?_⟩
    · rintro rfl
      cases numeral
    · have other : c ≠ '.' := by
        rintro rfl
        exact List.count_eq_zero.mp points inside
      simpa [Token.continuesNumber, other] using Token.continuesNumber_of_isNumeral numeral c inside

theorem Token.decimal_of_scan (member : token ∈ Token.scan source) (decimal : token.kind = .decimal text) :
    token.span.text source = text ∧ ∃ whole fraction, text.toList = whole ++ '.' :: fraction ∧
      (∀ c ∈ whole ++ fraction, c.isDigit = true) ∧ whole ++ fraction ≠ [] := by
  have spells := Token.spells_scan member
  rw [decimal] at spells
  obtain ⟨value, read⟩ := Option.ne_none_iff_exists'.mp (legible_scan source token member text decimal)
  obtain ⟨whole, fraction, spelled, digits, digits', filled⟩ := Decimal.float?_eq_some read
  generalize token.span.text source = written at spells
  cases spells
  refine ⟨rfl, whole, fraction, spelled, ?_, ?_⟩
  · rw [List.forall_mem_append]
    exact ⟨List.all_eq_true.mp digits, List.all_eq_true.mp digits'⟩
  · intro none
    rw [List.append_eq_nil_iff] at none
    exact filled none.1 none.2

structure ReadsNumbers (source : String) : Prop where
  -- The digits of an integer are the text at its place.
  integers : ∀ token ∈ Token.scan source, ∀ text, token.kind = .integer text →
    token.span.text source = text ∧ text ≠ "" ∧ ∀ c ∈ text.toList, c.isDigit = true
  -- A decimal has one point, and a digit before or after it.
  decimals : ∀ token ∈ Token.scan source, ∀ text, token.kind = .decimal text →
    token.span.text source = text ∧ ∃ whole fraction, text.toList = whole ++ '.' :: fraction ∧
      (∀ c ∈ whole ++ fraction, c.isDigit = true) ∧ whole ++ fraction ≠ []
  denotes : ∀ program, Program.parse source = .ok program →
    List.Forall₂ Numeral.Denotes (numerals (Token.scan source)) program.numbers
  legible : Program.parse source ≠ .error .malformedFloat
  stops : ∀ error, Program.parse source = .error error → ∃ before rest, StopsAt source error before rest

/-- The numbers in a program are those of its text, and the only error about a number is that an integer
is out of range. -/
theorem parse_reads_numbers (source : String) : ReadsNumbers source where
  integers _ member _ := Token.integer_of_scan member
  decimals _ member _ := Token.decimal_of_scan member
  denotes _ := Program.ofTokens_numerals
  legible failed := by
    obtain ⟨⟨_, same⟩, -⟩ | ⟨_, _, _, -, about, -⟩ := parse_error_at failed
    · cases same
    · exact about
  stops _ := Program.stopsAt_of_parse

-- The digits that are in range after the sign of a pattern are out of range elsewhere.
theorem parse_reads_numbers_limits :
    (∃ program,
      Program.parse "atchmerb x\nasecerb -9223372036854775808 henterb 9223372036854775807\nndeerb" =
        .ok program ∧
      List.Forall₂ Numeral.Denotes
        [.integer true "9223372036854775808", .integer false "9223372036854775807"] program.numbers) ∧
    Program.parse "x = 9223372036854775808" = .error (.integerOutOfRange false) ∧
      ∃ before rest, StopsAt "x = 9223372036854775808" (.integerOutOfRange false) before rest := by
  have parsed :
      Program.parse "atchmerb x\nasecerb -9223372036854775808 henterb 9223372036854775807\nndeerb" =
        .ok ⟨[.select (.name "x") [(.literal (.integer Int64.minValue),
          [.evaluate (.literal (.integer Int64.maxValue))])] none]⟩ := by cbv
  have scanned :
      numerals (Token.scan "atchmerb x\nasecerb -9223372036854775808 henterb 9223372036854775807\nndeerb") =
        [.integer true "9223372036854775808", .integer false "9223372036854775807"] := by cbv
  have failed : Program.parse "x = 9223372036854775808" = .error (.integerOutOfRange false) := by cbv
  have denotes := (parse_reads_numbers _).denotes _ parsed
  rw [scanned] at denotes
  exact ⟨⟨_, parsed, denotes⟩, failed, (parse_reads_numbers _).stops _ failed⟩

end Scan

end ByNeed
