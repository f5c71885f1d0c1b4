import ByNeed.Proofs.Grammar.Binding
import ByNeed.Proofs.Rendering.Literal

set_option autoImplicit false

-- An operation is written in parentheses, so its text reads the same in every context. What remains to be
-- seen is where the tokens end: a point after a name is a mark, and after a number it is a part of the
-- number.
namespace ByNeed

open Token (Scans IsName continuesNumber continuesWord)

-- What may follow the text of an expression without becoming a part of its last token.
def Expr.MayPrecede (expr : Expr) (next : Char) : Prop :=
  continuesWord next = false ∧ (next = '.' → expr.isNumber = false)

-- The text begins with a character that no mark before it takes in.
def Opening (text : List Char) : Prop :=
  ∃ first rest, text = first :: rest ∧ first ∉ ['+', '-', '=']

structure Expr.Reread (nested : Bool) (expr : Expr) (kinds : List Token.Kind) (expr' : Expr) :
    Prop where
  scans : Scans expr.text.toList kinds expr.MayPrecede
  derives : Layer.suffixed.Derives kinds expr'
  complete : ¬ IsBareCreate kinds
  same : expr.same expr' = true
  opening : Opening expr.text.toList
  inline : Inline nested expr.text.toList

def Expr.ReadsBack (nested : Bool) (expr : Expr) : Prop :=
  ∃ kinds expr', expr.Reread nested kinds expr'

theorem ofSymbolPair?_eq_none {first next : Char} (other : next ∉ ['+', '-', '=']) :
    Token.Kind.ofSymbolPair? first next = none := by
  unfold Token.Kind.ofSymbolPair?
  split <;> first | rfl | simp at other

theorem scans_symbol {mark : Symbol} (other : mark ≠ .dot) :
    Scans mark.spelling.toList [.symbol mark] fun next => next ∉ ['+', '-', '='] := by
  have lone {c : Char} {kind : Token.Kind} (mark : Token.isMark c = true)
      (symbol : Token.Kind.ofSymbol? c = some kind) :
      Scans [c] [kind] fun next => next ∉ ['+', '-', '='] :=
    (Scans.lone mark symbol).mono fun _ => ofSymbolPair?_eq_none
  cases mark with
  | dot => exact absurd rfl other
  | increment | decrement | equal | notEqual => exact Scans.pair (by decide) rfl .nil
  | _ => exact lone (by decide) rfl

namespace Expr

variable {nested : Bool}

theorem mayPrecede_of_ne {expr : Expr} {c : Char} (stops : continuesWord c = false)
    (other : c ≠ '.') : expr.MayPrecede c :=
  ⟨stops, fun point => absurd point other⟩

theorem Reread.continuesNumber_eq_false {expr : Expr} (number : expr.isNumber = true) {c : Char}
    (follows : expr.MayPrecede c) : continuesNumber c = false := by
  have digit : c.isDigit = false := by
    have stops := follows.1
    rw [continuesWord, Bool.or_eq_false_iff] at stops
    exact stops.2
  have point : c ≠ '.' := by
    intro point
    rw [follows.2 point] at number
    cases number
  simp [continuesNumber, digit, point]

theorem not_isBareCreate_one (kind : Token.Kind) : ¬ IsBareCreate [kind] := by
  rintro ⟨type, same⟩
  cases same

theorem opening_of_word {word : String} (spelled : Token.isWord word = true) :
    Opening word.toList := by
  obtain ⟨first, more, split, starts, -⟩ := Token.isWord_iff.mp spelled
  refine ⟨first, more, split, ?_⟩
  intro sign
  have bounds := Token.startsWord_bounds starts
  simp only [List.mem_cons, List.not_mem_nil, or_false] at sign
  rcases sign with rfl | rfl | rfl <;> exact absurd bounds (by decide)

theorem opening_of_number {text : List Char} (number : text.all continuesNumber = true)
    (filled : text ≠ []) : Opening text := by
  obtain ⟨first, more, rfl⟩ := List.exists_cons_of_ne_nil filled
  refine ⟨first, more, rfl, ?_⟩
  intro sign
  rw [List.all_cons, Bool.and_eq_true] at number
  have bounds := Token.continuesNumber_bounds number.1
  simp only [List.mem_cons, List.not_mem_nil, or_false] at sign
  rcases sign with rfl | rfl | rfl <;> exact absurd bounds (by decide)

namespace Reread

variable {expr expr' : Expr} {kinds : List Token.Kind}

theorem name {id : String} (name : IsName id) : Reread nested (.name id) [.name id] (.name id) where
  scans := name.scans.mono fun _ follows => follows.1
  derives := .loosen (by decide) (.name id)
  complete := not_isBareCreate_one _
  same := beq_self_eq_true id
  opening := opening_of_word name.1
  inline := .of_word name.1

theorem integer {value : Int64} (nonneg : 0 ≤ value.toInt) :
    Reread nested (.literal (.integer value))
      [.integer (String.ofList (Decimal.digitsOf value.toInt.natAbs))] (.literal (.integer value)) := by
  have text : (Expr.literal (.integer value)).text.toList =
      Decimal.digitsOf value.toInt.natAbs := by
    simp [Expr.text, Literal.text, Decimal.integerText_of_nonneg nonneg]
  have digits := Decimal.continuesNumber_of_digits (Decimal.all_digitsOf value.toInt.natAbs)
  constructor
  case scans =>
    rw [text]
    exact (Decimal.scans_digitsOf _).mono fun _ => continuesNumber_eq_false rfl
  case derives => exact .loosen (by decide) (.integer (Decimal.integer?_digitsOf nonneg))
  case complete => exact not_isBareCreate_one _
  case same => exact Literal.beq_integer value
  case opening =>
    rw [text]
    exact opening_of_number digits Nat.toDigits_ne_nil
  case inline =>
    rw [text]
    exact .of_number digits

theorem float {value value' : Float}
    (read : Decimal.float? (Decimal.floatText value) = some value')
    (same : (value == value') = true) :
    Reread nested (.literal (.float value)) [.decimal (Decimal.floatText value)]
      (.literal (.float value')) where
  scans := (Decimal.scans_float read).mono fun _ => continuesNumber_eq_false rfl
  derives := .loosen (by decide) (.decimal read)
  complete := not_isBareCreate_one _
  same := same
  opening := opening_of_number (Decimal.all_continuesNumber_of_float? read)
    (Decimal.ne_nil_of_float? read)
  inline := .of_number (Decimal.all_continuesNumber_of_float? read)

theorem string {text : String} (plain : isPlainString nested text = true) :
    Reread nested (.literal (.string text)) [.string text] (.literal (.string text)) where
  scans := Token.scans_string (isPlainString_iff.mp plain).1
  derives := .loosen (by decide) (.string text)
  complete := not_isBareCreate_one _
  same := Literal.beq_string text
  opening := ⟨'\"', text.toList ++ ['\"'], by simp [Expr.text, Literal.text], by decide⟩
  inline := .of_string plain

theorem boolean (value : Bool) :
    Reread nested (.literal (.boolean value)) [.boolean value] (.literal (.boolean value)) where
  scans := (scans_boolean value).mono fun _ follows => follows.1
  derives := .loosen (by decide) (.boolean value)
  complete := not_isBareCreate_one _
  same := Literal.beq_boolean value
  opening := opening_of_word (by cases value <;> decide)
  inline := .of_word (by cases value <;> decide)

-- Whatever is written in parentheses is read again as soon as its inside is.
theorem group {text : List Char} (spelled : expr.text.toList = '(' :: (text ++ [')']))
    (inside : Scans text kinds (· = ')')) (derives : Layer.disjunction.Derives kinds expr')
    (same : expr.same expr' = true) (unbroken : nested = true → '\n' ∉ text) :
    Reread nested expr (.symbol .openParen :: kinds ++ [.symbol .closeParen]) expr' := by
  constructor
  case scans =>
    rw [spelled]
    have close {allowed : Char → Prop} : Scans [')'] [.symbol .closeParen] allowed :=
      Scans.mark (by decide) rfl (fun _ => rfl) .nil
    exact Scans.mark (by decide) rfl (fun _ => rfl) (inside.append close rfl)
  case derives => exact .loosen (by decide) (.group derives)
  case complete =>
    rintro ⟨type, same⟩
    cases same
  case same => exact same
  case opening => exact ⟨'(', _, spelled, by decide⟩
  case inline =>
    rw [spelled, ← List.cons_append]
    exact .close (by simpa using unbroken) (by decide)

variable {left left' right right' : Expr} {kinds' : List Token.Kind} {kind : Token.Kind}

theorem binary {op : String} (first : left.Reread nested kinds left')
    (second : right.Reread nested kinds' right') (operator : Scans op.toList [kind] (· = ' '))
    (unbroken : '\n' ∉ op.toList) (spelled : expr.text = binaryText left.text op right.text)
    (derives : Layer.disjunction.Derives (kinds ++ kind :: kinds') expr')
    (same : expr.same expr' = true) :
    Reread nested expr (.symbol .openParen :: (kinds ++ kind :: kinds') ++ [.symbol .closeParen])
      expr' := by
  have chars : expr.text.toList =
      '(' :: (left.text.toList ++ ' ' :: (op.toList ++ ' ' :: right.text.toList) ++ [')']) := by
    simp [spelled, binaryText, String.toList_append]
  have close : ∀ c, c = ')' → right.MayPrecede c := by
    rintro c rfl
    exact mayPrecede_of_ne (by decide) (by decide)
  have inside := first.scans.append (operator.append (second.scans.mono close).space rfl).space
    (mayPrecede_of_ne (by decide) (by decide))
  refine group chars inside derives same ?_
  intro deep
  simpa using ⟨first.inline.unbroken deep, unbroken, second.inline.unbroken deep⟩

theorem scans_spaced {mark : Symbol} (other : mark ≠ .dot) :
    Scans mark.spelling.toList [.symbol mark] (· = ' ') := by
  apply (scans_symbol other).mono
  rintro c rfl
  decide

theorem scans_keyword_spaced (keyword : Keyword) :
    Scans keyword.spelling.toList [.keyword keyword] (· = ' ') :=
  (Token.scans_keyword keyword).mono Token.continuesWord_space

theorem arithmetic (op : ArithmeticOp) (first : left.Reread nested kinds left')
    (second : right.Reread nested kinds' right') :
    Reread nested (.arithmetic op left right)
      (.symbol .openParen :: (kinds ++ op.kind :: kinds') ++ [.symbol .closeParen])
      (.arithmetic op left' right') := by
  have operator : Scans op.text.toList [op.kind] (· = ' ') := by
    cases op <;> exact scans_spaced (by decide)
  have derives : Layer.disjunction.Derives (kinds ++ op.kind :: kinds')
      (.arithmetic op left' right') := by
    have before {layer : Layer} (tighter : layer.rank ≤ Layer.suffixed.rank) :=
      Layer.Derives.loosen tighter first.derives
    have after {layer : Layer} (tighter : layer.rank ≤ Layer.suffixed.rank) :=
      Layer.Derives.loosen tighter second.derives
    cases op with
    | add | subtract =>
      exact .loosen (by decide) (.sum _ (by decide) (before (by decide)) (after (by decide)))
    | multiply | divide | modulo =>
      exact .loosen (by decide) (.product _ (by decide) (before (by decide)) (after (by decide)))
  exact binary first second operator (by cases op <;> decide) rfl derives
    (by simp [Expr.same, first.same, second.same])

theorem comparison (op : ComparisonOp) (first : left.Reread nested kinds left')
    (second : right.Reread nested kinds' right') :
    Reread nested (.comparison op left right)
      (.symbol .openParen :: (kinds ++ op.kind :: kinds') ++ [.symbol .closeParen])
      (.comparison op left' right') := by
  have operator : Scans op.text.toList [op.kind] (· = ' ') := by
    cases op <;> exact scans_spaced (by decide)
  have derives : Layer.disjunction.Derives (kinds ++ op.kind :: kinds')
      (.comparison op left' right') :=
    .loosen (by decide) (.comparison op (.loosen (by decide) first.derives)
      (.loosen (by decide) second.derives))
  exact binary first second operator (by cases op <;> decide) rfl derives
    (by simp [Expr.same, first.same, second.same])

theorem logical (op : LogicalOp) (first : left.Reread nested kinds left')
    (second : right.Reread nested kinds' right') :
    Reread nested (.logical op left right)
      (.symbol .openParen :: (kinds ++ op.kind :: kinds') ++ [.symbol .closeParen])
      (.logical op left' right') := by
  have operator : Scans op.text.toList [op.kind] (· = ' ') := by
    cases op <;> exact scans_keyword_spaced _
  have derives : Layer.disjunction.Derives (kinds ++ op.kind :: kinds')
      (.logical op left' right') := by
    cases op with
    | conjunction =>
      exact .loosen (by decide) (.conjunction (.loosen (by decide) first.derives)
        (.loosen (by decide) second.derives))
    | disjunction =>
      exact .disjunction (.loosen (by decide) first.derives) (.loosen (by decide) second.derives)
  exact binary first second operator (by cases op <;> decide) rfl derives
    (by simp [Expr.same, first.same, second.same])

theorem scans_sign {op : UnaryOp} (sign : op ∈ [.plus, .minus, .increment, .decrement])
    {text : List Char} {allowed : Char → Prop} (scans : Scans text kinds allowed)
    (opening : Opening text) : Scans (op.text.toList ++ text) (op.kind :: kinds) allowed := by
  obtain ⟨first, rest, rfl, other⟩ := opening
  have marked {mark : Symbol} (plain : mark ≠ .dot) :=
    (scans_symbol plain).append scans other
  cases op with
  | negation => simp at sign
  | plus | minus | increment | decrement => exact marked (by decide)

theorem unary (op : UnaryOp) (inner : left.Reread nested kinds left') :
    Reread nested (.unary op left) (.symbol .openParen :: (op.kind :: kinds) ++ [.symbol .closeParen])
      (.unary op left') := by
  have chars : (Expr.unary op left).text.toList =
      '(' :: (op.text.toList ++ left.text.toList ++ [')']) := by
    simp [Expr.text, String.toList_append]
  have close : ∀ c, c = ')' → left.MayPrecede c := by
    rintro c rfl
    exact mayPrecede_of_ne (by decide) (by decide)
  have operand := inner.scans.mono close
  have same : (Expr.unary op left).same (.unary op left') = true := by
    simp [Expr.same, inner.same]
  have unbroken : nested = true → '\n' ∉ op.text.toList ++ left.text.toList := by
    intro deep
    rw [List.mem_append, not_or]
    exact ⟨by cases op <;> decide, inner.inline.unbroken deep⟩
  -- Only the negation is a word, which needs the space that its text ends with.
  by_cases word : op = .negation
  · subst word
    have inside : Scans (UnaryOp.negation.text.toList ++ left.text.toList)
        (UnaryOp.negation.kind :: kinds) (· = ')') := by
      have scans := (scans_keyword_spaced .negation).append operand.space rfl
      simpa [UnaryOp.text, UnaryOp.kind, String.toList_append] using scans
    exact group chars inside (.loosen (by decide) (.negation (.loosen (by decide) inner.derives))) same
      unbroken
  · have sign : op ∈ [.plus, .minus, .increment, .decrement] := by
      cases op <;> simp at word ⊢
    exact group chars (scans_sign sign operand inner.opening)
      (.loosen (by decide) (.signed op sign (.loosen (by decide) inner.derives))) same unbroken

theorem ne_nil (inner : left.Reread nested kinds left') : kinds ≠ [] := by
  obtain ⟨first, rest, rfl, -⟩ := inner.derives.starts
  exact List.cons_ne_nil first rest

theorem index (first : left.Reread nested kinds left') (second : right.Reread nested kinds' right') :
    Reread nested (.index left right)
      (kinds ++ .symbol .openBracket :: (kinds' ++ [.symbol .closeBracket])) (.index left' right') := by
  have chars : (Expr.index left right).text.toList =
      left.text.toList ++ '[' :: (right.text.toList ++ [']']) := by
    simp [Expr.text, String.toList_append]
  constructor
  case scans =>
    have close : Scans [']'] [.symbol .closeBracket] (Expr.index left right).MayPrecede :=
      Scans.mark (by decide) rfl (fun _ => rfl) .nil
    have position := second.scans.append close (mayPrecede_of_ne (by decide) (by decide))
    rw [chars]
    exact first.scans.append (Scans.mark (by decide) rfl (fun _ => rfl) position)
      (mayPrecede_of_ne (by decide) (by decide))
  case derives => exact .index first.derives first.complete (.loosen (by decide) second.derives)
  case complete => exact not_isBareCreate_append first.ne_nil nofun
  case same => simp [Expr.same, first.same, second.same]
  case opening =>
    obtain ⟨c, rest, spelled, other⟩ := first.opening
    exact ⟨c, _, by rw [chars, spelled]; rfl, other⟩
  case inline =>
    rw [chars, ← List.cons_append, ← List.append_assoc]
    refine .close ?_ (by decide)
    intro deep
    simpa using ⟨first.inline.unbroken deep, second.inline.unbroken deep⟩

theorem member {field : String} (inner : left.Reread nested kinds left') (name : IsName field)
    (other : left.isNumber = false) :
    Reread nested (.member left field) (kinds ++ [.symbol .dot, .name field]) (.member left' field) := by
  have chars : (Expr.member left field).text.toList = left.text.toList ++ '.' :: field.toList := by
    simp [Expr.text, String.toList_append]
  obtain ⟨first, more, spelled, starts, -⟩ := Token.isWord_iff.mp name.1
  constructor
  case scans =>
    have letter : first.isDigit = false := by
      rw [← Bool.not_eq_true]
      intro digit
      have := Token.startsWord_bounds starts
      have := Token.isDigit_bounds digit
      omega
    have field := name.scans
    rw [spelled] at field
    have access := Scans.dot.append field letter
    rw [chars, spelled]
    exact (inner.scans.append access ⟨by decide, fun _ => other⟩).mono fun _ follows => follows.1
  case derives => exact .member field inner.derives
  case complete => exact not_isBareCreate_append inner.ne_nil nofun
  case same => simp [Expr.same, inner.same]
  case opening =>
    obtain ⟨c, rest, begun, plain⟩ := inner.opening
    exact ⟨c, _, by rw [chars, begun]; rfl, plain⟩
  case inline =>
    rw [chars, List.append_cons]
    refine .append ?_ (.of_word name.1) (by simp [spelled])
    intro deep
    simpa using inner.inline.unbroken deep

end Reread

structure RereadAll (nested : Bool) (exprs : List Expr) (parts : List (List Token.Kind × Expr))
    (kinds : List Token.Kind) : Prop where
  sequence : Sequence (parts.map Prod.fst) kinds
  derives : ∀ part ∈ parts, Layer.disjunction.Derives part.1 part.2
  same : Expr.sameLists exprs (parts.map Prod.snd) = true
  scans : Scans (String.intercalate ", " (Expr.texts exprs)).toList kinds (· = ']')
  unbroken : nested = true → '\n' ∉ (String.intercalate ", " (Expr.texts exprs)).toList

theorem toList_intercalate_cons (first second : Expr) (rest : List Expr) :
    (String.intercalate ", " (Expr.texts (first :: second :: rest))).toList =
      first.text.toList ++
        ',' :: ' ' :: (String.intercalate ", " (Expr.texts (second :: rest))).toList := by
  simp [Expr.texts, String.toList_intercalate]

theorem exists_separated (first : Expr) (rest : List Expr)
    (each : ∀ expr ∈ first :: rest, expr.ReadsBack nested) :
    ∃ parts kinds, Separated (parts.map Prod.fst) kinds ∧
      RereadAll nested (first :: rest) parts kinds := by
  induction rest generalizing first with
  | nil =>
    obtain ⟨kinds, expr', reread⟩ := each first List.mem_cons_self
    have separated : Separated [kinds] kinds := by
      simpa [Parser.breaks] using Separated.last 0
    have close : ∀ c, c = ']' → first.MayPrecede c := by
      rintro c rfl
      exact mayPrecede_of_ne (by decide) (by decide)
    have alone : (String.intercalate ", " (Expr.texts [first])).toList = first.text.toList := by
      simp [Expr.texts]
    refine ⟨[(kinds, expr')], kinds, separated, ?_⟩
    constructor
    case sequence => exact .some 0 separated
    case derives => simpa using .loosen (by decide) reread.derives
    case same => simp [Expr.sameLists, reread.same]
    case scans =>
      rw [alone]
      exact reread.scans.mono close
    case unbroken =>
      rw [alone]
      exact reread.inline.unbroken
  | cons second rest ih =>
    obtain ⟨kinds, expr', reread⟩ := each first List.mem_cons_self
    obtain ⟨parts, kinds', separated, later⟩ :=
      ih second fun expr member => each expr (List.mem_cons_of_mem _ member)
    have separated' : Separated (kinds :: parts.map Prod.fst) (kinds ++ .symbol .comma :: kinds') := by
      simpa [Parser.breaks] using Separated.more 0 0 separated
    refine ⟨(kinds, expr') :: parts, kinds ++ .symbol .comma :: kinds', separated', ?_⟩
    constructor
    case sequence => exact .some 0 separated'
    case derives => simpa using ⟨.loosen (by decide) reread.derives, fun _ _ => later.derives _⟩
    case same => simpa [Expr.sameLists, reread.same] using later.same
    case scans =>
      rw [toList_intercalate_cons]
      exact reread.scans.append (Scans.mark (by decide) rfl (fun _ => rfl) later.scans.space)
        (mayPrecede_of_ne (by decide) (by decide))
    case unbroken =>
      intro deep
      rw [toList_intercalate_cons]
      simp only [List.mem_append, List.mem_cons, not_or]
      exact ⟨reread.inline.unbroken deep, by decide, by decide, later.unbroken deep⟩

theorem exists_rereadAll (exprs : List Expr) (each : ∀ expr ∈ exprs, expr.ReadsBack nested) :
    ∃ parts kinds, RereadAll nested exprs parts kinds := by
  cases exprs with
  | nil =>
    exact ⟨[], [], .none 0, by simp, rfl, .nil, by simp [Expr.texts]⟩
  | cons first rest =>
    obtain ⟨parts, kinds, -, all⟩ := exists_separated first rest each
    exact ⟨parts, kinds, all⟩

namespace RereadAll

variable {exprs : List Expr} {parts : List (List Token.Kind × Expr)} {kinds : List Token.Kind}

theorem toList_bracketed (texts : List String) :
    (bracketed texts).toList = '[' :: ((String.intercalate ", " texts).toList ++ [']']) := by
  simp [bracketed, String.toList_append]

theorem scans_bracketed {allowed : Char → Prop} (all : RereadAll nested exprs parts kinds) :
    Scans (bracketed (Expr.texts exprs)).toList
      (.symbol .openBracket :: kinds ++ [.symbol .closeBracket]) allowed := by
  have close : Scans [']'] [.symbol .closeBracket] allowed :=
    Scans.mark (by decide) rfl (fun _ => rfl) .nil
  rw [toList_bracketed]
  exact Scans.mark (by decide) rfl (fun _ => rfl) (all.scans.append close rfl)

theorem inline_bracketed (all : RereadAll nested exprs parts kinds) :
    Inline nested (bracketed (Expr.texts exprs)).toList := by
  rw [toList_bracketed, ← List.cons_append]
  refine .close ?_ (by decide)
  intro deep
  simpa using all.unbroken deep

end RereadAll

namespace Reread

variable {exprs : List Expr} {parts : List (List Token.Kind × Expr)} {kinds : List Token.Kind}

theorem list (all : RereadAll nested exprs parts kinds) :
    Reread nested (.list exprs) (.symbol .openBracket :: kinds ++ [.symbol .closeBracket])
      (.list (parts.map Prod.snd)) where
  scans := all.scans_bracketed
  derives := .loosen (by decide) (.list all.sequence all.derives)
  complete := by
    rintro ⟨type, same⟩
    cases same
  same := all.same
  opening := ⟨'[', _, RereadAll.toList_bracketed _, by decide⟩
  inline := all.inline_bracketed

theorem create {type : String} (name : IsName type) (all : RereadAll nested exprs parts kinds) :
    Reread nested (.create type exprs)
      (.keyword .create :: .name type :: .symbol .openBracket :: kinds ++ [.symbol .closeBracket])
      (.create type (parts.map Prod.snd)) := by
  have chars : (Expr.create type exprs).text.toList =
      Keyword.create.spelling.toList ++
        ' ' :: (type.toList ++ ' ' :: (bracketed (Expr.texts exprs)).toList) := by
    simp [Expr.text, String.toList_append]
  constructor
  case scans =>
    rw [chars]
    exact (Token.scans_keyword .create).append
      (name.scans.append all.scans_bracketed.space (by decide)).space (by decide)
  case derives => exact .loosen (by decide) (.create all.sequence all.derives)
  case complete =>
    rintro ⟨type, same⟩
    cases same
  case same => simp [Expr.same, all.same]
  case opening => exact ⟨'e', _, by rw [chars]; rfl, by decide⟩
  case inline =>
    have split : (Expr.create type exprs).text.toList =
        Keyword.create.spelling.toList ++ ' ' :: (type.toList ++ [' ']) ++
          (bracketed (Expr.texts exprs)).toList := by
      simp [chars]
    rw [split]
    refine .append ?_ all.inline_bracketed (by simp [RereadAll.toList_bracketed])
    intro deep
    simp only [List.mem_append, List.mem_cons, List.not_mem_nil, not_or]
    exact ⟨by decide, by decide, (Inline.of_word name.1).unbroken deep, by decide, not_false⟩

end Reread

end Expr

theorem Sequence.readsBack {nested : Bool} {parts : List (List Token.Kind × Expr)}
    {kinds : List Token.Kind} (sequence : Sequence (parts.map Prod.fst) kinds)
    (each : ∀ part ∈ parts, (∀ kind ∈ part.1, kind.Named) → part.2.isPlain nested = true →
      part.2.ReadsBack nested)
    (named : ∀ kind ∈ kinds, kind.Named)
    (plain : Expr.arePlain nested (parts.map Prod.snd) = true) :
    ∀ expr ∈ parts.map Prod.snd, expr.ReadsBack nested := by
  intro expr member
  have plain := Expr.arePlain_iff.mp plain expr member
  obtain ⟨part, inside, rfl⟩ := List.mem_map.mp member
  have among := sequence.subset (List.mem_map_of_mem inside)
  exact each part inside (fun kind here => named kind (among here)) plain

theorem Layer.Derives.reads_back {nested : Bool} {layer : Layer} {kinds : List Token.Kind} {expr : Expr}
    (derives : layer.Derives kinds expr) (named : ∀ kind ∈ kinds, kind.Named)
    (plain : expr.isPlain nested = true) : expr.ReadsBack nested := by
  induction derives with
  | loosen _ _ ih => exact ih named plain
  | group _ ih =>
    -- The printer writes parentheses of its own, so a group leaves no trace in the text.
    simp only [List.cons_append, List.forall_mem_cons, List.forall_mem_append] at named
    exact ih named.2.1 plain
  | name id => exact ⟨_, _, .name (named _ List.mem_cons_self)⟩
  | integer read => exact ⟨_, _, .integer (Decimal.nonneg_of_integer? read)⟩
  | decimal read =>
    obtain ⟨y, read', same⟩ := Decimal.readsBack_iff.mp plain
    exact ⟨_, _, .float read' same⟩
  | string text => exact ⟨_, _, .string plain⟩
  | boolean value => exact ⟨_, _, .boolean value⟩
  | negation _ ih | signed _ _ _ ih =>
    obtain ⟨_, _, inner⟩ := ih (List.forall_mem_cons.mp named).2 plain
    exact ⟨_, _, .unary _ inner⟩
  | step op _ _ ih =>
    obtain ⟨_, _, inner⟩ := ih (List.forall_mem_append.mp named).1 plain
    exact ⟨_, _, .unary op inner⟩
  | member field _ ih =>
    rw [List.forall_mem_append] at named
    rw [Expr.isPlain, Bool.and_eq_true, Bool.not_eq_true'] at plain
    obtain ⟨_, _, inner⟩ := ih named.1 plain.1
    exact ⟨_, _, .member inner (named.2 (.name field) (by simp)) plain.2⟩
  | disjunction _ _ ih ih' | conjunction _ _ ih ih' =>
    rw [List.forall_mem_append, List.forall_mem_cons] at named
    rw [Expr.isPlain, Bool.and_eq_true] at plain
    obtain ⟨_, _, first⟩ := ih named.1 plain.1
    obtain ⟨_, _, second⟩ := ih' named.2.2 plain.2
    exact ⟨_, _, .logical _ first second⟩
  | comparison op _ _ ih ih' =>
    rw [List.forall_mem_append, List.forall_mem_cons] at named
    rw [Expr.isPlain, Bool.and_eq_true] at plain
    obtain ⟨_, _, first⟩ := ih named.1 plain.1
    obtain ⟨_, _, second⟩ := ih' named.2.2 plain.2
    exact ⟨_, _, .comparison op first second⟩
  | sum op _ _ _ ih ih' | product op _ _ _ ih ih' =>
    rw [List.forall_mem_append, List.forall_mem_cons] at named
    rw [Expr.isPlain, Bool.and_eq_true] at plain
    obtain ⟨_, _, first⟩ := ih named.1 plain.1
    obtain ⟨_, _, second⟩ := ih' named.2.2 plain.2
    exact ⟨_, _, .arithmetic op first second⟩
  | index _ _ _ ih ih' =>
    rw [List.forall_mem_append, List.forall_mem_cons, List.forall_mem_append] at named
    rw [Expr.isPlain, Bool.and_eq_true] at plain
    obtain ⟨_, _, first⟩ := ih named.1 plain.1
    obtain ⟨_, _, second⟩ := ih' named.2.2.1 plain.2
    exact ⟨_, _, .index first second⟩
  | bareCreate type =>
    have none : ∀ expr ∈ ([] : List Expr), expr.ReadsBack nested := nofun
    obtain ⟨_, _, all⟩ := Expr.exists_rereadAll [] none
    exact ⟨_, _, .create (named (.name type) (by simp)) all⟩
  | list sequence _ ih =>
    simp only [List.cons_append, List.forall_mem_cons, List.forall_mem_append] at named
    obtain ⟨_, _, all⟩ := Expr.exists_rereadAll _ (sequence.readsBack ih named.2.1 plain)
    exact ⟨_, _, .list all⟩
  | @create type _ _ sequence _ ih =>
    simp only [List.cons_append, List.forall_mem_cons, List.forall_mem_append] at named
    obtain ⟨_, _, all⟩ := Expr.exists_rereadAll _ (sequence.readsBack ih named.2.2.2.1 plain)
    exact ⟨_, _, .create named.2.1 all⟩

end ByNeed
