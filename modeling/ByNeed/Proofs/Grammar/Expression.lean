import ByNeed.Proofs.Grammar.ExpressionSoundness

set_option autoImplicit false

-- An expression can be the left part of a larger one, so the parser is followed up to the point where it has
-- read the expression and looks for more.
namespace ByNeed

open ByNeed.Parser (breaks)

namespace Parser

section Completeness

-- The parser comes to the end of an expression of the layer with these kinds of token, wherever it stands,
-- and goes on from there.
def Completes (layer : Layer) (kinds : List Token.Kind) (expr : Expr) : Prop :=
  ∀ ⦃precedence : Precedence⦄ ⦃tokens rest : List Token⦄ ⦃fuel : Nat⦄, Reads kinds tokens rest →
    precedence ≤ layer.reading → layer.Follows kinds rest → tokens.length ≤ fuel →
    ∃ count, rest.length ≤ count ∧ ∀ result final,
      continuations (expression fuel) precedence count expr rest = .ok result final →
      expression (fuel + 1) precedence tokens = .ok result final

variable {layer : Layer} {kinds : List Token.Kind} {expr : Expr} {precedence : Precedence}
  {tokens rest : List Token} {fuel : Nat}

theorem continuations_stop {parse : Precedence → Parser Expr} (stops : Stops precedence rest)
    (count : Nat) : continuations parse precedence count expr rest = .ok expr rest := by
  cases count with
  | zero => rfl
  | succ count =>
    simp only [continuations, bind_eq_ok, peek?_eq_ok]
    refine ⟨_, _, ⟨rfl, rfl⟩, ?_⟩
    cases rest with
    | nil => rfl
    | cons token later =>
      have weaker := stops token rfl
      simp only [List.head?_cons, Option.map_some, Option.bind_some]
      cases found : Continuation.ofKind? token.kind with
      | none => rfl
      | some continuation =>
        rw [Precedence.ofKind, found] at weaker
        simp only [Precedence.not_lt_of_le weaker, if_false]
        rfl

theorem continuations_turn {token : Token} {continuation : Continuation} {left larger result : Expr}
    {later final : List Token} {count : Nat}
    (found : Continuation.ofKind? token.kind = some continuation)
    (weaker : precedence < continuation.precedence)
    (continues : continued (expression fuel) left continuation later = .ok larger rest)
    (ran : continuations (expression fuel) precedence count larger rest = .ok result final) :
    continuations (expression fuel) precedence (count + 1) left (token :: later) =
      .ok result final := by
  simp only [continuations, bind_eq_ok, peek?_eq_ok]
  refine ⟨_, _, ⟨rfl, rfl⟩, ?_⟩
  simp only [List.head?_cons, Option.map_some, Option.bind_some, found, weaker, if_true, bind_eq_ok,
    next?_eq_ok]
  exact ⟨_, _, .inr ⟨token, rfl, rfl⟩, larger, rest, continues, ran⟩

-- Where the parser stops, an expression of any layer is complete.
theorem follows_of_stops (within : precedence ≤ layer.reading) (stops : Stops precedence rest) :
    layer.Follows kinds rest := by
  refine ⟨stops.mono (Precedence.le_trans within layer.reading_le_limit), fun _ bracket => ?_⟩
  obtain ⟨token, found, same⟩ := Option.map_eq_some_iff.mp bracket
  have strong := stops token found
  rw [same] at strong
  have weak := Precedence.le_trans strong (Precedence.le_trans within layer.reading_le_unary)
  exact absurd weak (by decide)

theorem Completes.run (completes : Completes layer kinds expr)
    (within : precedence ≤ layer.reading) (reads : Reads kinds tokens rest)
    (stops : Stops precedence rest) (enough : tokens.length < fuel) :
    expression fuel precedence tokens = .ok expr rest := by
  cases fuel with
  | zero => cases enough
  | succ fuel =>
    obtain ⟨count, _, run⟩ :=
      completes reads within (follows_of_stops within stops) (Nat.le_of_lt_succ enough)
    exact run _ _ (continuations_stop stops count)

-- An expression that is all operand.
theorem completes_operand {kind : Token.Kind}
    (parses : ∀ {precedence : Precedence} {token : Token} {tokens rest : List Token} {fuel : Nat},
      token.kind = kind → Reads kinds tokens rest → precedence ≤ layer.reading →
      layer.Follows (kind :: kinds) rest → tokens.length < fuel →
      operand (expression fuel) fuel precedence token tokens = .ok expr rest) :
    Completes layer (kind :: kinds) expr := by
  rintro precedence _ rest fuel ⟨token, tokens, rfl, same, reads⟩ within follows enough
  have length := reads.length
  simp only [List.length_cons] at enough
  refine ⟨fuel, by omega, fun result final ran => ?_⟩
  simp only [expression, bind_eq_ok, next?_eq_ok]
  refine ⟨_, _, .inr ⟨token, rfl, rfl⟩, ?_⟩
  simp only [bind_eq_ok]
  exact ⟨expr, rest, parses same reads within follows (by omega), ran⟩

-- An expression that a continuation makes of what stands before it.
theorem completes_continued {before : Layer} {first second : List Token.Kind} {left : Expr}
    {continuation : Continuation} {kind : Token.Kind} (completes : Completes before first left)
    (found : Continuation.ofKind? kind = some continuation)
    (weaker : layer.reading < continuation.precedence) (within : layer.reading ≤ before.reading)
    (allowed : continuation.precedence ≤ before.limit)
    (complete : kind = .symbol .openBracket → ¬ IsBareCreate first)
    (continues : ∀ {tokens rest : List Token} {fuel : Nat}, Reads second tokens rest →
      layer.Follows (first ++ kind :: second) rest → tokens.length < fuel →
      continued (expression fuel) left continuation tokens = .ok expr rest) :
    Completes layer (first ++ kind :: second) expr := by
  intro precedence tokens rest fuel reads loose follows enough
  obtain ⟨_, reads, token, later, rfl, same, reads'⟩ := Reads.append_iff.mp reads
  have length := reads.length
  have length' := reads'.length
  simp only [List.length_cons] at length
  have follows' : before.Follows first (token :: later) := by
    refine ⟨?_, fun bare bracket => complete ?_ bare⟩
    · rintro _ ⟨⟩
      rwa [Precedence.ofKind, same, found]
    · simpa [same] using bracket
  obtain ⟨count, most, run⟩ := completes reads (Precedence.le_trans loose within) follows' enough
  cases count with
  | zero => cases most
  | succ count =>
    simp only [List.length_cons] at most
    refine ⟨count, by omega, fun result final ran => run _ _ ?_⟩
    exact continuations_turn (same ▸ found) (Precedence.lt_of_le_of_lt loose weaker)
      (continues reads' follows (by omega)) ran

-- The operand after an operator is read at the precedence that the grammar asks for.
theorem completes_binary {before after : Layer} {first second : List Token.Kind}
    {left right : Expr} {continuation : Continuation} {kind : Token.Kind} {build : Expr → Expr}
    (completes : Completes before first left) (completes' : Completes after second right)
    (found : Continuation.ofKind? kind = some continuation) (other : kind ≠ .symbol .openBracket)
    (opens : ∀ fuel, continued (expression fuel) left continuation =
      (do return build (← expression fuel precedence)))
    (weaker : layer.reading < continuation.precedence) (within : layer.reading ≤ before.reading)
    (allowed : continuation.precedence ≤ before.limit) (within' : precedence ≤ after.reading)
    (ends : layer.limit ≤ precedence) :
    Completes layer (first ++ kind :: second) (build right) := by
  refine completes_continued completes found weaker within allowed
    (fun bracket => absurd bracket other) ?_
  intro tokens rest fuel reads follows enough
  rw [opens, bind_eq_ok]
  exact ⟨right, rest, completes'.run within' reads (follows.1.mono ends) enough, rfl⟩

theorem stops_of_breaks {count : Nat} {kind : Token.Kind} {more : List Token.Kind}
    (reads : Reads (breaks count ++ kind :: more) tokens rest)
    (closing : Continuation.ofKind? kind = none) : Stops precedence tokens := by
  cases count with
  | zero =>
    obtain ⟨token, later, rfl, same, _⟩ := reads
    exact stops_of_none (same ▸ closing)
  | succ count =>
    obtain ⟨token, later, rfl, same, _⟩ := reads
    exact stops_of_none (same ▸ rfl)

theorem not_break_of_starts {first : Token.Kind} (starts : startsExpr first = true)
    (reads : Reads (first :: kinds) tokens rest) :
    tokens.head?.map Token.kind ≠ some .lineBreak := by
  obtain ⟨token, later, rfl, same, _⟩ := reads
  rintro found
  simp only [List.head?_cons, Option.map_some, Option.some.injEq] at found
  rw [← same, found] at starts
  cases starts

-- One element and the line breaks after it.
theorem element_complete {after : Nat} {kind : Token.Kind} {more : List Token.Kind}
    (completes : Completes .disjunction kinds expr)
    (reads : Reads (kinds ++ breaks after ++ kind :: more) tokens rest)
    (closing : Continuation.ofKind? kind = none) (other : kind ≠ .lineBreak)
    (enough : tokens.length < fuel) :
    ∃ middle token later, expression fuel .lowest tokens = .ok expr middle ∧
      skipBreaks middle = .ok () (token :: later) ∧ token.kind = kind ∧ Reads more later rest ∧
      later.length < tokens.length := by
  rw [List.append_assoc, Reads.append_iff] at reads
  obtain ⟨middle, reads, reads'⟩ := reads
  have length := reads.length
  have parsed : expression fuel .lowest tokens = .ok expr middle :=
    completes.run (by decide) reads (stops_of_breaks reads' closing) enough
  obtain ⟨_, skipped, token, later, rfl, same, reads'⟩ := Reads.append_iff.mp reads'
  have length' := skipped.length
  simp only [List.length_cons] at length'
  refine ⟨middle, token, later, parsed, skipBreaks_eq_ok.mpr ⟨⟨after, skipped⟩, ?_⟩, same, reads',
    by omega⟩
  simpa [same] using other

theorem elements_complete {parts : List (List Token.Kind)} (separated : Separated parts kinds) :
    ∀ (found : List Expr) {parsed : List (List Token.Kind × Expr)} {tokens rest : List Token}
      {count : Nat}, parts = parsed.map Prod.fst →
    (∀ element ∈ parsed, Layer.disjunction.Derives element.1 element.2) →
    (∀ element ∈ parsed, Completes .disjunction element.1 element.2) →
    Reads (kinds ++ [.symbol .closeBracket]) tokens rest → tokens.length < fuel →
    tokens.length ≤ count →
    elements (expression fuel .lowest) count found tokens =
      .ok (found.reverse ++ parsed.map Prod.snd) rest := by
  induction separated with
  | @last part after =>
    intro found parsed tokens rest count same derives completes reads enough most
    obtain ⟨⟨_, expr⟩, rfl, rfl⟩ := List.map_eq_singleton_iff.mp same.symm
    obtain ⟨middle, token, later, ran, skipped, close, rfl, shorter⟩ :=
      element_complete (completes _ List.mem_cons_self) reads rfl (by simp) enough
    cases count with
    | zero => omega
    | succ count =>
      simp only [elements, bind_eq_ok, next?_eq_ok]
      refine ⟨expr, middle, ran, (), _, skipped, _, _, .inr ⟨token, rfl, rfl⟩, ?_⟩
      simp [close, pure_eq_ok]
  | @more part parts kinds after before separated ih =>
    intro found parsed tokens rest count same derives completes reads enough most
    obtain ⟨⟨_, expr⟩, parsed, rfl, rfl, rfl⟩ := List.map_eq_cons_iff.mp same.symm
    have each (part) (member : part ∈ parsed.map Prod.fst) :
        ∃ first others, part = first :: others ∧ startsExpr first = true := by
      obtain ⟨element, inside, rfl⟩ := List.mem_map.mp member
      exact (derives element (List.mem_cons_of_mem _ inside)).starts
    obtain ⟨first, others, rfl, starts⟩ := separated.starts each
    rw [List.append_assoc, List.append_assoc, List.cons_append] at reads
    obtain ⟨middle, token, later, ran, skipped, comma, reads, shorter⟩ :=
      element_complete (completes _ List.mem_cons_self) reads rfl (by simp) enough
    obtain ⟨tokens', skipped', reads⟩ := Reads.append_iff.mp reads
    have length := skipped'.length
    cases count with
    | zero => omega
    | succ count =>
      simp only [elements, bind_eq_ok, next?_eq_ok]
      refine ⟨expr, middle, ran, (), _, skipped, _, _, .inr ⟨token, rfl, rfl⟩, ?_⟩
      simp only [Option.map_some, comma, bind_eq_ok]
      refine ⟨(), tokens', skipBreaks_eq_ok.mpr ⟨⟨before, skipped'⟩, not_break_of_starts starts reads⟩, ?_⟩
      have fewer : tokens'.length ≤ count := by omega
      have others := ih (expr :: found) rfl (fun element member => derives element (List.mem_cons_of_mem _ member))
        (fun element member => completes element (List.mem_cons_of_mem _ member)) reads (by omega)
        fewer
      simpa using others

theorem bracketedElements_complete {parsed : List (List Token.Kind × Expr)}
    (sequence : Sequence (parsed.map Prod.fst) kinds)
    (derives : ∀ element ∈ parsed, Layer.disjunction.Derives element.1 element.2)
    (completes : ∀ element ∈ parsed, Completes .disjunction element.1 element.2)
    (reads : Reads (kinds ++ [.symbol .closeBracket]) tokens rest)
    (enough : tokens.length < fuel) :
    bracketedElements (expression fuel .lowest) fuel tokens =
      .ok (parsed.map Prod.snd) rest := by
  simp only [bracketedElements, bind_eq_ok, skipBreaks_eq_ok, accept_eq_ok]
  generalize sameParts : parsed.map Prod.fst = parts at sequence
  cases sequence with
  | none count =>
    obtain rfl := List.map_eq_nil_iff.mp sameParts
    obtain ⟨middle, skipped, close⟩ := Reads.append_iff.mp reads
    refine ⟨(), middle, ⟨⟨count, skipped⟩, ?_⟩, true, rest, .inl ⟨rfl, close⟩, rfl⟩
    obtain ⟨token, later, rfl, same, _⟩ := close
    simp [same]
  | @some parts kinds before separated =>
    have each (part) (member : part ∈ parts) :
        ∃ first others, part = first :: others ∧ startsExpr first = true := by
      rw [← sameParts] at member
      obtain ⟨element, inside, rfl⟩ := List.mem_map.mp member
      exact (derives element inside).starts
    rw [List.append_assoc] at reads
    obtain ⟨middle, skipped, reads⟩ := Reads.append_iff.mp reads
    have length := skipped.length
    have less : middle.length < fuel := by omega
    have ran := elements_complete separated [] sameParts.symm derives completes reads less
      (Nat.le_of_lt less)
    obtain ⟨first, others, rfl, starts⟩ := separated.starts each
    refine ⟨(), middle, ⟨⟨before, skipped⟩, not_break_of_starts starts reads⟩, false, middle,
      .inr ⟨rfl, rfl, ?_⟩, by simpa using ran⟩
    obtain ⟨token, later, rfl, same, _⟩ := reads
    rintro found
    simp only [List.head?_cons, Option.map_some, Option.some.injEq] at found
    rw [← same, found] at starts
    cases starts

theorem completes_list {parsed : List (List Token.Kind × Expr)}
    (sequence : Sequence (parsed.map Prod.fst) kinds)
    (derives : ∀ element ∈ parsed, Layer.disjunction.Derives element.1 element.2)
    (completes : ∀ element ∈ parsed, Completes .disjunction element.1 element.2) :
    Completes .primary (.symbol .openBracket :: kinds ++ [.symbol .closeBracket])
      (.list (parsed.map Prod.snd)) := by
  refine completes_operand fun same reads _ _ enough => ?_
  simp only [operand, same, bind_eq_ok, pure_eq_ok]
  exact ⟨_, _, bracketedElements_complete sequence derives completes reads enough, rfl, rfl⟩

theorem completes_create {parsed : List (List Token.Kind × Expr)} {type : String}
    (sequence : Sequence (parsed.map Prod.fst) kinds)
    (derives : ∀ element ∈ parsed, Layer.disjunction.Derives element.1 element.2)
    (completes : ∀ element ∈ parsed, Completes .disjunction element.1 element.2) :
    Completes .primary
      (.keyword .create :: .name type :: .symbol .openBracket :: kinds ++ [.symbol .closeBracket])
      (.create type (parsed.map Prod.snd)) := by
  refine completes_operand fun same reads _ _ enough => ?_
  obtain ⟨name, _, rfl, sameName, bracket, later, rfl, sameBracket, reads⟩ := reads
  simp only [List.length_cons] at enough
  simp only [operand, same, bind_eq_ok, identifier_eq_ok, accept_eq_ok]
  refine ⟨type, _, .one sameName, true, _, .inl ⟨rfl, .one sameBracket⟩, ?_⟩
  simp only [if_true, bind_eq_ok, pure_eq_ok]
  exact ⟨_, _, bracketedElements_complete sequence derives completes reads (by omega), rfl, rfl⟩

theorem completes_bareCreate (type : String) :
    Completes .primary [.keyword .create, .name type] (.create type []) := by
  refine completes_operand fun same reads _ follows _ => ?_
  obtain ⟨name, _, rfl, sameName, rfl⟩ := reads
  simp only [operand, same, bind_eq_ok, identifier_eq_ok, accept_eq_ok]
  exact ⟨type, _, .one sameName, false, _, .inr ⟨rfl, rfl, follows.2 ⟨type, rfl⟩⟩, rfl⟩

theorem completes_signed {op : UnaryOp} (sign : op ∈ [.plus, .minus, .increment, .decrement])
    (completes : Completes .signed kinds expr) :
    Completes .signed (op.kind :: kinds) (.unary op expr) := by
  refine completes_operand ?_
  intro precedence token tokens rest fuel same reads within follows enough
  have ran := completes.run (by decide) reads follows.1 enough
  cases op with
  | negation => simp at sign
  | _ =>
    simp only [operand, same, UnaryOp.kind, bind_eq_ok, pure_eq_ok]
    exact ⟨_, _, ran, rfl, rfl⟩

theorem completes_of_derives (derives : layer.Derives kinds expr) : Completes layer kinds expr := by
  induction derives with
  | loosen tighter _ ih =>
    -- A looser layer is read at a lower precedence and may be followed by fewer tokens.
    intro precedence tokens rest fuel reads within follows enough
    exact ih reads (Precedence.le_trans within (Layer.reading_mono tighter))
      ⟨follows.1.mono (Layer.limit_mono tighter), follows.2⟩ enough
  | disjunction _ _ ih ih' =>
    exact completes_binary ih ih' rfl (by decide) (fun _ => rfl) (by decide) (by decide) (by decide)
      (by decide) (by decide)
  | conjunction _ _ ih ih' =>
    exact completes_binary ih ih' rfl (by decide) (fun _ => rfl) (by decide) (by decide) (by decide)
      (by decide) (by decide)
  | negation _ ih =>
    refine completes_operand fun same reads within follows enough => ?_
    have allowed := within
    simp only [Layer.reading] at allowed
    simp only [operand, same, UnaryOp.kind, allowed, if_true, bind_eq_ok, pure_eq_ok]
    exact ⟨_, _, ih.run (by decide) reads follows.1 enough, rfl, rfl⟩
  | comparison op _ _ ih ih' =>
    have found : Continuation.ofKind? op.kind = some (.comparison op) := by cases op <;> rfl
    have weaker : Layer.comparison.reading < Precedence.comparison := by decide
    have allowed : Precedence.comparison ≤ Layer.sum.limit := by decide
    exact completes_binary ih ih' found (by cases op <;> decide) (fun _ => rfl) weaker (by decide)
      allowed (by decide) (by decide)
  | sum op additive _ _ ih ih' =>
    cases op with
    | add | subtract =>
      exact completes_binary ih ih' rfl (by decide) (fun _ => rfl) (by decide) (by decide) (by decide)
        (by decide) (by decide)
    | _ => simp at additive
  | product op multiplicative _ _ ih ih' =>
    cases op with
    | multiply | divide | modulo =>
      exact completes_binary ih ih' rfl (by decide) (fun _ => rfl) (by decide) (by decide) (by decide)
        (by decide) (by decide)
    | _ => simp at multiplicative
  | signed op sign _ ih => exact completes_signed sign ih
  | step op step _ ih =>
    cases op with
    | increment | decrement =>
      refine completes_continued ih rfl (by decide) (by decide) (by decide)
        (fun bracket => by cases bracket) ?_
      rintro tokens rest fuel rfl _ _
      rfl
    | _ => simp at step
  | index _ complete _ ih ih' =>
    refine completes_continued ih rfl (by decide) (by decide) (by decide) (fun _ => complete) ?_
    intro tokens rest fuel reads _ enough
    obtain ⟨middle, reads, close⟩ := Reads.append_iff.mp reads
    simp only [continued, bind_eq_ok, pure_eq_ok, expect_eq_ok]
    refine ⟨_, _, ih'.run (by decide) reads ?_ enough, (), _, close, rfl, rfl⟩
    -- The position may be anything up to the closing bracket, which continues no expression.
    obtain ⟨token, _, rfl, same, _⟩ := close
    exact stops_of_none (same ▸ rfl)
  | member field _ ih =>
    refine completes_continued ih rfl (by decide) (by decide) (by decide)
      (fun bracket => by cases bracket) ?_
    intro tokens rest fuel reads _ _
    simp only [continued, bind_eq_ok, pure_eq_ok, identifier_eq_ok]
    exact ⟨field, _, reads, rfl, rfl⟩
  | name id =>
    refine completes_operand fun same reads _ _ _ => ?_
    simp [operand, same, pure_eq_ok, Reads.nil_iff.mp reads]
  | integer read =>
    refine completes_operand fun same reads _ _ _ => ?_
    simp only [operand, same, bind_eq_ok, pure_eq_ok, literalInteger_eq_ok]
    exact ⟨_, _, ⟨_, read, rfl, reads⟩, rfl, rfl⟩
  | decimal read =>
    refine completes_operand fun same reads _ _ _ => ?_
    simp only [operand, same, bind_eq_ok, pure_eq_ok, literalFloat_eq_ok]
    exact ⟨_, _, ⟨read, reads⟩, rfl, rfl⟩
  | string text =>
    refine completes_operand fun same reads _ _ _ => ?_
    simp [operand, same, pure_eq_ok, Reads.nil_iff.mp reads]
  | boolean value =>
    refine completes_operand fun same reads _ _ _ => ?_
    simp [operand, same, pure_eq_ok, Reads.nil_iff.mp reads]
  | group _ ih =>
    refine completes_operand fun same reads _ _ enough => ?_
    obtain ⟨middle, reads, close⟩ := Reads.append_iff.mp reads
    simp only [operand, same, bind_eq_ok, pure_eq_ok, expect_eq_ok]
    refine ⟨_, _, ih.run (by decide) reads ?_ enough, (), _, close, rfl, rfl⟩
    obtain ⟨token, _, rfl, same, _⟩ := close
    exact stops_of_none (same ▸ rfl)
  | list sequence derives ih => exact completes_list sequence derives ih
  | bareCreate type => exact completes_bareCreate type
  | create sequence derives ih => exact completes_create sequence derives ih

end Completeness

theorem expression_eq_ok {precedence : Precedence} (used : precedence ≤ .unary)
    {tokens rest : List Token} {expr : Expr} {fuel : Nat} (enough : tokens.length < fuel) :
    expression fuel precedence tokens = .ok expr rest ↔
      ∃ kinds, Reads kinds tokens rest ∧ precedence.layer.Derives kinds expr ∧
        Stops precedence rest := by
  refine ⟨expression_sound fuel enough, ?_⟩
  rintro ⟨kinds, reads, derives, stops⟩
  exact (completes_of_derives derives).run (Precedence.le_reading_layer used) reads stops enough

end Parser

/-- At each precedence at which operands are read, parsing takes the tokens of an expression of the
layer that belongs to it, and as many of them as the next token allows. -/
theorem parse_iff_derives {precedence : Precedence} (used : precedence ≤ .unary)
    (tokens rest : List Token) (expr : Expr) :
    Expr.parse precedence tokens = .ok expr rest ↔
      ∃ consumed, tokens = consumed ++ rest ∧
        precedence.layer.Derives (consumed.map Token.kind) expr ∧ Stops precedence rest := by
  rw [Expr.parse, Parser.expression_eq_ok used (Nat.lt_succ_self _)]
  constructor
  · rintro ⟨kinds, reads, derives, stops⟩
    obtain ⟨consumed, rfl, rfl⟩ := Reads.iff_append.mp reads
    exact ⟨consumed, rfl, derives, stops⟩
  · rintro ⟨consumed, rfl, derives, stops⟩
    exact ⟨_, Reads.iff_append.mpr ⟨consumed, rfl, rfl⟩, derives, stops⟩

theorem parse_product_operand :
    Precedence.sum ≤ .unary ∧
      Expr.parse .sum
        [⟨.name "a", ⟨0, 1⟩⟩, ⟨.symbol .times, ⟨2, 3⟩⟩, ⟨.name "b", ⟨4, 5⟩⟩,
          ⟨.symbol .plus, ⟨6, 7⟩⟩, ⟨.name "c", ⟨8, 9⟩⟩] =
        .ok (.arithmetic .multiply (.name "a") (.name "b"))
          [⟨.symbol .plus, ⟨6, 7⟩⟩, ⟨.name "c", ⟨8, 9⟩⟩] := by
  refine ⟨by decide, (parse_iff_derives (by decide) _ _ _).mpr
    ⟨[⟨.name "a", ⟨0, 1⟩⟩, ⟨.symbol .times, ⟨2, 3⟩⟩, ⟨.name "b", ⟨4, 5⟩⟩], rfl, ?_, ?_⟩⟩
  · exact .product .multiply (by decide) (.loosen (by decide) (.name "a"))
      (.loosen (by decide) (.name "b"))
  · rintro _ ⟨⟩
    decide

end ByNeed
