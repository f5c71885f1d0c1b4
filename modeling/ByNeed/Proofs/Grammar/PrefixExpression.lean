import ByNeed.Proofs.Grammar.Expression
import ByNeed.Proofs.Grammar.Prefix

set_option autoImplicit false

namespace ByNeed.Parser

variable {limit : Nat} {precedence : Precedence}

theorem Heads.stops {kind : Token.Kind} {tokens : List Token} (heads : Heads kind tokens)
    (weak : Precedence.ofKind kind ≤ precedence) : Stops precedence tokens := by
  obtain ⟨token, later, rfl, rfl⟩ := eq_cons_of_head? heads
  intro found same
  cases same
  exact weak

structure Predictive (parse : Nat → Precedence → Parser Expr) (limit : Nat) : Prop where
  predicts : ∀ precedence, precedence ≤ .unary →
    Predicts (fun fuel => parse fuel precedence) (Stops precedence) (Heads (.name "x")) limit
  needs : ∀ precedence, FailsWith (fun fuel => parse fuel precedence) [] (.endOfInput .expression)

variable {parse : Nat → Precedence → Parser Expr}

theorem stops_nil (precedence : Precedence) : Stops precedence [] := by
  simp [Stops]

theorem Predictive.more (predictive : Predictive parse limit) :
    Predictive (fun fuel => parse (fuel + 1)) limit where
  predicts precedence used := (Follows.more _).predicts (predictive.predicts precedence used)
  needs precedence := (Follows.more _).failsWith (predictive.needs precedence)

theorem Predictive.mono (predictive : Predictive parse limit) {limit' : Nat} (less : limit' ≤ limit) :
    Predictive parse limit' where
  predicts precedence used := (predictive.predicts precedence used).mono less
  needs := predictive.needs

section Elements

def separated (more : Parser (List Expr)) (found : List Expr) : Parser (List Expr) := do
  let token ← next?
  match token.map Token.kind with
  | some (.symbol .comma) =>
    skipBreaks
    more
  | some (.symbol .closeBracket) => return found.reverse
  | _ => throw (.mismatch (.token (.symbol .comma)) token)

theorem elements_succ (element : Parser Expr) (fuel : Nat) (found : List Expr) :
    elements element (fuel + 1) found = (do
      let parsed ← element
      skipBreaks
      separated (elements element fuel (parsed :: found)) (parsed :: found)) := rfl

theorem separated_needs (more : Nat → Parser (List Expr)) (found : List Expr) :
    FailsWith (fun fuel => separated (more fuel) found) [] (.endOfInput (.token (.symbol .comma))) :=
  fun _ _ => ⟨[], rfl⟩

theorem separated_close (more : Nat → Parser (List Expr)) (found : List Expr) {token : Token}
    (same : token.kind = .symbol .closeBracket) :
    Takes (fun fuel => separated (more fuel) found) Any [token] found.reverse := by
  intro rest _ fuel _
  simp only [separated, List.singleton_append, next?_bind_cons, Option.map_some, same]
  rfl

theorem separated_starts (more : Nat → Parser (List Expr)) (found : List Expr) :
    Starts (fun fuel => separated (more fuel) found) Any (Heads (.symbol .closeBracket)) :=
  ⟨[sample (.symbol .closeBracket)], _, separated_close more found rfl, fun _ _ => rfl⟩

theorem predicts_separated {more : Nat → Parser (List Expr)} (found : List Expr)
    (later : Predicts more Any (Heads (.name "x")) limit) {error : SyntaxError}
    (needs : FailsWith more [] error) :
    Predicts (fun fuel => separated (more (fuel - 1)) found) Any (Heads (.symbol .closeBracket))
      (limit + 1) := by
  have starts := separated_starts (fun fuel => more (fuel - 1)) found
  refine ⟨starts, fun tokens short legible => ?_⟩
  match tokens with
  | [] => exact .ends (separated_needs (fun fuel => more (fuel - 1)) found) starts.viable
  | token :: rest =>
    by_cases isComma : token.kind = .symbol .comma
    · have spaced := later.after_breaks_needy (fun _ heads => heads.unbroken nofun) trivial needs
      refine .cons (fun fuel rest => ?_) (spaced.verdict rest (by simpa using short) legible.tail)
      simp only [separated, next?_bind_cons, Option.map_some, isComma]
      rfl
    by_cases isClose : token.kind = .symbol .closeBracket
    · exact .single _ (separated_close (fun fuel => more (fuel - 1)) found isClose)
    · refine .refuse _ (SyntaxError.mismatch_about (.token (.symbol .comma)) token) ?_ starts.viable
      intro rest' fuel _
      refine ⟨rest', ?_⟩
      simp only [separated, next?_bind_cons]
      generalize same : Option.map Token.kind (some token) = following
      split
      · exact absurd (Option.some.inj same) isComma
      · exact absurd (Option.some.inj same) isClose
      · rfl

theorem elements_needs {element : Nat → Parser Expr} {error : SyntaxError}
    (needs : FailsWith element [] error) (found : List Expr) :
    FailsWith (fun fuel => elements (element fuel) fuel found) [] error := by
  intro fuel enough
  cases fuel with
  | zero => cases enough
  | succ fuel =>
    obtain ⟨left, failed⟩ := needs (fuel + 1) enough
    exact ⟨left, by simp only [elements_succ, Bind.bind, EStateM.bind, failed]⟩

theorem elements_follows (element : Nat → Parser Expr) (found : List Expr) :
    Follows (fun fuel => elements (element fuel) fuel found) (fun fuel => do
      let parsed ← element fuel
      skipBreaks
      separated (elements (element (fuel - 1 + 1)) (fuel - 1) (parsed :: found)) (parsed :: found)) :=
  .of_succ fun fuel => elements_succ (element (fuel + 1)) fuel found

theorem predicts_elements {element : Nat → Parser Expr} {error : SyntaxError}
    (predicts : Predicts element (Stops .lowest) (Heads (.name "x")) limit)
    (needs : FailsWith element [] error) (found : List Expr) :
    Predicts (fun fuel => elements (element fuel) fuel found) Any (Heads (.name "x")) limit := by
  have unbroken (rest : List Token) (heads : Heads (.symbol .closeBracket) rest) : Unbroken rest :=
    heads.unbroken nofun
  have stops (rest : List Token) (heads : Heads (.symbol .closeBracket) rest) : Stops .lowest rest :=
    heads.stops (by decide)
  -- One turn leaves fewer tokens, so the induction is on their number. The parser of elements keeps
  -- the fuel that the loop uses up.
  induction limit generalizing element found with
  | zero =>
    have starts := predicts.starts.bind fun parsed =>
      ((separated_starts (fun fuel => elements (element (fuel - 1 + 1)) (fuel - 1) (parsed :: found))
        (parsed :: found)).after_breaks unbroken).loosen stops
    exact ((elements_follows element found).starts starts).predicts_zero
  | succ limit ih =>
    have needs' := (Follows.more element).failsWith needs
    have later (parsed : Expr) := predicts_separated (parsed :: found)
      (ih ((Follows.more element).predicts (predicts.mono (Nat.le_succ limit))) needs' (parsed :: found))
      (elements_needs needs' (parsed :: found))
    have spaced (parsed : Expr) :=
      (later parsed).after_breaks_needy unbroken trivial (separated_needs _ _)
    refine (elements_follows element found).predicts
      (predicts.bind_needy (fun parsed => (spaced parsed).loosen stops) trivial fun parsed => ?_)
    exact ⟨_, (separated_needs _ _).after_breaks⟩

theorem predicts_bracketedElements {element : Nat → Parser Expr} {error : SyntaxError}
    (predicts : Predicts element (Stops .lowest) (Heads (.name "x")) limit)
    (needs : FailsWith element [] error) :
    Predicts (fun fuel => bracketedElements (element fuel) fuel) Any Any limit := by
  have starts : Starts (fun fuel => do
      if ← accept (.symbol .closeBracket) then return []
      elements (element fuel) fuel []) Any (Heads (.symbol .closeBracket)) := by
    refine ⟨[sample (.symbol .closeBracket)], [], fun rest _ => ?_, fun _ _ => rfl⟩
    exact gives_accepted rfl fun _ _ => rfl
  have chosen := predicts_choice (starts.loosen fun _ _ => trivial)
    (predicts_pure [] fun _ _ => trivial)
    ((predicts_elements predicts needs []).loosen fun _ _ => trivial)
    fun _ takes => absurd takes (not_takes_nil trivial (elements_needs needs []))
  have spaced := (Predicts.mk starts chosen.verdict).after_breaks_needy
    (fun _ heads => heads.unbroken nofun) trivial fun fuel enough => elements_needs needs [] fuel enough
  exact spaced.loosen fun _ _ => trivial

end Elements

section Operands

theorem predicts_create (predictive : Predictive parse limit) :
    Predicts (fun fuel => do
      let type ← identifier
      if ← accept (.symbol .openBracket) then
        return Expr.create type (← bracketedElements (parse fuel .lowest) fuel)
      else return .create type []) (Stops .unary) Any limit := by
  have elements := predicts_bracketedElements (predictive.predicts .lowest (by decide))
    (predictive.needs .lowest)
  have bracket (rest : List Token) (stops : Stops .unary rest) : ¬ Heads (.symbol .openBracket) rest := by
    intro heads
    obtain ⟨token, later, rfl, same⟩ := eq_cons_of_head? heads
    have weak := stops token rfl
    rw [same] at weak
    exact absurd weak (by decide)
  have bare (type : String) : Starts (fun fuel => do
      if ← accept (.symbol .openBracket) then
        return Expr.create type (← bracketedElements (parse fuel .lowest) fuel)
      else return .create type []) (Stops .unary) Any := by
    refine ⟨[], .create type [], fun rest stops => ?_, fun _ _ => trivial⟩
    exact gives_refused (bracket rest stops) fun _ _ => rfl
  have arguments (type : String) := predicts_choice (bare type)
    ((elements.map (Expr.create type)).restrict fun _ _ => trivial)
    (predicts_pure (Expr.create type []) fun _ _ => trivial) fun _ _ => bracket
  exact (predicts_identifier.loosen fun _ _ => trivial).bind arguments fun _ _ => trivial

theorem predicts_operator (predictive : Predictive parse limit) (used : precedence ≤ .unary)
    {weaker : Precedence} (less : weaker ≤ precedence) (op : Expr → Expr) :
    Predicts (fun fuel => do return op (← parse fuel precedence)) (Stops weaker) Any limit :=
  (((predictive.predicts precedence used).map op).restrict fun _ stops => stops.mono less).loosen
    fun _ _ => trivial

theorem predicts_enclosed (predictive : Predictive parse limit) {kind : Token.Kind}
    (closing : Precedence.ofKind kind = .lowest) (build : Expr → Expr) :
    Predicts (fun fuel => do
      let inner ← parse fuel .lowest
      expect kind
      return build inner) Any Any limit := by
  have closed (inner : Expr) : Predicts (fun _ => do expect kind; return build inner) Any
      (Stops .lowest) limit :=
    ((predicts_expect kind).map fun _ => build inner).loosen fun rest heads =>
      heads.stops (by rw [closing]; decide)
  refine ((predictive.predicts .lowest (by decide)).bind_needy closed trivial fun inner => ?_).loosen
    fun _ _ => trivial
  exact ⟨_, fun _ _ => ⟨[], rfl⟩⟩

theorem operand_cases (predictive : Predictive parse limit) (used : precedence ≤ .unary)
    (token : Token) (legible : ∀ text, token.kind = .decimal text → Decimal.float? text ≠ none) :
    (∃ error : SyntaxError, error.About token ∧
      ∀ fuel rest, operand (parse fuel) fuel precedence token rest = .error error rest) ∨
    Predicts (fun fuel => operand (parse fuel) fuel precedence token) (Stops precedence) Any limit := by
  have single (expr : Expr) :
      Predicts (fun _ => (pure expr : Parser Expr)) (Stops precedence) Any limit :=
    predicts_pure expr fun _ _ => trivial
  obtain ⟨kind, span⟩ := token
  cases kind with
  | name id => exact .inr (single _)
  | integer digits =>
    cases read : Decimal.integer? digits with
    | none =>
      refine .inl ⟨.integerOutOfRange false, ⟨digits, rfl, by simpa using read⟩, fun fuel rest => ?_⟩
      simp only [operand, literalInteger, read]
      rfl
    | some value =>
      refine .inr ?_
      simp only [operand, literalInteger, read]
      exact single (.literal (.integer value))
  | decimal text =>
    obtain ⟨value, read⟩ := Option.ne_none_iff_exists'.mp (legible text rfl)
    refine .inr ?_
    simp only [operand, literalFloat, read]
    exact single (.literal (.float value))
  | string text => exact .inr (single _)
  | boolean value => exact .inr (single _)
  | illegal error => exact .inl ⟨.lexical error span, rfl, fun _ _ => rfl⟩
  | lineBreak => exact .inl ⟨.notAnExpression _, rfl, fun _ _ => rfl⟩
  | keyword word =>
    cases word with
    | negation =>
      by_cases weak : precedence ≤ .negation
      · refine .inr ?_
        simp only [operand, weak, if_true]
        exact predicts_operator predictive (by decide) weak _
      · refine .inl ⟨.notAnExpression _, rfl, fun fuel rest => ?_⟩
        simp only [operand, weak, if_false]
        rfl
    | create => exact .inr ((predicts_create predictive).restrict fun _ stops => stops.mono used)
    | _ => exact .inl ⟨.notAnExpression _, rfl, fun _ _ => rfl⟩
  | symbol mark =>
    cases mark with
    | plus | minus | increment | decrement =>
      exact .inr (predicts_operator predictive (by decide) used _)
    | openParen =>
      exact .inr ((predicts_enclosed predictive rfl id).restrict fun _ _ => trivial)
    | openBracket =>
      have elements := predicts_bracketedElements (predictive.predicts .lowest (by decide))
        (predictive.needs .lowest)
      exact .inr ((elements.map Expr.list).restrict fun _ _ => trivial)
    | _ => exact .inl ⟨.notAnExpression _, rfl, fun _ _ => rfl⟩

theorem predicts_continued (predictive : Predictive parse limit) (left : Expr)
    {continuation : Continuation} (weaker : precedence < continuation.precedence) :
    Predicts (fun fuel => continued (parse fuel) left continuation) (Stops precedence) Any limit := by
  have less : precedence ≤ continuation.precedence := Nat.le_of_lt weaker
  cases continuation with
  | arithmetic op =>
    exact predicts_operator predictive (by cases op <;> decide) less (.arithmetic op left)
  | logical op =>
    exact predicts_operator predictive (by cases op <;> decide) less (.logical op left)
  | comparison op =>
    exact predicts_operator predictive (by decide) (Nat.le_of_lt_succ weaker) (.comparison op left)
  | step op => exact predicts_pure _ fun _ _ => trivial
  | index => exact (predicts_enclosed predictive rfl (.index left)).restrict fun _ _ => trivial
  | member =>
    exact ((predicts_identifier.map (Expr.member left)).restrict fun _ _ => trivial).loosen
      fun _ _ => trivial

end Operands

section Loop

theorem continuations_turn_eq {token : Token} {continuation : Continuation} {left : Expr}
    {rest : List Token} {parse : Precedence → Parser Expr} {count : Nat}
    (found : Continuation.ofKind? token.kind = some continuation)
    (weaker : precedence < continuation.precedence) :
    continuations parse precedence (count + 1) left (token :: rest) =
      (do
        let larger ← continued parse left continuation
        continuations parse precedence count larger : Parser Expr) rest := by
  have peeked : peek? (token :: rest) = .ok (some token.kind) (token :: rest) := rfl
  simp only [continuations, Bind.bind, EStateM.bind, peeked, Option.bind_some, found, weaker, if_true,
    next?]

theorem continuation_of_not_stops {tokens : List Token} (further : ¬ Stops precedence tokens) :
    ∃ token rest continuation, tokens = token :: rest ∧
      Continuation.ofKind? token.kind = some continuation ∧ precedence < continuation.precedence := by
  cases tokens with
  | nil => exact absurd nofun further
  | cons token rest =>
    have strong : ¬ Precedence.ofKind token.kind ≤ precedence := by
      intro weak
      refine further fun other same => ?_
      cases same
      exact weak
    rw [Precedence.ofKind] at strong
    cases found : Continuation.ofKind? token.kind with
    | none =>
      rw [found] at strong
      exact absurd (Nat.zero_le _) strong
    | some continuation =>
      rw [found] at strong
      exact ⟨token, rest, continuation, rfl, found, Nat.lt_of_not_le strong⟩

theorem predicts_continuations (predictive : Predictive parse limit) {turns : Nat → Nat}
    (ample : Ample turns) (left : Expr) :
    Predicts (fun fuel => continuations (parse fuel) precedence (turns fuel) left) (Stops precedence)
      (Stops precedence) limit := by
  have stay (parse : Nat → Precedence → Parser Expr) (turns : Nat → Nat) (left : Expr) :
      Takes (fun fuel => continuations (parse fuel) precedence (turns fuel) left)
        (Stops precedence) [] left := fun rest stops fuel _ => continuations_stop stops (turns fuel)
  induction limit generalizing parse turns left with
  | zero =>
    exact Starts.predicts_zero ⟨[], left, stay parse turns left, fun _ stops => stops⟩
  | succ limit ih =>
    refine ⟨⟨[], left, stay parse turns left, fun _ stops => stops⟩, fun tokens short legible => ?_⟩
    by_cases stops : Stops precedence tokens
    · refine .stay (stay parse turns left) fun rest' like => stay parse turns left rest' ?_
      rwa [Stops, like]
    · obtain ⟨token, rest, continuation, rfl, found, weaker⟩ := continuation_of_not_stops stops
      have shorter := predictive.more.mono (Nat.le_succ limit)
      have later := (predicts_continued shorter left weaker).bind
        (fun larger => ih shorter ample.less larger) fun _ stops => stops
      refine .cons (fun fuel rest => ?_) (later.verdict rest (by simpa using short) legible.tail)
      rw [ample.positive]
      exact continuations_turn_eq found weaker

end Loop

theorem expression_takes_name (precedence : Precedence) (id : String) (span : Span) :
    Takes (fun fuel => expression fuel precedence) (Stops precedence) [⟨.name id, span⟩] (.name id) := by
  intro rest stops fuel enough
  cases fuel with
  | zero => cases enough
  | succ fuel => exact continuations_stop stops fuel

theorem expression_needs (precedence : Precedence) :
    FailsWith (fun fuel => expression fuel precedence) [] (.endOfInput .expression) := by
  intro fuel enough
  cases fuel with
  | zero => cases enough
  | succ fuel => exact ⟨[], rfl⟩

theorem expression_cons (fuel : Nat) (precedence : Precedence) (token : Token) (rest : List Token) :
    expression (fuel + 1) precedence (token :: rest) = (do
      let left ← operand (expression fuel) fuel precedence token
      continuations (expression fuel) precedence fuel left : Parser Expr) rest := rfl

theorem predictive_expression (limit : Nat) : Predictive expression limit := by
  have starts (precedence : Precedence) :
      Starts (fun fuel => expression fuel precedence) (Stops precedence) (Heads (.name "x")) :=
    ⟨[sample (.name "x")], _, expression_takes_name precedence "x" _, fun _ _ => rfl⟩
  induction limit with
  | zero => exact ⟨fun precedence _ => (starts precedence).predicts_zero, expression_needs⟩
  | succ limit ih =>
    refine ⟨fun precedence used => ⟨starts precedence, fun tokens short legible => ?_⟩,
      expression_needs⟩
    match tokens with
    | [] => exact .ends (expression_needs precedence) (starts precedence).viable
    | token :: rest =>
      rcases operand_cases ih used token (legible token List.mem_cons_self) with
        ⟨error, about, refused⟩ | predicts
      · refine .refuse error about (fun rest' fuel enough => ?_) (starts precedence).viable
        cases fuel with
        | zero => cases enough
        | succ fuel =>
          refine ⟨rest', ?_⟩
          simp only [expression_cons, Bind.bind, EStateM.bind, refused]
      · have whole := predicts.bind
          (fun left => predicts_continuations ih (fun _ => Nat.le_refl _) left) fun _ stops => stops
        exact .cons (fun fuel rest => expression_cons fuel precedence token rest)
          (whole.verdict rest (by simpa using short) legible.tail)

end ByNeed.Parser
