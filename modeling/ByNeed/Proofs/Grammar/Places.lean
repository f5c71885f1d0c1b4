import ByNeed.Grammar.Statement

set_option autoImplicit false

namespace ByNeed

variable {place : Span → Span}

def Token.move (place : Span → Span) (token : Token) : Token :=
  { token with span := place token.span }

def SyntaxError.move (place : Span → Span) : SyntaxError → SyntaxError
  | .unexpected expected token => .unexpected expected (token.move place)
  | .notAnExpression token => .notAnExpression (token.move place)
  | .notAPattern token => .notAPattern (token.move place)
  | .lexical error span => .lexical error (place span)
  | .endOfInput expected => .endOfInput expected
  | .integerOutOfRange negative => .integerOutOfRange negative
  | .malformedFloat => .malformedFloat

theorem SyntaxError.move_mismatch (expected : Expected) (found : Option Token) :
    (SyntaxError.mismatch expected found).move place =
      .mismatch expected (found.map (Token.move place)) := by
  cases found with
  | none => rfl
  | some token =>
    obtain ⟨kind, span⟩ := token
    cases kind <;> rfl

namespace Parser

variable {α β : Type}

def moved (place : Span → Span) :
    EStateM.Result SyntaxError (List Token) α → EStateM.Result SyntaxError (List Token) α
  | .ok value rest => .ok value (rest.map (Token.move place))
  | .error error rest => .error (error.move place) (rest.map (Token.move place))

def Mirrors (place : Span → Span) (parser parser' : Parser α) : Prop :=
  ∀ tokens : List Token, parser' (tokens.map (Token.move place)) = moved place (parser tokens)

def Blind (place : Span → Span) (parser : Parser α) : Prop :=
  Mirrors place parser parser

theorem Mirrors.bind {parser parser' : Parser α} {next next' : α → Parser β}
    (first : Mirrors place parser parser') (second : ∀ value, Mirrors place (next value) (next' value)) :
    Mirrors place (parser >>= next) (parser' >>= next') := by
  intro tokens
  have here := first tokens
  simp only [Bind.bind, EStateM.bind, here]
  cases parser tokens with
  | error error rest => rfl
  | ok value rest => exact second value rest

theorem Blind.bind {parser : Parser α} {next : α → Parser β} (first : Blind place parser)
    (second : ∀ value, Blind place (next value)) : Blind place (parser >>= next) :=
  Mirrors.bind first second

theorem blind_pure (value : α) : Blind place (pure value : Parser α) :=
  fun _ => rfl

theorem mirrors_throw (error : SyntaxError) :
    Mirrors place (throw error : Parser α) (throw (error.move place)) :=
  fun _ => rfl

theorem Blind.map {parser : Parser α} (blind : Blind place parser) (change : α → β) :
    Blind place (change <$> parser) := by
  rw [← bind_pure_comp]
  exact blind.bind fun value => blind_pure (change value)

section Primitives

theorem blind_next {next : Option Token → Parser α}
    (second : ∀ found, Mirrors place (next found) (next (found.map (Token.move place)))) :
    Blind place (next? >>= next) := by
  intro tokens
  cases tokens with
  | nil => exact second none []
  | cons token rest => exact second (some token) rest

-- The token is not looked at.
theorem blind_skip {next : Parser α} (second : Blind place next) :
    Blind place (do let _ ← next?; next) :=
  blind_next fun _ => second

theorem blind_peek : Blind place peek? := by
  intro tokens
  cases tokens <;> rfl

theorem blind_accept (kind : Token.Kind) : Blind place (accept kind) := by
  intro tokens
  cases tokens with
  | nil => rfl
  | cons token rest =>
    by_cases same : token.kind = kind <;> simp [accept, Token.move, moved, same]

theorem blind_expect (kind : Token.Kind) : Blind place (expect kind) := by
  intro tokens
  cases tokens with
  | nil => rfl
  | cons token rest =>
    by_cases same : token.kind = kind
    · simp [expect, Token.move, moved, same]
    · have mismatch := @SyntaxError.move_mismatch place (.token kind) (some token)
      simpa [expect, Token.move, moved, same] using mismatch.symm

theorem blind_identifier : Blind place identifier := by
  intro tokens
  cases tokens with
  | nil => rfl
  | cons token rest =>
    obtain ⟨kind, span⟩ := token
    cases kind <;> rfl

theorem blind_skipBreaks : Blind place skipBreaks := by
  intro tokens
  simp only [skipBreaks, moved, List.dropWhile_map]
  rfl

theorem blind_statementEnd : Blind place statementEnd := by
  intro tokens
  cases tokens with
  | nil => rfl
  | cons token rest =>
    by_cases closed : closesStatement token.kind = true
    · simp [statementEnd, Token.move, moved, closed]
    · have mismatch := @SyntaxError.move_mismatch place .statementEnd (some token)
      simpa [statementEnd, Token.move, moved, closed] using mismatch.symm

theorem blind_get {next : List Token → Parser α}
    (second : ∀ tokens, Mirrors place (next tokens) (next (tokens.map (Token.move place)))) :
    Blind place (get >>= next) :=
  fun tokens => second tokens tokens

theorem startsAssignment_move (tokens : List Token) :
    startsAssignment (tokens.map (Token.move place)) = startsAssignment tokens := by
  match tokens with
  | [] | [_] => rfl
  | _ :: ⟨kind, _⟩ :: _ =>
    cases kind with
    | symbol mark => cases mark <;> rfl
    | _ => rfl

end Primitives

section Expressions

theorem blind_literalInteger (digits : String) : Blind place (literalInteger digits) := by
  unfold literalInteger
  cases Decimal.integer? digits with
  | none => exact mirrors_throw _
  | some value => exact blind_pure _

theorem blind_literalFloat (text : String) : Blind place (literalFloat text) := by
  unfold literalFloat
  cases Decimal.float? text with
  | none => exact mirrors_throw _
  | some value => exact blind_pure _

theorem blind_elements {element : Parser Expr} (blind : Blind place element) (fuel : Nat)
    (found : List Expr) : Blind place (elements element fuel found) := by
  induction fuel generalizing found with
  | zero => exact mirrors_throw _
  | succ fuel ih =>
    refine blind.bind fun parsed => blind_skipBreaks.bind fun _ => blind_next fun token => ?_
    have mismatch : Mirrors place
        (throw (.mismatch (.token (.symbol .comma)) token) : Parser (List Expr))
        (throw (.mismatch (.token (.symbol .comma)) (token.map (Token.move place)))) := by
      rw [← SyntaxError.move_mismatch]
      exact mirrors_throw _
    cases token with
    | none => exact mismatch
    | some token =>
      obtain ⟨kind, span⟩ := token
      cases kind with
      | symbol mark =>
        cases mark with
        | comma => exact blind_skipBreaks.bind fun _ => ih (parsed :: found)
        | closeBracket => exact blind_pure _
        | _ => exact mismatch
      | _ => exact mismatch

theorem blind_bracketedElements {element : Parser Expr} (blind : Blind place element) (fuel : Nat) :
    Blind place (bracketedElements element fuel) := by
  refine blind_skipBreaks.bind fun _ => (blind_accept _).bind fun accepted => ?_
  cases accepted with
  | true => exact blind_pure []
  | false => exact blind_elements blind fuel []

variable {expression : Precedence → Parser Expr}
  (blind : ∀ precedence, Blind place (expression precedence))
include blind

theorem mirrors_operand (fuel : Nat) (precedence : Precedence) (token : Token) :
    Mirrors place (operand expression fuel precedence token)
      (operand expression fuel precedence (token.move place)) := by
  obtain ⟨kind, span⟩ := token
  cases kind with
  | name | string | boolean => exact blind_pure _
  | integer digits => exact (blind_literalInteger digits).bind fun _ => blind_pure _
  | decimal text => exact (blind_literalFloat text).bind fun _ => blind_pure _
  | illegal | lineBreak => exact mirrors_throw _
  | symbol mark =>
    cases mark with
    | plus | minus | increment | decrement => exact (blind .unary).bind fun _ => blind_pure _
    | openParen => exact (blind .lowest).bind fun _ => (blind_expect _).bind fun _ => blind_pure _
    | openBracket => exact (blind_bracketedElements (blind .lowest) fuel).bind fun _ => blind_pure _
    | _ => exact mirrors_throw _
  | keyword word =>
    cases word with
    | negation =>
      simp only [operand, Token.move]
      split
      · exact (blind .negation).bind fun _ => blind_pure _
      · exact mirrors_throw _
    | create =>
      refine blind_identifier.bind fun type => (blind_accept _).bind fun accepted => ?_
      cases accepted with
      | true => exact (blind_bracketedElements (blind .lowest) fuel).bind fun _ => blind_pure _
      | false => exact blind_pure _
    | _ => exact mirrors_throw _

theorem blind_continued (left : Expr) (continuation : Continuation) :
    Blind place (continued expression left continuation) := by
  cases continuation with
  | arithmetic | logical | comparison => exact (blind _).bind fun _ => blind_pure _
  | step => exact blind_pure _
  | index => exact (blind .lowest).bind fun _ => (blind_expect _).bind fun _ => blind_pure _
  | member => exact blind_identifier.bind fun _ => blind_pure _

theorem blind_continuations (precedence : Precedence) (fuel : Nat) (left : Expr) :
    Blind place (continuations expression precedence fuel left) := by
  induction fuel generalizing left with
  | zero => exact blind_pure left
  | succ fuel ih =>
    refine blind_peek.bind fun kind => ?_
    cases kind.bind Continuation.ofKind? with
    | none => exact blind_pure left
    | some continuation =>
      simp only
      split
      · exact blind_skip ((blind_continued blind left continuation).bind ih)
      · exact blind_pure left

omit blind in
theorem blind_expression (fuel : Nat) (precedence : Precedence) :
    Blind place (Parser.expression fuel precedence) := by
  induction fuel generalizing precedence with
  | zero => exact mirrors_throw _
  | succ fuel ih =>
    refine blind_next fun token => ?_
    cases token with
    | none => exact mirrors_throw _
    | some token =>
      exact (mirrors_operand ih fuel precedence token).bind (blind_continuations ih precedence fuel)

end Expressions

section Statements

theorem blind_negativeNumber : Blind place negativeNumber := by
  refine blind_next fun token => ?_
  cases token with
  | none => exact mirrors_throw _
  | some token =>
    obtain ⟨kind, span⟩ := token
    cases kind with
    | integer digits =>
      simp only [Option.map_some, Token.move]
      cases Decimal.negativeInteger? digits with
      | none => exact mirrors_throw _
      | some value => exact blind_pure _
    | decimal text => exact (blind_literalFloat text).bind fun _ => blind_pure _
    | _ => exact mirrors_throw _

theorem blind_pattern : Blind place pattern := by
  refine blind_next fun token => ?_
  cases token with
  | none => exact mirrors_throw _
  | some token =>
    obtain ⟨kind, span⟩ := token
    cases kind with
    | name id =>
      simp only [Option.map_some, Token.move]
      split <;> exact blind_pure _
    | integer digits => exact (blind_literalInteger digits).bind fun _ => blind_pure _
    | decimal text => exact (blind_literalFloat text).bind fun _ => blind_pure _
    | string | boolean => exact blind_pure _
    | symbol mark =>
      cases mark with
      | minus => exact blind_negativeNumber
      | _ => exact mirrors_throw _
    | _ => exact mirrors_throw _

variable {statement : Parser Statement} (blind : Blind place statement)

section

include blind

theorem blind_block (closing : List Keyword) (fuel : Nat) (found : List Statement) :
    Blind place (block statement closing fuel found) := by
  induction fuel generalizing found with
  | zero => exact mirrors_throw _
  | succ fuel ih =>
    refine blind_skipBreaks.bind fun _ => blind_peek.bind fun kind => ?_
    cases kind with
    | none => exact mirrors_throw _
    | some kind =>
      simp only
      split
      · exact blind_pure _
      · exact blind.bind fun parsed => blind_statementEnd.bind fun _ => ih (parsed :: found)

theorem blind_branch {condition : Parser Expr} (blind' : Blind place condition) (fuel : Nat) :
    Blind place (branch statement condition fuel) := by
  induction fuel with
  | zero => exact mirrors_throw _
  | succ fuel ih =>
    refine blind'.bind fun test => (blind_expect _).bind fun _ => (blind_expect _).bind fun _ => ?_
    refine (blind_block blind _ fuel []).bind fun consequence => blind_peek.bind fun kind => ?_
    split
    · exact blind_skip (ih.bind fun _ => blind_pure _)
    · exact blind_skip ((blind_expect _).bind fun _ =>
        (blind_block blind _ fuel []).bind fun _ => blind_pure _)
    · exact blind_pure _

theorem blind_caseBody (fuel : Nat) : Blind place (caseBody statement fuel) := by
  refine blind_peek.bind fun kind => ?_
  split
  · exact blind_block blind _ fuel []
  · exact blind.bind fun _ => blind_statementEnd.bind fun _ => blind_pure _

theorem blind_cases (fuel : Nat) (found : List (Pattern × Block)) :
    Blind place (cases statement fuel found) := by
  induction fuel generalizing found with
  | zero => exact mirrors_throw _
  | succ fuel ih =>
    refine blind_skipBreaks.bind fun _ => blind_peek.bind fun kind => ?_
    split
    · refine (blind_expect _).bind fun _ => blind_pattern.bind fun shape => ?_
      refine (blind_expect _).bind fun _ => (blind_caseBody blind fuel).bind fun body => ?_
      exact ih ((shape, body) :: found)
    · exact blind_pure _

end

theorem blind_fields (fuel : Nat) (found : List String) : Blind place (fields fuel found) := by
  induction fuel generalizing found with
  | zero => exact mirrors_throw _
  | succ fuel ih =>
    refine blind_skipBreaks.bind fun _ => blind_next fun token => ?_
    have mismatch : Mirrors place
        (throw (.mismatch (.token (.keyword .finish)) token) : Parser (List String))
        (throw (.mismatch (.token (.keyword .finish)) (token.map (Token.move place)))) := by
      rw [← SyntaxError.move_mismatch]
      exact mirrors_throw _
    cases token with
    | none => exact mismatch
    | some token =>
      obtain ⟨kind, span⟩ := token
      cases kind with
      | keyword word =>
        cases word with
        | field => exact blind_identifier.bind fun id => blind_statementEnd.bind fun _ => ih (id :: found)
        | finish => exact blind_pure _
        | _ => exact mismatch
      | _ => exact mismatch

include blind in
theorem blind_statementWith (fuel : Nat) : Blind place (statementWith statement fuel) := by
  have whole := @blind_expression place fuel .lowest
  refine blind_get fun tokens => ?_
  rw [startsAssignment_move]
  refine blind_peek.bind fun kind => ?_
  split
  · refine blind_skip (blind_identifier.bind fun type => (blind_expect _).bind fun _ => ?_)
    exact (blind_fields fuel []).bind fun _ => blind_pure _
  · exact blind_skip (whole.bind fun _ => blind_pure _)
  · refine blind_skip ((blind_branch blind whole fuel).bind fun parsed => ?_)
    exact (blind_expect _).bind fun _ => blind_pure _
  · refine blind_skip (whole.bind fun scrutinee => (blind_expect _).bind fun _ => ?_)
    refine (blind_cases blind fuel []).bind fun found => (blind_accept _).bind fun accepted => ?_
    have closed (alternative : Option Block) : Blind place (do
        skipBreaks
        expect (.keyword .finish)
        return Statement.select scrutinee found alternative) :=
      blind_skipBreaks.bind fun _ => (blind_expect _).bind fun _ => blind_pure _
    cases accepted with
    | true => exact ((blind_caseBody blind fuel).map some).bind closed
    | false => exact (blind_pure none).bind closed
  · refine blind_skip (blind_identifier.bind fun id => (blind_expect _).bind fun _ => ?_)
    refine whole.bind fun items => (blind_expect _).bind fun _ => ?_
    refine (blind_block blind _ fuel []).bind fun body => (blind_expect _).bind fun _ => blind_pure _
  · split
    · exact blind_skip (blind_skip (whole.bind fun _ => blind_pure _))
    · exact whole.bind fun _ => blind_pure _
  · exact whole.bind fun _ => blind_pure _

theorem blind_statement (fuel : Nat) : Blind place (Parser.statement fuel) := by
  induction fuel with
  | zero => exact mirrors_throw _
  | succ fuel ih => exact blind_statementWith ih (fuel + 1)

theorem blind_statements (fuel : Nat) (found : List Statement) :
    Blind place (statements fuel found) := by
  induction fuel generalizing found with
  | zero => exact blind_pure _
  | succ fuel ih =>
    refine blind_skipBreaks.bind fun _ => blind_peek.bind fun kind => ?_
    cases kind with
    | none => exact blind_pure _
    | some kind =>
      exact (blind_statement (fuel + 1)).bind fun parsed =>
        blind_statementEnd.bind fun _ => ih (parsed :: found)

end Statements

end Parser

theorem Program.ofTokens_move (place : Span → Span) (tokens : List Token) :
    Program.ofTokens (tokens.map (Token.move place)) =
      (Program.ofTokens tokens).mapError (SyntaxError.move place) := by
  unfold Program.ofTokens
  rw [List.length_map, Parser.blind_statements (tokens.length + 1) [] tokens]
  cases Parser.statements (tokens.length + 1) [] tokens <;> rfl

end ByNeed
