import ByNeed.Grammar.Statement
import ByNeed.Proofs.Grammar.Reading

set_option autoImplicit false

-- Illegal tokens and integers are treated in another way where a pattern is a negative number. The last two
-- tokens that were taken decide, because a pattern is read only after the keyword of a case.
namespace ByNeed

-- What leads up to a token: the keyword of a case, that keyword and a minus sign, or anything else.
inductive Lead where
  | other
  | option
  | sign
deriving Repr, DecidableEq

namespace Lead

def next : Lead → Token.Kind → Lead
  | _, .keyword .option => .option
  | .option, .symbol .minus => .sign
  | _, _ => .other

def after (kinds : List Token.Kind) : Lead :=
  kinds.foldl next .other

variable {lead : Lead} {kind : Token.Kind} {first second : List Token.Kind}

theorem next_eq_option : lead.next kind = .option ↔ kind = .keyword .option := by
  unfold next
  split <;> simp_all

theorem next_eq_sign : lead.next kind = .sign ↔ lead = .option ∧ kind = .symbol .minus := by
  unfold next
  split <;> simp_all

theorem next_other (plain : kind ≠ .keyword .option) : Lead.other.next kind = .other := by
  unfold next
  split <;> simp_all

theorem next_unsigned (plain : kind ≠ .keyword .option) (unsigned : kind ≠ .symbol .minus) :
    lead.next kind = .other := by
  unfold next
  split <;> simp_all

theorem after_concat (kinds : List Token.Kind) (kind : Token.Kind) :
    after (kinds ++ [kind]) = (after kinds).next kind := by
  simp [after]

theorem after_append (other : after first = .other) : after (first ++ second) = after second := by
  rw [after, List.foldl_append]
  exact congrArg (List.foldl next · second) other

theorem after_plain (plain : ∀ kind ∈ first, kind ≠ .keyword .option) : after first = .other := by
  induction first with
  | nil => rfl
  | cons kind first ih =>
    rw [List.forall_mem_cons] at plain
    have here : after [kind] = .other := next_other plain.1
    rw [← List.singleton_append, after_append here]
    exact ih plain.2

def of (tokens : List Token) : Lead :=
  after (tokens.map Token.kind)

theorem of_append {used tokens : List Token} (other : of used = .other) : of (used ++ tokens) = of tokens := by
  rw [of, List.map_append]
  exact after_append other

theorem of_concat (tokens : List Token) (token : Token) :
    of (tokens ++ [token]) = (of tokens).next token.kind := by
  rw [of, List.map_append]
  exact after_concat _ _

theorem of_singleton {token : Token} (plain : token.kind ≠ .keyword .option) : of [token] = .other :=
  next_other plain

end Lead

def Token.Legal (token : Token) : Prop :=
  ∀ fault, token.kind ≠ .illegal fault

-- The right error about a token, by what leads up to it.
inductive SyntaxError.Suits (lead : Lead) (token : Token) : SyntaxError → Prop
  | unexpected (expected : Expected) (legal : token.Legal) : Suits lead token (.unexpected expected token)
  | notAnExpression (legal : token.Legal) : Suits lead token (.notAnExpression token)
  | notAPattern (legal : token.Legal) : Suits lead token (.notAPattern token)
  | illegal {fault : LexError} (illegal : token.kind = .illegal fault) (plain : lead ≠ .sign) :
    Suits lead token (.lexical fault token.span)
  | signedIllegal {fault : LexError} (illegal : token.kind = .illegal fault) (signed : lead = .sign) :
    Suits lead token (.notAPattern token)
  | tooLarge {digits : String} (integer : token.kind = .integer digits) (plain : lead ≠ .sign)
    (unread : Decimal.integer? digits = none) : Suits lead token (.integerOutOfRange false)
  | tooSmall {digits : String} (integer : token.kind = .integer digits) (signed : lead = .sign)
    (unread : Decimal.negativeInteger? digits = none) : Suits lead token (.integerOutOfRange true)

inductive SyntaxError.Fits (tokens : List Token) : SyntaxError → Prop
  | endOfInput (expected : Expected) : Fits tokens (.endOfInput expected)
  | malformedFloat : Fits tokens .malformedFloat
  | about {used rest : List Token} {token : Token} {error : SyntaxError}
    (split : tokens = used ++ token :: rest) (suits : error.Suits (Lead.of used) token) : Fits tokens error

namespace Parser

variable {α β : Type} {tokens rest : List Token} {token : Token}

def Settles (tokens : List Token) : EStateM.Result SyntaxError (List Token) α → Prop
  | .ok _ rest => ∃ used, tokens = used ++ rest ∧ Lead.of used = .other
  | .error error _ => error.Fits tokens

def HeedsOn (tokens : List Token) (parser : Parser α) : Prop :=
  Settles tokens (parser tokens)

def Heeds (parser : Parser α) : Prop :=
  ∀ tokens, Settles tokens (parser tokens)

def HeedsAfter (token : Token) (parser : Parser α) : Prop :=
  ∀ rest, Settles (token :: rest) (parser rest)

section Results

variable {result : EStateM.Result SyntaxError (List Token) α} {left : List Token}

theorem Settles.append {used : List Token} (other : Lead.of used = .other) (settles : Settles rest result) :
    Settles (used ++ rest) result := by
  cases result with
  | ok value left =>
    obtain ⟨more, rfl, other'⟩ := settles
    exact ⟨used ++ more, by simp, by rw [Lead.of_append other, other']⟩
  | error error left =>
    cases settles with
    | endOfInput expected => exact .endOfInput expected
    | malformedFloat => exact .malformedFloat
    | @about more rest token _ split suits =>
      subst split
      refine .about (List.append_assoc used more _).symm ?_
      rwa [Lead.of_append other]

theorem settles_here {value : α} : Settles tokens (.ok value tokens) :=
  ⟨[], rfl, rfl⟩

theorem settles_first {error : SyntaxError} (suits : error.Suits .other token) :
    Settles (token :: rest) (.error error left : EStateM.Result SyntaxError (List Token) α) :=
  .about (List.nil_append _).symm suits

theorem suits_mismatch (expected : Expected) :
    (SyntaxError.mismatch expected (some token)).Suits .other token := by
  obtain ⟨kind, span⟩ := token
  cases kind with
  | illegal fault => exact .illegal rfl (by decide)
  | _ => exact .unexpected expected (fun fault => by simp)

end Results

section Combinators

variable {parser : Parser α} {next : α → Parser β}

-- The tokens that are accounted for may be more than those that the parser gets.
theorem Settles.bind {given : List Token} (first : Settles tokens (parser given))
    (second : ∀ value, Heeds (next value)) : Settles tokens ((parser >>= next) given) := by
  simp only [Bind.bind, EStateM.bind]
  cases result : parser given with
  | error error rest =>
    rw [result] at first
    exact first
  | ok value rest =>
    rw [result] at first
    obtain ⟨used, rfl, other⟩ := first
    exact (second value rest).append other

theorem Heeds.bind (first : Heeds parser) (second : ∀ value, Heeds (next value)) : Heeds (parser >>= next) :=
  fun tokens => (first tokens).bind second

theorem HeedsAfter.bind (first : HeedsAfter token parser) (second : ∀ value, Heeds (next value)) :
    HeedsAfter token (parser >>= next) :=
  fun rest => (first rest).bind second

theorem Heeds.after (heeds : Heeds parser) (plain : token.kind ≠ .keyword .option) :
    HeedsAfter token parser :=
  fun rest => (heeds rest).append (Lead.of_singleton plain)

theorem heeds_pure (value : α) : Heeds (pure value : Parser α) :=
  fun _ => settles_here

theorem heeds_endOfInput (expected : Expected) : Heeds (throw (.endOfInput expected) : Parser α) :=
  fun _ => .endOfInput expected

theorem heedsAfter_throw {error : SyntaxError} (suits : error.Suits .other token) :
    HeedsAfter token (throw error : Parser α) :=
  fun _ => settles_first suits

end Combinators

section Primitives

theorem heeds_next {next : Option Token → Parser α} (ends : Heeds (next none))
    (after : ∀ token, HeedsAfter token (next (some token))) : Heeds (next? >>= next) := by
  intro tokens
  cases tokens with
  | nil => exact ends []
  | cons token rest => exact after token rest

theorem heedsOn_peek {next : Option Token.Kind → Parser α}
    (second : HeedsOn tokens (next (tokens.head?.map Token.kind))) : HeedsOn tokens (peek? >>= next) := by
  cases tokens <;> exact second

theorem heedsOn_skip {kind : Token.Kind} {next : Parser α} (head : tokens.head?.map Token.kind = some kind)
    (plain : kind ≠ .keyword .option) (second : Heeds next) :
    HeedsOn tokens (do let _ ← next?; next) := by
  cases tokens with
  | nil => cases head
  | cons token rest =>
    cases head
    exact second.after plain rest

theorem heedsOn_assignment {kind : Token.Kind} {next : Parser α} (assigns : startsAssignment tokens = true)
    (head : tokens.head?.map Token.kind = some kind) (plain : kind ≠ .keyword .option)
    (second : Heeds next) : HeedsOn tokens (do let _ ← next?; let _ ← next?; next) := by
  unfold startsAssignment at assigns
  split at assigns
  case h_1 first span rest =>
    cases head
    have later := second.after (show (Token.mk (.symbol .assign) span).kind ≠ .keyword .option by simp) rest
    exact later.append (Lead.of_singleton plain)
  case h_2 => cases assigns

theorem heeds_accept {kind : Token.Kind} (plain : kind ≠ .keyword .option) : Heeds (accept kind) := by
  intro tokens
  cases tokens with
  | nil => exact settles_here
  | cons token rest =>
    by_cases same : token.kind = kind
    · simp only [accept, same, if_true]
      exact ⟨[token], rfl, Lead.of_singleton (same ▸ plain)⟩
    · simp only [accept, same, if_false]
      exact settles_here

theorem heeds_expect {kind : Token.Kind} (plain : kind ≠ .keyword .option) : Heeds (expect kind) := by
  intro tokens
  cases tokens with
  | nil => exact .endOfInput _
  | cons token rest =>
    by_cases same : token.kind = kind
    · simp only [expect, same, if_true]
      exact ⟨[token], rfl, Lead.of_singleton (same ▸ plain)⟩
    · simp only [expect, same, if_false]
      exact settles_first (suits_mismatch _)

theorem heeds_identifier : Heeds identifier := by
  intro tokens
  cases tokens with
  | nil => exact .endOfInput _
  | cons token rest =>
    obtain ⟨kind, span⟩ := token
    cases kind with
    | name id => exact ⟨[⟨.name id, span⟩], rfl, rfl⟩
    | _ => exact settles_first (suits_mismatch _)

theorem heeds_skipBreaks : Heeds skipBreaks := by
  intro tokens
  refine ⟨tokens.takeWhile _, List.takeWhile_append_dropWhile.symm, Lead.after_plain ?_⟩
  intro kind member
  obtain ⟨token, taken, rfl⟩ := List.mem_map.mp member
  have blank : token.kind = .lineBreak := by simpa using List.mem_takeWhile_imp taken
  simp [blank]

theorem heeds_statementEnd : Heeds statementEnd := by
  intro tokens
  cases tokens with
  | nil => exact settles_here
  | cons token rest =>
    by_cases closed : closesStatement token.kind = true
    · simp only [statementEnd, closed, if_true]
      exact settles_here
    · simp only [statementEnd, closed, if_false, Bool.false_eq_true]
      exact settles_first (suits_mismatch _)

end Primitives

section Expressions

-- Where the tokens have been taken that lead up to the last one, and it leads up to nothing.
theorem Heeds.last {parser : Parser α} (heeds : Heeds parser) (used : List Token)
    (plain : token.kind ≠ .keyword .option) (unsigned : token.kind ≠ .symbol .minus) (rest : List Token) :
    Settles (used ++ token :: rest) (parser rest) := by
  have other : Lead.of (used ++ [token]) = .other := by rw [Lead.of_concat, Lead.next_unsigned plain unsigned]
  simpa using (heeds rest).append other

-- The integer has been taken before it turns out to be out of range.
theorem settles_literalInteger {digits : String} {used : List Token} (integer : token.kind = .integer digits)
    (plain : Lead.of used ≠ .sign) (rest : List Token) :
    Settles (used ++ token :: rest) (literalInteger digits rest) := by
  unfold literalInteger
  cases unread : Decimal.integer? digits with
  | none => exact .about rfl (.tooLarge integer plain unread)
  | some value => exact (heeds_pure _).last used (by simp [integer]) (by simp [integer]) rest

theorem heeds_literalFloat (text : String) : Heeds (literalFloat text) := by
  unfold literalFloat
  cases Decimal.float? text with
  | none => exact fun _ => .malformedFloat
  | some value => exact heeds_pure _

theorem heeds_elements {element : Parser Expr} (heeds : Heeds element) (fuel : Nat) (found : List Expr) :
    Heeds (elements element fuel found) := by
  induction fuel generalizing found with
  | zero => exact heeds_endOfInput _
  | succ fuel ih =>
    refine heeds.bind fun parsed => heeds_skipBreaks.bind fun _ => ?_
    apply heeds_next
    · exact heeds_endOfInput _
    · intro token
      have mismatch : HeedsAfter token
          (throw (.mismatch (.token (.symbol .comma)) (some token)) : Parser (List Expr)) :=
        heedsAfter_throw (suits_mismatch _)
      obtain ⟨kind, span⟩ := token
      cases kind with
      | symbol mark =>
        cases mark with
        | comma => exact (heeds_skipBreaks.bind fun _ => ih (parsed :: found)).after (by simp)
        | closeBracket => exact (heeds_pure _).after (by simp)
        | _ => exact mismatch
      | _ => exact mismatch

theorem heeds_bracketedElements {element : Parser Expr} (heeds : Heeds element) (fuel : Nat) :
    Heeds (bracketedElements element fuel) := by
  refine heeds_skipBreaks.bind fun _ => (heeds_accept (by simp)).bind fun accepted => ?_
  cases accepted with
  | true => exact heeds_pure []
  | false => exact heeds_elements heeds fuel []

variable {expression : Precedence → Parser Expr} (heeds : ∀ precedence, Heeds (expression precedence))
include heeds

theorem heedsAfter_operand (fuel : Nat) (precedence : Precedence) (token : Token) :
    HeedsAfter token (operand expression fuel precedence token) := by
  obtain ⟨kind, span⟩ := token
  cases kind with
  | name | string | boolean => exact (heeds_pure _).after (by simp)
  | integer digits =>
    have read : HeedsAfter ⟨.integer digits, span⟩ (literalInteger digits) :=
      @settles_literalInteger _ digits [] rfl (by decide)
    exact read.bind fun _ => heeds_pure _
  | decimal text => exact ((heeds_literalFloat text).bind fun _ => heeds_pure _).after (by simp)
  | illegal fault => exact heedsAfter_throw (.illegal rfl (by decide))
  | lineBreak => exact heedsAfter_throw (.notAnExpression fun fault => by simp)
  | symbol mark =>
    cases mark with
    | plus | minus | increment | decrement =>
      exact ((heeds .unary).bind fun _ => heeds_pure _).after (by simp)
    | openParen =>
      refine Heeds.after ?_ (by simp)
      exact (heeds .lowest).bind fun _ => (heeds_expect (by simp)).bind fun _ => heeds_pure _
    | openBracket =>
      refine Heeds.after ?_ (by simp)
      exact (heeds_bracketedElements (heeds .lowest) fuel).bind fun _ => heeds_pure _
    | _ => exact heedsAfter_throw (.notAnExpression fun fault => by simp)
  | keyword word =>
    cases word with
    | negation =>
      simp only [operand]
      split
      · exact ((heeds .negation).bind fun _ => heeds_pure _).after (by simp)
      · exact heedsAfter_throw (.notAnExpression fun fault => by simp)
    | create =>
      refine Heeds.after ?_ (by simp)
      refine heeds_identifier.bind fun type => (heeds_accept (by simp)).bind fun accepted => ?_
      cases accepted with
      | true => exact (heeds_bracketedElements (heeds .lowest) fuel).bind fun _ => heeds_pure _
      | false => exact heeds_pure _
    | _ => exact heedsAfter_throw (.notAnExpression fun fault => by simp)

theorem heeds_continued (left : Expr) (continuation : Continuation) :
    Heeds (continued expression left continuation) := by
  cases continuation with
  | arithmetic | logical | comparison => exact (heeds _).bind fun _ => heeds_pure _
  | step => exact heeds_pure _
  | index => exact (heeds .lowest).bind fun _ => (heeds_expect (by simp)).bind fun _ => heeds_pure _
  | member => exact heeds_identifier.bind fun _ => heeds_pure _

theorem heeds_continuations (precedence : Precedence) (fuel : Nat) (left : Expr) :
    Heeds (continuations expression precedence fuel left) := by
  induction fuel generalizing left with
  | zero => exact heeds_pure left
  | succ fuel ih =>
    intro tokens
    apply heedsOn_peek
    cases continues : (tokens.head?.map Token.kind).bind Continuation.ofKind? with
    | none => exact heeds_pure left tokens
    | some continuation =>
      simp only
      split
      · obtain ⟨kind, head, found⟩ := Option.bind_eq_some_iff.mp continues
        have plain : kind ≠ .keyword .option := by
          rintro rfl
          cases found
        exact heedsOn_skip head plain ((heeds_continued heeds left continuation).bind ih)
      · exact heeds_pure left tokens

omit heeds in
theorem heeds_expression (fuel : Nat) (precedence : Precedence) :
    Heeds (Parser.expression fuel precedence) := by
  induction fuel generalizing precedence with
  | zero => exact heeds_endOfInput _
  | succ fuel ih =>
    apply heeds_next
    · exact heeds_endOfInput _
    · intro token
      exact (heedsAfter_operand ih fuel precedence token).bind (heeds_continuations ih precedence fuel)

end Expressions

section Patterns

variable {option minus : Token}

theorem settles_negativeNumber (opens : option.kind = .keyword .option)
    (sign : minus.kind = .symbol .minus) (rest : List Token) :
    Settles (option :: minus :: rest) (negativeNumber rest) := by
  cases rest with
  | nil => exact .endOfInput _
  | cons number rest =>
    have signed : Lead.of [option, minus] = .sign := by
      simp only [Lead.of, List.map_cons, List.map_nil, opens, sign]
      rfl
    have refused {error : SyntaxError} {left : List Token} (suits : error.Suits .sign number) :
        Settles (option :: minus :: number :: rest)
          (.error error left : EStateM.Result SyntaxError (List Token) Pattern) :=
      @SyntaxError.Fits.about _ [option, minus] rest number error rfl (signed ▸ suits)
    obtain ⟨kind, span⟩ := number
    cases kind with
    | integer digits =>
      simp only [negativeNumber, Bind.bind, EStateM.bind, next?]
      cases unread : Decimal.negativeInteger? digits with
      | none => exact refused (.tooSmall rfl rfl unread)
      | some value => exact (heeds_pure _).last [option, minus] (by simp) (by simp) rest
    | decimal text =>
      have read : Heeds (do return Pattern.literal (.float (-(← literalFloat text)))) :=
        (heeds_literalFloat text).bind fun _ => heeds_pure _
      exact read.last [option, minus] (by simp) (by simp) rest
    | illegal fault => exact refused (.signedIllegal rfl rfl)
    | _ => exact refused (.notAPattern fun fault => by simp)

theorem settles_pattern (opens : option.kind = .keyword .option) (rest : List Token) :
    Settles (option :: rest) (pattern rest) := by
  cases rest with
  | nil => exact .endOfInput _
  | cons first rest =>
    have unsigned : Lead.of [option] ≠ .sign := by
      simp only [Lead.of, List.map_cons, List.map_nil, opens]
      decide
    have read {parser : Parser Pattern} (heeds : Heeds parser) (plain : first.kind ≠ .keyword .option)
        (unsigned : first.kind ≠ .symbol .minus) : Settles (option :: first :: rest) (parser rest) :=
      heeds.last [option] plain unsigned rest
    have refused {error : SyntaxError} {left : List Token} (suits : error.Suits (Lead.of [option]) first) :
        Settles (option :: first :: rest)
          (.error error left : EStateM.Result SyntaxError (List Token) Pattern) :=
      @SyntaxError.Fits.about _ [option] rest first error rfl suits
    obtain ⟨kind, span⟩ := first
    cases kind with
    | name id =>
      simp only [pattern, Bind.bind, EStateM.bind, next?]
      split <;> exact read (heeds_pure _) (by simp) (by simp)
    | integer digits =>
      exact (@settles_literalInteger ⟨.integer digits, span⟩ _ [option] rfl unsigned rest).bind
        fun _ => heeds_pure _
    | decimal text =>
      exact read ((heeds_literalFloat text).bind fun _ => heeds_pure _) (by simp) (by simp)
    | string | boolean => exact read (heeds_pure _) (by simp) (by simp)
    | illegal fault => exact refused (.illegal rfl unsigned)
    | symbol mark =>
      cases mark with
      | minus => exact settles_negativeNumber opens rfl rest
      | _ => exact refused (.notAPattern fun fault => by simp)
    | _ => exact refused (.notAPattern fun fault => by simp)

theorem heeds_case : Heeds (do expect (.keyword .option); pattern) := by
  intro tokens
  cases tokens with
  | nil => exact .endOfInput _
  | cons token rest =>
    by_cases opens : token.kind = .keyword .option
    · simp only [Bind.bind, EStateM.bind, expect, opens, if_true]
      exact settles_pattern opens rest
    · simp only [Bind.bind, EStateM.bind, expect, opens, if_false]
      exact settles_first (suits_mismatch _)

end Patterns

section Statements

theorem heeds_fields (fuel : Nat) (found : List String) : Heeds (fields fuel found) := by
  induction fuel generalizing found with
  | zero => exact heeds_endOfInput _
  | succ fuel ih =>
    refine heeds_skipBreaks.bind fun _ => ?_
    apply heeds_next
    · exact heeds_endOfInput _
    · intro token
      have mismatch : HeedsAfter token
          (throw (.mismatch (.token (.keyword .finish)) (some token)) : Parser (List String)) :=
        heedsAfter_throw (suits_mismatch _)
      obtain ⟨kind, span⟩ := token
      cases kind with
      | keyword word =>
        cases word with
        | field =>
          refine Heeds.after ?_ (by simp)
          exact heeds_identifier.bind fun id => heeds_statementEnd.bind fun _ => ih (id :: found)
        | finish => exact (heeds_pure _).after (by simp)
        | _ => exact mismatch
      | _ => exact mismatch

variable {statement : Parser Statement} (heeds : Heeds statement)
include heeds

theorem heeds_block (closing : List Keyword) (fuel : Nat) (found : List Statement) :
    Heeds (block statement closing fuel found) := by
  induction fuel generalizing found with
  | zero => exact heeds_endOfInput _
  | succ fuel ih =>
    refine heeds_skipBreaks.bind fun _ tokens => heedsOn_peek ?_
    cases tokens.head?.map Token.kind with
    | none => exact heeds_endOfInput _ tokens
    | some kind =>
      simp only
      split
      · exact heeds_pure _ tokens
      · exact heeds.bind (fun parsed => heeds_statementEnd.bind fun _ => ih (parsed :: found)) tokens

theorem heeds_branch {condition : Parser Expr} (heeds' : Heeds condition) (fuel : Nat) :
    Heeds (branch statement condition fuel) := by
  induction fuel with
  | zero => exact heeds_endOfInput _
  | succ fuel ih =>
    refine heeds'.bind fun test => (heeds_expect (by simp)).bind fun _ => ?_
    refine (heeds_expect (by simp)).bind fun _ => ?_
    refine (heeds_block heeds _ fuel []).bind fun consequence => ?_
    intro tokens
    apply heedsOn_peek
    split
    case h_1 head => exact heedsOn_skip head (by simp) (ih.bind fun _ => heeds_pure _)
    case h_2 head =>
      apply heedsOn_skip head (by simp)
      refine (heeds_expect (by simp)).bind fun _ => ?_
      exact (heeds_block heeds _ fuel []).bind fun _ => heeds_pure _
    · exact heeds_pure _ tokens

theorem heeds_caseBody (fuel : Nat) : Heeds (caseBody statement fuel) := by
  intro tokens
  apply heedsOn_peek
  split
  · exact heeds_block heeds _ fuel [] tokens
  · exact heeds.bind (fun _ => heeds_statementEnd.bind fun _ => heeds_pure _) tokens

theorem heeds_cases (fuel : Nat) (found : List (Pattern × Block)) :
    Heeds (cases statement fuel found) := by
  induction fuel generalizing found with
  | zero => exact heeds_endOfInput _
  | succ fuel ih =>
    refine heeds_skipBreaks.bind fun _ tokens => heedsOn_peek ?_
    split
    · have body (shape : Pattern) : Heeds (do
          expect (.keyword .consequence)
          let body ← caseBody statement fuel
          cases statement fuel ((shape, body) :: found)) := by
        refine (heeds_expect (by simp)).bind fun _ => ?_
        exact (heeds_caseBody heeds fuel).bind fun body => ih ((shape, body) :: found)
      rw [← bind_assoc]
      exact heeds_case.bind body tokens
    · exact heeds_pure _ tokens

theorem heeds_statementWith (fuel : Nat) : Heeds (statementWith statement fuel) := by
  have whole := heeds_expression fuel .lowest
  intro tokens
  change HeedsOn tokens (peek? >>= _)
  apply heedsOn_peek
  split
  case h_1 head =>
    apply heedsOn_skip head (by simp)
    refine heeds_identifier.bind fun type => (heeds_expect (by simp)).bind fun _ => ?_
    exact (heeds_fields fuel []).bind fun _ => heeds_pure _
  case h_2 head => exact heedsOn_skip head (by simp) (whole.bind fun _ => heeds_pure _)
  case h_3 head =>
    apply heedsOn_skip head (by simp)
    refine (heeds_branch heeds whole fuel).bind fun parsed => ?_
    exact (heeds_expect (by simp)).bind fun _ => heeds_pure _
  case h_4 head =>
    apply heedsOn_skip head (by simp)
    refine whole.bind fun scrutinee => (heeds_expect (by simp)).bind fun _ => ?_
    refine (heeds_cases heeds fuel []).bind fun found => ?_
    refine (heeds_accept (by simp)).bind fun accepted => ?_
    have closed (alternative : Option Block) : Heeds (do
        skipBreaks
        expect (.keyword .finish)
        return Statement.select scrutinee found alternative) :=
      heeds_skipBreaks.bind fun _ => (heeds_expect (by simp)).bind fun _ => heeds_pure _
    cases accepted with
    | true => exact ((heeds_caseBody heeds fuel).bind fun body => heeds_pure (some body)).bind closed
    | false => exact (heeds_pure none).bind closed
  case h_5 head =>
    apply heedsOn_skip head (by simp)
    refine heeds_identifier.bind fun id => (heeds_expect (by simp)).bind fun _ => ?_
    refine whole.bind fun items => (heeds_expect (by simp)).bind fun _ => ?_
    refine (heeds_block heeds _ fuel []).bind fun body => ?_
    exact (heeds_expect (by simp)).bind fun _ => heeds_pure _
  case h_6 id head =>
    split
    case isTrue assigns =>
      exact heedsOn_assignment assigns head (by simp) (whole.bind fun _ => heeds_pure _)
    · exact whole.bind (fun _ => heeds_pure _) tokens
  · exact whole.bind (fun _ => heeds_pure _) tokens

omit heeds in
theorem heeds_statement (fuel : Nat) : Heeds (Parser.statement fuel) := by
  induction fuel with
  | zero => exact heeds_endOfInput _
  | succ fuel ih => exact heeds_statementWith ih (fuel + 1)

omit heeds in
theorem heeds_statements (fuel : Nat) (found : List Statement) : Heeds (statements fuel found) := by
  induction fuel generalizing found with
  | zero => exact heeds_pure _
  | succ fuel ih =>
    refine heeds_skipBreaks.bind fun _ tokens => heedsOn_peek ?_
    cases tokens.head?.map Token.kind with
    | none => exact heeds_pure _ tokens
    | some kind =>
      exact (heeds_statement (fuel + 1)).bind (fun parsed =>
        heeds_statementEnd.bind fun _ => ih (parsed :: found)) tokens

end Statements

end Parser

theorem Program.ofTokens_error_fits {tokens : List Token} {error : SyntaxError}
    (failed : Program.ofTokens tokens = .error error) : error.Fits tokens := by
  have settles := Parser.heeds_statements (tokens.length + 1) [] tokens
  unfold Program.ofTokens at failed
  cases result : Parser.statements (tokens.length + 1) [] tokens with
  | ok statements rest =>
    rw [result] at failed
    cases failed
  | error error' rest =>
    rw [result] at failed settles
    cases failed
    exact settles

end ByNeed
