import ByNeed.Grammar.Expr
import ByNeed.Proofs.Grammar.Binding

set_option autoImplicit false

-- While an expression is being extended, what stands to the left is derived at some layer, and the token that
-- follows binds no more strongly than that layer allows. One turn of the loop keeps this.
namespace ByNeed

namespace Parser

theorem literalInteger_eq_ok {digits : String} {value : Literal} {tokens rest : List Token} :
    literalInteger digits tokens = .ok value rest ↔
      ∃ n, Decimal.integer? digits = some n ∧ value = .integer n ∧ tokens = rest := by
  cases read : Decimal.integer? digits <;> simp [literalInteger, read, pure_eq_ok, eq_comm]

theorem literalFloat_eq_ok {text : String} {value : Float} {tokens rest : List Token} :
    literalFloat text tokens = .ok value rest ↔
      Decimal.float? text = some value ∧ tokens = rest := by
  cases read : Decimal.float? text <;> simp [literalFloat, read, pure_eq_ok]

def SoundAt (fuel : Nat) : Prop :=
  ∀ ⦃precedence : Precedence⦄ ⦃tokens rest : List Token⦄ ⦃expr : Expr⦄,
    tokens.length < fuel → expression fuel precedence tokens = .ok expr rest →
    ∃ kinds, Reads kinds tokens rest ∧ precedence.layer.Derives kinds expr ∧ Stops precedence rest

def Extends (precedence : Precedence) (tokens : List Token) (left : Expr) (rest : List Token) : Prop :=
  ∃ layer kinds, Reads kinds tokens rest ∧ Layer.Derives layer kinds left ∧
    precedence.layer.rank ≤ layer.rank ∧ layer.Follows kinds rest

section Soundness

variable {fuel : Nat} {tokens rest : List Token}

theorem elements_sound (sound : SoundAt fuel) : ∀ (count : Nat) {found results : List Expr}
    {tokens rest : List Token}, tokens.length < fuel →
    elements (expression fuel .lowest) count found tokens = .ok results rest →
    ∃ (parsed : List (List Token.Kind × Expr)) (kinds : List Token.Kind),
      results = found.reverse ++ parsed.map Prod.snd ∧ Separated (parsed.map Prod.fst) kinds ∧
      Reads (kinds ++ [.symbol .closeBracket]) tokens rest ∧
      ∀ element ∈ parsed, Layer.disjunction.Derives element.1 element.2
  | 0, found, results, tokens, rest, _, ran => absurd ran throw_ne_ok
  | count + 1, found, results, tokens, rest, enough, ran => by
    simp only [elements, bind_eq_ok, skipBreaks_eq_ok, next?_eq_ok] at ran
    obtain ⟨expr, tokens₁, parsed, _, tokens₂, ⟨⟨after, skipped⟩, _⟩, token, tokens₃, next, ran⟩ := ran
    obtain ⟨kinds, reads, derives, _⟩ := sound enough parsed
    have length := reads.length
    have length' := skipped.length
    rcases next with ⟨rfl, rfl, rfl⟩ | ⟨token, rfl, rfl⟩
    · exact absurd ran throw_ne_ok
    · generalize same : Option.map Token.kind (some token) = following at ran
      split at ran
      · simp only [bind_eq_ok, skipBreaks_eq_ok] at ran
        obtain ⟨_, tokens₄, ⟨⟨before, skipped'⟩, _⟩, ran⟩ := ran
        have length'' := skipped'.length
        simp only [List.length_cons] at length'
        obtain ⟨parsed', kinds', rfl, separated, reads', derives'⟩ :=
          elements_sound sound count (by omega) ran
        refine ⟨(kinds, expr) :: parsed', _, by simp, .more after before separated, ?_, ?_⟩
        · have comma : token.kind = .symbol .comma := by simpa using same
          have whole := (reads.append skipped).append (.cons comma (skipped'.append reads'))
          simpa using whole
        · exact List.forall_mem_cons.mpr ⟨derives, derives'⟩
      · obtain ⟨rfl, rfl⟩ := pure_eq_ok.mp ran
        have close : token.kind = .symbol .closeBracket := by simpa using same
        refine ⟨[(kinds, expr)], _, by simp, .last after, (reads.append skipped).append (.one close), ?_⟩
        exact List.forall_mem_cons.mpr ⟨derives, nofun⟩
      · exact absurd ran throw_ne_ok

theorem bracketedElements_sound (sound : SoundAt fuel) {count : Nat} {results : List Expr}
    (enough : tokens.length < fuel)
    (ran : bracketedElements (expression fuel .lowest) count tokens = .ok results rest) :
    ∃ (parsed : List (List Token.Kind × Expr)) (kinds : List Token.Kind),
      results = parsed.map Prod.snd ∧ Sequence (parsed.map Prod.fst) kinds ∧
      Reads (kinds ++ [.symbol .closeBracket]) tokens rest ∧
      ∀ element ∈ parsed, Layer.disjunction.Derives element.1 element.2 := by
  simp only [bracketedElements, bind_eq_ok, skipBreaks_eq_ok, accept_eq_ok] at ran
  obtain ⟨_, middle, ⟨⟨before, skipped⟩, _⟩, closed, later, accepted, ran⟩ := ran
  have length := skipped.length
  rcases accepted with ⟨rfl, reads⟩ | ⟨rfl, rfl, _⟩
  · obtain ⟨rfl, rfl⟩ := pure_eq_ok.mp ran
    exact ⟨[], _, rfl, .none before, skipped.append reads, nofun⟩
  · obtain ⟨parsed, kinds, rfl, separated, reads, derives⟩ :=
      elements_sound sound count (by omega) ran
    refine ⟨parsed, _, rfl, .some before separated, ?_, derives⟩
    simpa using skipped.append reads

theorem follows_primary {kinds : List Token.Kind} (complete : ¬ IsBareCreate kinds) :
    Layer.primary.Follows kinds rest :=
  ⟨fun _ _ => Precedence.le_access _, fun bare => absurd bare complete⟩

theorem not_isBareCreate_cons {kind : Token.Kind} {kinds : List Token.Kind}
    (other : kind ≠ .keyword .create) : ¬ IsBareCreate (kind :: kinds) := by
  rintro ⟨type, same⟩
  exact other (List.cons.inj same).1

theorem operand_sound (sound : SoundAt fuel) {precedence : Precedence} {token : Token} {left : Expr}
    (enough : tokens.length < fuel)
    (ran : operand (expression fuel) fuel precedence token tokens = .ok left rest) :
    Extends precedence (token :: tokens) left rest := by
  have within : precedence.layer.rank ≤ Layer.primary.rank :=
    Nat.le_trans precedence.layer_rank_le_signed (by decide)
  have primary {kind : Token.Kind} {kinds : List Token.Kind} (same : token.kind = kind)
      (reads : Reads kinds tokens rest) (derives : Layer.primary.Derives (kind :: kinds) left)
      (other : kind ≠ .keyword .create) : Extends precedence (token :: tokens) left rest :=
    ⟨.primary, _, .cons same reads, derives, within,
      follows_primary (not_isBareCreate_cons other)⟩
  have signed (op : UnaryOp) (sign : op ∈ [.plus, .minus, .increment, .decrement])
      (same : token.kind = op.kind)
      (ran : (do return .unary op (← expression fuel .unary) : Parser Expr) tokens = .ok left rest) :
      Extends precedence (token :: tokens) left rest := by
    simp only [bind_eq_ok, pure_eq_ok] at ran
    obtain ⟨inner, middle, parsed, rfl, rfl⟩ := ran
    obtain ⟨kinds, reads, derives, stops⟩ := sound enough parsed
    refine ⟨.signed, _, .cons same reads, .signed op sign derives, precedence.layer_rank_le_signed,
      stops, fun bare => absurd bare (not_isBareCreate_cons ?_)⟩
    cases op <;> nofun
  unfold operand at ran
  generalize same : token.kind = kind at ran
  split at ran
  case h_1 id =>
    obtain ⟨rfl, rfl⟩ := pure_eq_ok.mp ran
    exact primary same .refl (.name id) nofun
  case h_2 digits =>
    simp only [bind_eq_ok, pure_eq_ok, literalInteger_eq_ok] at ran
    obtain ⟨value, middle, ⟨n, read, rfl, rfl⟩, rfl, rfl⟩ := ran
    exact primary same .refl (.integer read) nofun
  case h_3 text =>
    simp only [bind_eq_ok, pure_eq_ok, literalFloat_eq_ok] at ran
    obtain ⟨value, middle, ⟨read, rfl⟩, rfl, rfl⟩ := ran
    exact primary same .refl (.decimal read) nofun
  case h_4 text =>
    obtain ⟨rfl, rfl⟩ := pure_eq_ok.mp ran
    exact primary same .refl (.string text) nofun
  case h_5 value =>
    obtain ⟨rfl, rfl⟩ := pure_eq_ok.mp ran
    exact primary same .refl (.boolean value) nofun
  case h_6 => exact signed .plus (by decide) same ran
  case h_7 => exact signed .minus (by decide) same ran
  case h_8 => exact signed .increment (by decide) same ran
  case h_9 => exact signed .decrement (by decide) same ran
  case h_10 =>
    split at ran
    · next allowed =>
      simp only [bind_eq_ok, pure_eq_ok] at ran
      obtain ⟨inner, middle, parsed, rfl, rfl⟩ := ran
      obtain ⟨kinds, reads, derives, stops⟩ := sound enough parsed
      have loose : precedence.layer.rank ≤ Layer.negation.rank := by
        revert allowed
        cases precedence <;> decide
      exact ⟨.negation, _, .cons same reads, .negation derives, loose, stops,
        fun bare => absurd bare (not_isBareCreate_cons nofun)⟩
    · exact absurd ran throw_ne_ok
  case h_11 =>
    simp only [bind_eq_ok, pure_eq_ok, expect_eq_ok] at ran
    obtain ⟨inner, middle, parsed, _, later, close, rfl, rfl⟩ := ran
    obtain ⟨kinds, reads, derives, _⟩ := sound enough parsed
    exact primary same (reads.append close) (.group derives) nofun
  case h_12 =>
    simp only [bind_eq_ok, pure_eq_ok] at ran
    obtain ⟨results, middle, parsed, rfl, rfl⟩ := ran
    obtain ⟨found, kinds, rfl, sequence, reads, derives⟩ :=
      bracketedElements_sound sound enough parsed
    exact primary same reads (.list sequence derives) nofun
  case h_13 =>
    simp only [bind_eq_ok, identifier_eq_ok, accept_eq_ok] at ran
    obtain ⟨type, middle, named, opened, later, accepted, ran⟩ := ran
    have length := named.length
    rcases accepted with ⟨rfl, bracket⟩ | ⟨rfl, rfl, none⟩
    · have length' := bracket.length
      simp only [if_true, bind_eq_ok, pure_eq_ok] at ran
      obtain ⟨results, _, parsed, rfl, rfl⟩ := ran
      obtain ⟨found, kinds, rfl, sequence, reads, derives⟩ :=
        bracketedElements_sound sound (by omega) parsed
      refine ⟨.primary, _, .cons same (named.append (bracket.append reads)),
        .create sequence derives, within, follows_primary ?_⟩
      rintro ⟨_, bare⟩
      simp at bare
    · obtain ⟨rfl, rfl⟩ := pure_eq_ok.mp ran
      exact ⟨.primary, _, .cons same named, .bareCreate type, within,
        fun _ _ => Precedence.le_access _, fun _ => none⟩
  all_goals exact absurd ran throw_ne_ok

-- The layer that an operator to the left admits derives the left operand.
theorem derives_before {layer : Layer} {kinds : List Token.Kind} {left : Expr} {token : Token}
    {continuation : Continuation} (derives : layer.Derives kinds left)
    (follows : layer.Follows kinds (token :: tokens))
    (found : Continuation.ofKind? token.kind = some continuation) :
    continuation.precedence.before.Derives kinds left := by
  refine .loosen (Precedence.before_rank_le ?_) derives
  have allowed := follows.1 token rfl
  rwa [Precedence.ofKind, found] at allowed

theorem continued_sound (sound : SoundAt fuel) {kinds : List Token.Kind} {left larger : Expr}
    {continuation : Continuation} {kind : Token.Kind} (enough : tokens.length < fuel)
    (derives : continuation.precedence.before.Derives kinds left)
    (complete : kind = .symbol .openBracket → ¬ IsBareCreate kinds)
    (found : Continuation.ofKind? kind = some continuation)
    (ran : continued (expression fuel) left continuation tokens = .ok larger rest) :
    ∃ kinds', Reads kinds' tokens rest ∧
      continuation.precedence.result.Derives (kinds ++ kind :: kinds') larger ∧
      Stops continuation.precedence.result.limit rest := by
  obtain rfl := Continuation.kind_of_ofKind? found
  cases continuation with
  | arithmetic op =>
    simp only [continued, bind_eq_ok, pure_eq_ok] at ran
    obtain ⟨right, middle, parsed, rfl, rfl⟩ := ran
    obtain ⟨kinds', reads, derives', stops⟩ := sound enough parsed
    refine ⟨kinds', reads, ?_, by cases op <;> exact stops⟩
    cases op with
    | add => exact .sum .add (by decide) derives derives'
    | subtract => exact .sum .subtract (by decide) derives derives'
    | multiply => exact .product .multiply (by decide) derives derives'
    | divide => exact .product .divide (by decide) derives derives'
    | modulo => exact .product .modulo (by decide) derives derives'
  | logical op =>
    simp only [continued, bind_eq_ok, pure_eq_ok] at ran
    obtain ⟨right, middle, parsed, rfl, rfl⟩ := ran
    obtain ⟨kinds', reads, derives', stops⟩ := sound enough parsed
    refine ⟨kinds', reads, ?_, by cases op <;> exact stops⟩
    cases op with
    | disjunction => exact .disjunction derives derives'
    | conjunction => exact .conjunction derives derives'
  | comparison op =>
    simp only [continued, bind_eq_ok, pure_eq_ok] at ran
    obtain ⟨right, middle, parsed, rfl, rfl⟩ := ran
    obtain ⟨kinds', reads, derives', stops⟩ := sound enough parsed
    exact ⟨kinds', reads, .comparison op derives derives', stops⟩
  | step op =>
    obtain ⟨rfl, rfl⟩ := pure_eq_ok.mp ran
    exact ⟨[], .refl, .step op (Continuation.step_of_ofKind? found) derives,
      fun _ _ => Precedence.le_access _⟩
  | index =>
    simp only [continued, bind_eq_ok, pure_eq_ok, expect_eq_ok] at ran
    obtain ⟨position, middle, parsed, _, later, close, rfl, rfl⟩ := ran
    obtain ⟨kinds', reads, derives', _⟩ := sound enough parsed
    exact ⟨_, reads.append close, .index derives (complete rfl) derives',
      fun _ _ => Precedence.le_access _⟩
  | member =>
    simp only [continued, bind_eq_ok, pure_eq_ok, identifier_eq_ok] at ran
    obtain ⟨field, middle, named, rfl, rfl⟩ := ran
    exact ⟨_, named, .member field derives, fun _ _ => Precedence.le_access _⟩

theorem stops_of_none {precedence : Precedence} {token : Token}
    (found : Continuation.ofKind? token.kind = none) : Stops precedence (token :: rest) := by
  rintro _ ⟨⟩
  rw [Precedence.ofKind, found]
  exact Nat.zero_le _

theorem stops_of_some {precedence : Precedence} {token : Token} {continuation : Continuation}
    (found : Continuation.ofKind? token.kind = some continuation)
    (stronger : ¬ precedence < continuation.precedence) : Stops precedence (token :: rest) := by
  rintro _ ⟨⟩
  rw [Precedence.ofKind, found]
  exact Nat.le_of_not_lt stronger

-- The invariant of the loop is that what has been read so far, from `start` on, derives `left`.
theorem continuations_sound (sound : SoundAt fuel) {precedence : Precedence} :
    ∀ (count : Nat) {left expr : Expr} {start tokens rest : List Token},
    tokens.length < fuel → tokens.length ≤ count → Extends precedence start left tokens →
    continuations (expression fuel) precedence count left tokens = .ok expr rest →
    ∃ kinds, Reads kinds start rest ∧ precedence.layer.Derives kinds expr ∧ Stops precedence rest
  | 0, left, expr, start, tokens, rest, _, most, ⟨layer, kinds, reads, derives, within, _⟩, ran => by
    obtain ⟨rfl, rfl⟩ := pure_eq_ok.mp ran
    obtain rfl := List.eq_nil_of_length_eq_zero (Nat.le_zero.mp most)
    exact ⟨kinds, reads, .loosen within derives, nofun⟩
  | count + 1, left, expr, start, tokens, rest, enough, most,
      ⟨layer, kinds, reads, derives, within, follows⟩, ran => by
    simp only [continuations, bind_eq_ok, peek?_eq_ok] at ran
    obtain ⟨_, _, ⟨rfl, rfl⟩, ran⟩ := ran
    match tokens with
    | [] =>
      obtain ⟨rfl, rfl⟩ := pure_eq_ok.mp ran
      exact ⟨kinds, reads, .loosen within derives, nofun⟩
    | token :: later =>
      simp only [List.head?_cons, Option.map_some, Option.bind_some] at ran
      cases found : Continuation.ofKind? token.kind with
      | none =>
        simp only [found] at ran
        obtain ⟨rfl, rfl⟩ := pure_eq_ok.mp ran
        exact ⟨kinds, reads, .loosen within derives, stops_of_none found⟩
      | some continuation =>
        simp only [found] at ran
        by_cases weaker : precedence < continuation.precedence
        · simp only [weaker, if_true, bind_eq_ok, next?_eq_ok] at ran
          obtain ⟨_, _, ⟨_, impossible, _⟩ | ⟨_, rfl, ⟨rfl, rfl⟩⟩, larger, middle, continued, ran⟩ := ran
          · cases impossible
          simp only [List.length_cons] at enough most
          have complete (bracket : token.kind = .symbol .openBracket) : ¬ IsBareCreate kinds :=
            fun bare => follows.2 bare (by simp [bracket])
          obtain ⟨kinds', reads', derives', stops⟩ := continued_sound sound (by omega)
            (derives_before derives follows found) complete found continued
          have length := reads'.length
          obtain ⟨first, others, rfl, _⟩ := derives.starts
          refine continuations_sound sound count (by omega) (by omega) ?_ ran
          refine ⟨_, _, reads.append (.cons rfl reads'), derives',
            Precedence.layer_rank_le_result weaker, stops, fun bare => absurd bare ?_⟩
          refine not_isBareCreate_append (List.cons_ne_nil _ _) ?_
          rw [← Continuation.kind_of_ofKind? found]
          exact continuation.kind_ne_name
        · simp only [weaker, if_false] at ran
          obtain ⟨rfl, rfl⟩ := pure_eq_ok.mp ran
          exact ⟨kinds, reads, .loosen within derives, stops_of_some found weaker⟩

theorem expression_sound : ∀ fuel, SoundAt fuel
  | 0 => fun _ _ _ _ less _ => absurd less (Nat.not_lt_zero _)
  | fuel + 1 => by
    intro precedence tokens rest expr less ran
    simp only [expression, bind_eq_ok, next?_eq_ok] at ran
    obtain ⟨_, middle, ⟨rfl, rfl, rfl⟩ | ⟨token, rfl, rfl⟩, ran⟩ := ran
    · exact absurd ran throw_ne_ok
    · simp only [bind_eq_ok] at ran
      obtain ⟨left, later, parsed, ran⟩ := ran
      have enough : middle.length < fuel := by simpa using less
      have extended := operand_sound (expression_sound fuel) enough parsed
      -- An operand takes at least one token, so the fuel that is left covers the continuations.
      have shorter : later.length ≤ middle.length := by
        obtain ⟨_, kinds, reads, derives, _⟩ := extended
        obtain ⟨first, others, rfl, _⟩ := derives.starts
        have length := reads.length
        simp only [List.length_cons] at length
        omega
      exact continuations_sound (expression_sound fuel) fuel (by omega) (by omega) extended ran

end Soundness

end Parser

end ByNeed
