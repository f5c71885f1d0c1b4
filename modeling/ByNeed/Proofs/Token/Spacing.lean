import ByNeed.Proofs.Token.Tiling

set_option autoImplicit false

-- Each text of a token is a token when it stands alone, and no token goes beyond a space but a string that is
-- not closed, which is the last one.
namespace ByNeed

def respaced (source : String) : String :=
  " ".intercalate ((Token.scan source).map fun token => token.span.text source)

namespace Token

section Alone

variable {kind : Kind} {first : Char} {more rest : List Char}

theorem commentExtra?_eq_none_iff {text : List Char} :
    commentExtra? first text = none ↔ ¬ (first = '^' ∧ text.head? = some '^') := by
  simp [commentExtra?]

theorem Lexed.kinds_eq (lexed : Lexed kind first more rest) :
    kinds (first :: more ++ rest) = kind :: kinds rest := by
  simp [kinds, kindsFrom, lexed.solid, lexed.plain, lexed.lexeme, kindsFrom_append]

theorem Lexed.space (lexed : Lexed kind first more []) (closed : kind ≠ unterminated)
    (rest : List Char) : Lexed kind first more (' ' :: rest) := by
  obtain ⟨solid, plain, lexeme⟩ := lexed
  rw [List.append_nil] at plain lexeme
  refine ⟨solid, ?_, ?_⟩
  · rw [commentExtra?_eq_none_iff] at plain ⊢
    cases more with
    | nil => simp
    | cons next more => exact plain
  · have found : (Lexeme.of first more).kind ≠ unterminated := by rwa [lexeme]
    rw [(Lexeme.of_stop (show separates ' ' = true by decide) found rest).1, lexeme]

end Alone

section Tokens

variable {tokens tokens' : List Token}

theorem kinds_intercalate {text : Token → String}
    (spelled : ∀ token ∈ tokens, Spells (text token) token.kind)
    (closed : tokens.Pairwise fun earlier _ => earlier.kind ≠ unterminated) :
    kinds (" ".intercalate (tokens.map text)).toList = tokens.map Token.kind := by
  induction tokens with
  | nil => rfl
  | cons token tokens ih =>
    rw [List.forall_mem_cons] at spelled
    rw [List.pairwise_cons] at closed
    obtain ⟨first, more, spelling, lexed⟩ := spelled.1.lexed
    have later := ih spelled.2 closed.2
    cases tokens with
    | nil => simpa [spelling] using lexed.kinds_eq
    | cons next tokens =>
      have space := lexed.space (closed.1 next List.mem_cons_self)
        (" ".intercalate ((next :: tokens).map text)).toList
      have joined : (" ".intercalate ((token :: next :: tokens).map text)).toList =
          first :: more ++ ' ' :: (" ".intercalate ((next :: tokens).map text)).toList := by
        rw [← spelling]
        simp [String.toList_intercalate]
      rw [joined, space.kinds_eq, kinds_gap (by decide), later]
      rfl

theorem pairwise_closed (source : String) :
    (scan source).Pairwise fun earlier _ => earlier.kind ≠ unterminated := by
  apply (tiles_scan source).apart.imp_of_mem
  intro earlier later member member' apart opened
  have stop := (stands_scan member).opened opened
  have filled := (stands_scan member').filled
  have inside := (stands_scan member').inside
  omega

theorem nodup_span_scan (source : String) : ((scan source).map Token.span).Nodup := by
  apply List.Pairwise.map
  · intro earlier later different
    exact different
  apply (tiles_scan source).apart.imp_of_mem
  intro earlier later member member' apart same
  have filled := (stands_scan member').filled
  rw [same] at apart
  omega

-- Tokens at different places can be moved one by one.
theorem exists_move (distinct : (tokens.map Token.span).Nodup)
    (same : tokens'.map Token.kind = tokens.map Token.kind) :
    ∃ place, tokens' = tokens.map (Token.move place) := by
  induction tokens generalizing tokens' with
  | nil => exact ⟨id, by simpa using same⟩
  | cons token tokens ih =>
    cases tokens' with
    | nil => cases same
    | cons token' tokens' =>
      rw [List.map_cons, List.map_cons, List.cons_eq_cons] at same
      rw [List.map_cons, List.nodup_cons] at distinct
      obtain ⟨place, rfl⟩ := ih distinct.2 same.2
      refine ⟨Function.update place token.span token'.span, ?_⟩
      rw [List.map_cons, List.cons_eq_cons]
      constructor
      · rw [Token.move, Function.update_self, ← same.1]
      · apply List.map_congr_left
        intro other member
        have elsewhere : other.span ≠ token.span := by
          intro here
          exact distinct.1 (here ▸ List.mem_map_of_mem member)
        rw [Token.move, Token.move, Function.update_of_ne elsewhere]

end Tokens

/-- Layout does not matter beyond line breaks. -/
theorem parse_respaced (source : String) :
    ∃ place : Span → Span,
      (scan (respaced source)).map Token.kind = (scan source).map Token.kind ∧
      scan (respaced source) = (scan source).map (Token.move place) ∧
      Program.parse (respaced source) = (Program.parse source).mapError (SyntaxError.move place) := by
  have spelled : ∀ token ∈ scan source, Spells (token.span.text source) token.kind :=
    fun token member => ((stands_scan member).spelled token.kind).mpr rfl
  have same : (scan (respaced source)).map Token.kind = (scan source).map Token.kind := by
    rw [map_kind_scan]
    exact kinds_intercalate spelled (pairwise_closed source)
  obtain ⟨place, moved⟩ := exists_move (nodup_span_scan source) same
  refine ⟨place, same, moved, ?_⟩
  rw [Program.parse, moved]
  exact Program.ofTokens_move place (scan source)

end Token

end ByNeed
