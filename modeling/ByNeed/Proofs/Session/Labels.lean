import ByNeed.Proofs.Grammar.PrefixStatement
import ByNeed.Proofs.Token.Tiling
import ByNeed.Session.Report

set_option autoImplicit false

-- An error that carries a token, or the place of one, has it from the scan of the source text.
namespace ByNeed

structure Label.Within (label : Label) (source : String) : Prop where
  inside : label.offset + label.length ≤ source.utf8ByteSize
  starts : String.Pos.Raw.IsValid source ⟨label.offset⟩
  stops : String.Pos.Raw.IsValid source ⟨label.offset + label.length⟩

def Label.span (label : Label) : Span :=
  ⟨label.offset, label.offset + label.length⟩

def SyntaxError.isPlaceless : SyntaxError → Bool
  | .endOfInput _ | .integerOutOfRange _ => true
  | _ => false

section Errors

variable {source : String} {error : SyntaxError} {token : Token}

theorem parse_error_about (failed : Program.parse source = .error error) :
    (∃ expected, error = .endOfInput expected) ∨ ∃ token ∈ Token.scan source, error.About token := by
  obtain ⟨ended, -⟩ | ⟨before, token, rest, split, about, -⟩ := parse_error_at failed
  · exact .inl ended
  · exact .inr ⟨token, by simp [split], about⟩

theorem SyntaxError.span?_of_about (about : error.About token) (placed : error.isPlaceless = false) :
    error.span? = some token.span := by
  cases error with
  | endOfInput | integerOutOfRange => cases placed
  | malformedFloat => exact about.elim
  | unexpected | notAnExpression | notAPattern =>
    cases about
    rfl
  | lexical fault span =>
    cases about
    rfl

theorem SyntaxError.span?_of_isPlaceless (placeless : error.isPlaceless = true) : error.span? = none := by
  cases error <;> first | rfl | cases placeless

end Errors

section Labels

variable {source : String} {error : SyntaxError} {token : Token} {label : Label}

theorem label_within_token (member : token ∈ Token.scan source) (here : label.span = token.span) :
    label.Within source := by
  have inside := (Token.stands_scan member).inside
  obtain ⟨starts, stops⟩ := (Token.stands_scan member).whole
  rw [← here] at inside starts stops
  exact ⟨inside, starts, stops⟩

theorem label_within_end (here : label.span = ⟨source.utf8ByteSize, source.utf8ByteSize⟩) :
    label.Within source := by
  have last : String.Pos.Raw.IsValid source ⟨source.utf8ByteSize⟩ := by
    rw [← Token.byteSize_toList]
    exact Token.valid_of_split (List.append_nil _).symm
  obtain ⟨starts, stops⟩ := Span.mk.inj here
  exact ⟨Nat.le_of_eq stops, starts ▸ last, stops ▸ last⟩

/-- If a source text is no program, the report has one label, which lies within the text. The label is the
place of the token that the error is about. Only if the input ended too early or an integer is out of
range, the label is empty and stands at the end of the text. -/
theorem Report.label_points_into_source (failed : Program.parse source = .error error) :
    ∃ label, (Report.ofSyntaxError source error).labels = [label] ∧ label.Within source ∧
      (∀ span, error.span? = some span → span.start ≤ span.stop ∧ label.span = span) ∧
      (error.isPlaceless = false →
        ∃ token ∈ Token.scan source, error.About token ∧ label.span = token.span) ∧
      (error.isPlaceless = true → label.offset = source.utf8ByteSize ∧ label.length = 0) := by
  cases placeless : error.isPlaceless with
  | true =>
    have nowhere := SyntaxError.span?_of_isPlaceless placeless
    refine ⟨⟨source.utf8ByteSize, 0, error.labelText⟩, by simp [ofSyntaxError, nowhere], ?_, ?_, ?_, ?_⟩
    · exact label_within_end rfl
    · simp [nowhere]
    · simp
    · exact fun _ => ⟨rfl, rfl⟩
  | false =>
    obtain ⟨expected, rfl⟩ | ⟨token, member, about⟩ := parse_error_about failed
    · cases placeless
    · have place := SyntaxError.span?_of_about about placeless
      have filled := (Token.stands_scan member).filled
      have here : Label.span ⟨token.span.start, token.span.stop - token.span.start, error.labelText⟩ =
          token.span := by
        simp only [Label.span, Nat.add_sub_cancel' (Nat.le_of_lt filled)]
      refine ⟨_, by simp [ofSyntaxError, place], label_within_token member here, ?_, ?_, ?_⟩
      · rintro span known
        cases place.symm.trans known
        exact ⟨Nat.le_of_lt filled, here⟩
      · exact fun _ => ⟨token, member, about, here⟩
      · simp

-- The letter before the error takes two bytes.
theorem Report.label_points_into_source_umlaut :
    Program.parse "a = \"ü\" )" = .error (.unexpected .statementEnd ⟨.symbol .closeParen, ⟨9, 10⟩⟩) ∧
      ∃ label, (Report.ofSyntaxError "a = \"ü\" )"
          (.unexpected .statementEnd ⟨.symbol .closeParen, ⟨9, 10⟩⟩)).labels = [label] ∧
        label.Within "a = \"ü\" )" ∧ label.span = ⟨9, 10⟩ := by
  have failed : Program.parse "a = \"ü\" )" =
      .error (.unexpected .statementEnd ⟨.symbol .closeParen, ⟨9, 10⟩⟩) := by cbv
  obtain ⟨label, labels, within, place, _⟩ := Report.label_points_into_source failed
  exact ⟨failed, label, labels, within, (place ⟨9, 10⟩ rfl).2⟩

end Labels

end ByNeed
