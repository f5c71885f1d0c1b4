import ByNeed.Proofs.Grammar.Leads
import ByNeed.Proofs.Grammar.Prefix

set_option autoImplicit false

namespace ByNeed

-- The tokens end with the keyword of a case and a minus sign.
def OpensNegative (before : List Token) : Prop :=
  ∃ front option minus, before = front ++ [option, minus] ∧
    option.kind = .keyword .option ∧ minus.kind = .symbol .minus

-- The error for an illegal token after some others.
def SyntaxError.IsFor (before : List Token) (token : Token) (fault : LexError)
    (error : SyntaxError) : Prop :=
  OpensNegative before ∧ error = .notAPattern token ∨
    ¬ OpensNegative before ∧ error = .lexical fault token.span

theorem Lead.of_eq_option {before : List Token} :
    Lead.of before = .option ↔ ∃ token ∈ before.getLast?, token.kind = .keyword .option := by
  rcases List.eq_nil_or_concat' before with rfl | ⟨front, last, rfl⟩
  · simp [Lead.of, Lead.after]
  · simp [Lead.of_concat, Lead.next_eq_option]

theorem Lead.of_eq_sign {before : List Token} : Lead.of before = .sign ↔ OpensNegative before := by
  constructor
  · intro sign
    rcases List.eq_nil_or_concat' before with rfl | ⟨before, minus, rfl⟩
    · cases sign
    · rw [Lead.of_concat, Lead.next_eq_sign, Lead.of_eq_option] at sign
      obtain ⟨⟨option, last, opens⟩, signed⟩ := sign
      obtain ⟨front, rfl⟩ := List.getLast?_eq_some_iff.mp last
      exact ⟨front, option, minus, by simp, opens, signed⟩
  · rintro ⟨front, option, minus, rfl, opens, signed⟩
    rw [← List.singleton_append, ← List.append_assoc, Lead.of_concat, Lead.next_eq_sign, Lead.of_eq_option]
    exact ⟨⟨option, by simp, opens⟩, signed⟩

theorem SyntaxError.Suits.isFor {before : List Token} {token other : Token} {fault : LexError}
    {error : SyntaxError} (suits : error.Suits (Lead.of before) other) (about : error.About token)
    (illegal : token.kind = .illegal fault) : other = token ∧ error.IsFor before token fault := by
  cases suits with
  | unexpected _ legal | notAnExpression legal | notAPattern legal =>
    cases about
    exact absurd illegal (legal fault)
  | signedIllegal _ signed =>
    cases about
    exact ⟨rfl, .inl ⟨Lead.of_eq_sign.mp signed, rfl⟩⟩
  | illegal illegal' plain =>
    obtain ⟨kind, span⟩ := other
    cases about
    cases illegal
    cases illegal'
    exact ⟨rfl, .inr ⟨fun opens => plain (Lead.of_eq_sign.mpr opens), rfl⟩⟩
  | tooLarge | tooSmall =>
    obtain ⟨digits, integer, -⟩ := about
    cases integer.symm.trans illegal

namespace Parser

variable {α : Type} {before tokens : List Token}

structure Clear (before : List Token) : Prop where
  last : ∀ token ∈ before.getLast?, token.kind ≠ .keyword .option
  sign : ¬ OpensNegative before

theorem clear_iff : Clear before ↔ Lead.of before = .other := by
  have plain : Lead.of before ≠ .option ↔ ∀ token ∈ before.getLast?, token.kind ≠ .keyword .option := by
    simp [Lead.of_eq_option]
  constructor
  · rintro ⟨last, sign⟩
    cases lead : Lead.of before with
    | other => rfl
    | option => exact absurd lead (plain.mpr last)
    | sign => exact absurd (Lead.of_eq_sign.mp lead) sign
  · intro other
    refine ⟨plain.mp (by simp [other]), fun opens => ?_⟩
    cases other.symm.trans (Lead.of_eq_sign.mpr opens)

theorem clear_nil : Clear [] :=
  clear_iff.mpr rfl

def Accounts (before tokens : List Token) : EStateM.Result SyntaxError (List Token) α → Prop
  | .ok _ rest => ∃ used, tokens = used ++ rest ∧ Clear (before ++ used)
  | .error error _ => ∀ token fault, error.About token → token.kind = .illegal fault →
    ∃ used rest, tokens = used ++ token :: rest ∧ error.IsFor (before ++ used) token fault

def Reports (parser : Parser α) : Prop :=
  ∀ tokens before, Clear before → Accounts before tokens (parser tokens)

theorem Heeds.reports {parser : Parser α} (heeds : Heeds parser) : Reports parser := by
  intro tokens before clear
  have other := clear_iff.mp clear
  have settles := heeds tokens
  cases result : parser tokens with
  | ok value rest =>
    rw [result] at settles
    obtain ⟨used, split, other'⟩ := settles
    exact ⟨used, split, clear_iff.mpr (by rw [Lead.of_append other, other'])⟩
  | error error rest =>
    rw [result] at settles
    intro token fault about illegal
    cases settles with
    | endOfInput | malformedFloat => exact about.elim
    | about split suits =>
      rw [← Lead.of_append other] at suits
      obtain ⟨rfl, isFor⟩ := suits.isFor about illegal
      exact ⟨_, _, split, isFor⟩

theorem reports_statements (fuel : Nat) (found : List Statement) : Reports (statements fuel found) :=
  (heeds_statements fuel found).reports

end Parser

/-- An error about an illegal token of the source is the error for it. -/
theorem Program.parse_error_illegal {source : String} {error : SyntaxError} {token : Token}
    {fault : LexError} (failed : Program.parse source = .error error) (about : error.About token)
    (illegal : token.kind = .illegal fault) :
    ∃ before rest, Token.scan source = before ++ token :: rest ∧ error.IsFor before token fault := by
  unfold Program.parse Program.ofTokens at failed
  generalize Token.scan source = tokens at failed ⊢
  have accounts := Parser.reports_statements (tokens.length + 1) [] tokens [] Parser.clear_nil
  cases result : Parser.statements (tokens.length + 1) [] tokens with
  | ok statements rest =>
    rw [result] at failed
    cases failed
  | error error' rest =>
    rw [result] at failed accounts
    cases failed
    exact accounts token fault about illegal

theorem Program.parse_error_illegal_atSign :
    Program.parse "a = @" = .error (.lexical (.unknownCharacter '@') ⟨4, 5⟩) ∧
      ∃ before rest, Token.scan "a = @" = before ++ ⟨.illegal (.unknownCharacter '@'), ⟨4, 5⟩⟩ :: rest ∧
        (SyntaxError.lexical (.unknownCharacter '@') ⟨4, 5⟩).IsFor before
          ⟨.illegal (.unknownCharacter '@'), ⟨4, 5⟩⟩ (.unknownCharacter '@') := by
  have failed : Program.parse "a = @" = .error (.lexical (.unknownCharacter '@') ⟨4, 5⟩) := by cbv
  exact ⟨failed, Program.parse_error_illegal failed rfl rfl⟩

theorem Program.parse_notAPattern_illegal :
    Program.parse "atchmerb x\nasecerb -@ henterb 1\nndeerb" =
      .error (.notAPattern ⟨.illegal (.unknownCharacter '@'), ⟨20, 21⟩⟩) := by
  cbv

end ByNeed
