import ByNeed.Grammar.Parser
import Mathlib

set_option autoImplicit false

-- What a parser read is the list of the kinds of its tokens; the places of the tokens matter only to errors.
namespace ByNeed

def Reads : List Token.Kind → List Token → List Token → Prop
  | [], tokens, rest => tokens = rest
  | kind :: kinds, tokens, rest =>
    ∃ token later, tokens = token :: later ∧ token.kind = kind ∧ Reads kinds later rest

namespace Reads

variable {first second kinds : List Token.Kind} {kind : Token.Kind} {tokens rest : List Token}

theorem refl : Reads [] tokens tokens := rfl

@[simp] theorem nil_iff : Reads [] tokens rest ↔ tokens = rest := Iff.rfl

theorem cons_iff : Reads (kind :: kinds) tokens rest ↔
    ∃ token later, tokens = token :: later ∧ token.kind = kind ∧ Reads kinds later rest := Iff.rfl

@[simp] theorem not_cons_nil : ¬ Reads (kind :: kinds) [] rest := by
  rintro ⟨_, _, none, _⟩
  cases none

@[simp] theorem cons_cons_iff {token : Token} :
    Reads (kind :: kinds) (token :: tokens) rest ↔ token.kind = kind ∧ Reads kinds tokens rest := by
  constructor
  · rintro ⟨_, _, ⟨rfl, rfl⟩, same, reads⟩
    exact ⟨same, reads⟩
  · rintro ⟨same, reads⟩
    exact ⟨token, tokens, rfl, same, reads⟩

theorem append_iff :
    Reads (first ++ second) tokens rest ↔ ∃ middle, Reads first tokens middle ∧
      Reads second middle rest := by
  induction first generalizing tokens with
  | nil => simp
  | cons kind first ih =>
    simp only [List.cons_append, cons_iff, ih]
    constructor
    · rintro ⟨token, later, rfl, same, middle, reads, reads'⟩
      exact ⟨middle, ⟨token, later, rfl, same, reads⟩, reads'⟩
    · rintro ⟨middle, ⟨token, later, rfl, same, reads⟩, reads'⟩
      exact ⟨token, later, rfl, same, middle, reads, reads'⟩

theorem append {middle : List Token} (reads : Reads first tokens middle)
    (reads' : Reads second middle rest) : Reads (first ++ second) tokens rest :=
  append_iff.mpr ⟨middle, reads, reads'⟩

theorem cons {token : Token} (same : token.kind = kind) (reads : Reads kinds tokens rest) :
    Reads (kind :: kinds) (token :: tokens) rest :=
  ⟨token, tokens, rfl, same, reads⟩

theorem one {token : Token} (same : token.kind = kind) : Reads [kind] (token :: rest) rest :=
  cons same rfl

theorem head?_eq (reads : Reads (kind :: kinds) tokens rest) :
    tokens.head?.map Token.kind = some kind := by
  obtain ⟨token, later, rfl, same, _⟩ := reads
  simp [same]

theorem length (reads : Reads kinds tokens rest) : tokens.length = kinds.length + rest.length := by
  induction kinds generalizing tokens with
  | nil => rw [nil_iff.mp reads]; simp
  | cons kind kinds ih =>
    obtain ⟨token, later, rfl, same, reads⟩ := reads
    have := ih reads
    simp only [List.length_cons]
    omega

theorem iff_append :
    Reads kinds tokens rest ↔ ∃ consumed, tokens = consumed ++ rest ∧
      consumed.map Token.kind = kinds := by
  induction kinds generalizing tokens with
  | nil => simp
  | cons kind kinds ih =>
    simp only [cons_iff, ih]
    constructor
    · rintro ⟨token, later, rfl, same, consumed, rfl, maps⟩
      exact ⟨token :: consumed, rfl, by simp [same, maps]⟩
    · rintro ⟨consumed, rfl, maps⟩
      obtain ⟨token, consumed, rfl, same, maps⟩ := List.map_eq_cons_iff.mp maps
      exact ⟨token, consumed ++ rest, rfl, same, consumed, rfl, maps⟩

end Reads

theorem eq_cons_of_head? {kind : Token.Kind} {tokens : List Token}
    (found : tokens.head?.map Token.kind = some kind) :
    ∃ token later, tokens = token :: later ∧ token.kind = kind := by
  match tokens with
  | token :: later => exact ⟨token, later, rfl, Option.some.inj found⟩

namespace Parser

variable {α β : Type} {tokens rest : List Token}

theorem bind_eq_ok {parser : Parser α} {next : α → Parser β} {result : β} :
    (parser >>= next) tokens = .ok result rest ↔
      ∃ found middle, parser tokens = .ok found middle ∧ next found middle = .ok result rest := by
  simp only [Bind.bind, EStateM.bind]
  cases parser tokens with
  | error error middle => simp
  | ok found middle =>
    constructor
    · intro later
      exact ⟨found, middle, rfl, later⟩
    · rintro ⟨_, _, ⟨rfl, rfl⟩, later⟩
      exact later

theorem pure_eq_ok {value result : α} :
    (pure value : Parser α) tokens = .ok result rest ↔ value = result ∧ tokens = rest := by
  simp [Pure.pure, EStateM.pure]

theorem map_eq_ok {parser : Parser α} {change : α → β} {result : β} :
    (change <$> parser) tokens = .ok result rest ↔
      ∃ found, parser tokens = .ok found rest ∧ change found = result := by
  simp only [Functor.map, EStateM.map]
  cases parser tokens <;> grind

@[simp] theorem throw_ne_ok {error : SyntaxError} {result : α} :
    (throw error : Parser α) tokens ≠ .ok result rest := by
  simp [throw, throwThe, MonadExceptOf.throw, EStateM.throw]

theorem next?_bind_cons {next : Option Token → Parser β} (token : Token) :
    (next? >>= next) (token :: rest) = next (some token) rest := rfl

theorem next?_eq_ok {found : Option Token} :
    next? tokens = .ok found rest ↔
      (found = none ∧ tokens = [] ∧ rest = []) ∨ ∃ token, found = some token ∧ tokens = token :: rest := by
  cases tokens with
  | nil => grind [next?]
  | cons token later => grind [next?]

theorem get_eq_ok {found : List Token} :
    (get : Parser (List Token)) tokens = .ok found rest ↔ tokens = found ∧ tokens = rest := by
  simp [get, getThe, MonadStateOf.get, EStateM.get]

theorem peek?_eq_ok {found : Option Token.Kind} :
    peek? tokens = .ok found rest ↔ found = tokens.head?.map Token.kind ∧ tokens = rest := by
  cases tokens <;> grind [peek?]

theorem expect_eq_ok {kind : Token.Kind} {found : Unit} :
    expect kind tokens = .ok found rest ↔ Reads [kind] tokens rest := by
  cases tokens with
  | nil => simp [expect]
  | cons token later => by_cases same : token.kind = kind <;> simp [expect, same]

theorem identifier_eq_ok {id : String} :
    identifier tokens = .ok id rest ↔ Reads [.name id] tokens rest := by
  match tokens with
  | [] => simp [identifier]
  | ⟨kind, span⟩ :: later => cases kind <;> simp [identifier]

theorem accept_eq_ok {kind : Token.Kind} {found : Bool} :
    accept kind tokens = .ok found rest ↔
      (found = true ∧ Reads [kind] tokens rest) ∨
        (found = false ∧ tokens = rest ∧ tokens.head?.map Token.kind ≠ some kind) := by
  cases tokens with
  | nil => grind [accept, Reads.not_cons_nil]
  | cons token later => grind [accept, Reads.cons_cons_iff, Reads.nil_iff]

def breaks (count : Nat) : List Token.Kind :=
  List.replicate count .lineBreak

theorem breaks_append (first second : Nat) :
    breaks first ++ breaks second = breaks (first + second) :=
  List.replicate_append_replicate

theorem skipBreaks_reads : ∀ tokens : List Token,
    ∃ count, Reads (breaks count) tokens (tokens.dropWhile fun token => token.kind = .lineBreak)
  | [] => ⟨0, rfl⟩
  | token :: later => by
    by_cases same : token.kind = .lineBreak
    · obtain ⟨count, reads⟩ := skipBreaks_reads later
      exact ⟨count + 1, by simpa [same, breaks, List.replicate_succ] using reads⟩
    · exact ⟨0, by simp [same, breaks]⟩

theorem dropWhile_of_reads_breaks {count : Nat}
    (stops : rest.head?.map Token.kind ≠ some .lineBreak) :
    ∀ {tokens : List Token}, Reads (breaks count) tokens rest →
      (tokens.dropWhile fun token => token.kind = .lineBreak) = rest := by
  induction count with
  | zero =>
    rintro tokens rfl
    cases tokens with
    | nil => rfl
    | cons token later =>
      have other : token.kind ≠ .lineBreak := by simpa using stops
      simp [other]
  | succ count ih =>
    rintro tokens ⟨token, later, rfl, same, reads⟩
    simpa [same] using ih reads

theorem skipBreaks_eq_ok {found : Unit} :
    skipBreaks tokens = .ok found rest ↔
      (∃ count, Reads (breaks count) tokens rest) ∧
        rest.head?.map Token.kind ≠ some .lineBreak := by
  constructor
  · intro skipped
    cases skipped
    refine ⟨skipBreaks_reads tokens, ?_⟩
    cases found : tokens.dropWhile fun token => token.kind = .lineBreak with
    | nil => simp
    | cons token later =>
      have stops := List.head?_dropWhile_not (fun token : Token => token.kind = .lineBreak) tokens
      simpa [found] using stops
  · rintro ⟨⟨count, reads⟩, stops⟩
    rw [skipBreaks, dropWhile_of_reads_breaks stops reads]

theorem statementEnd_eq_ok {found : Unit} :
    statementEnd tokens = .ok found rest ↔
      tokens = rest ∧ ∀ token ∈ tokens.head?, closesStatement token.kind = true := by
  cases tokens with
  | nil => simp [statementEnd]
  | cons token later =>
    by_cases closing : closesStatement token.kind = true <;> simp [statementEnd, closing]

end Parser

end ByNeed
