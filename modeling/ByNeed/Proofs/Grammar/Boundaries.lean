import ByNeed.Proofs.Grammar.Places
import ByNeed.Proofs.Grammar.PrefixStatement
import ByNeed.Proofs.Token.Lines

set_option autoImplicit false

namespace ByNeed

open ByNeed.Parser (breaks)

def endsPart : Token.Kind → Bool
  | .name _ | .integer _ | .decimal _ | .string _ | .boolean _ => true
  | .symbol .increment | .symbol .decrement => true
  | .symbol .closeParen | .symbol .closeBracket => true
  | .keyword .finish => true
  | _ => false

def Ends (kinds : List Token.Kind) : Prop :=
  ∃ last, kinds.getLast? = some last ∧ endsPart last = true

theorem Layer.Derives.ends {layer : Layer} {kinds : List Token.Kind} {expr : Expr}
    (derives : layer.Derives kinds expr) : Ends kinds := by
  induction derives with
  | loosen _ _ ih => exact ih
  | disjunction _ _ _ ih | conjunction _ _ _ ih | negation _ ih | comparison _ _ _ _ ih
    | sum _ _ _ _ _ ih | product _ _ _ _ _ ih | signed _ _ _ ih =>
    obtain ⟨last, found, ends⟩ := ih
    exact ⟨last, by simp [List.getLast?_append, List.getLast?_cons, found], ends⟩
  | step op step _ _ =>
    refine ⟨op.kind, by simp, ?_⟩
    rcases List.mem_pair.mp step with rfl | rfl <;> rfl
  | member field => exact ⟨.name field, by simp, rfl⟩
  | group => exact ⟨.symbol .closeParen, by simp [List.getLast?_cons], rfl⟩
  | index | list | create => exact ⟨.symbol .closeBracket, by simp [List.getLast?_cons], rfl⟩
  | _ => exact ⟨_, rfl, rfl⟩

theorem Form.Derives.ends {kinds : List Token.Kind} {statement : Statement}
    (derives : Form.whole.Derives kinds statement) : Ends kinds := by
  cases derives with
  | assign _ derives | print derives =>
    obtain ⟨last, found, ends⟩ := derives.ends
    exact ⟨last, by simp [List.getLast?_cons, found], ends⟩
  | evaluate derives => exact derives.ends
  | _ => exact ⟨.keyword .finish, by simp [List.getLast?_append, List.getLast?_cons], rfl⟩

section Lines

variable {parts : List (List Token.Kind)} {kinds : List Token.Kind} (lines : Lines parts kinds)
include lines

-- If a line break comes last, there is one right after the last statement.
theorem Lines.broken {part front : List Token.Kind}
    (apart : parts ≠ [] → kinds.head? = some .lineBreak) (ends : Ends part)
    (broken : (front ++ part ++ kinds).getLast? = some .lineBreak) :
    ∃ more, kinds = .lineBreak :: more ∧ kinds.getLast? = some .lineBreak := by
  have filled : kinds ≠ [] := by
    rintro rfl
    obtain ⟨last, found, ends⟩ := ends
    rw [List.append_nil, List.getLast?_append, found] at broken
    cases Option.some.inj broken
    cases ends
  have head : kinds.head? = some .lineBreak := by
    cases lines with
    | cons before lines apart' => exact apart (List.cons_ne_nil _ _)
    | none count =>
      cases count with
      | zero => exact absurd rfl filled
      | succ count => rfl
  obtain ⟨more, rfl⟩ := List.head?_eq_some_iff.mp head
  refine ⟨more, rfl, ?_⟩
  rwa [List.getLast?_append_of_ne_nil _ filled] at broken

theorem Lines.last (each : ∀ part ∈ parts, Ends part) :
    ∀ last ∈ kinds.getLast?, last = .lineBreak ∨ endsPart last = true := by
  induction lines with
  | none count =>
    intro last found
    exact .inl (List.eq_of_mem_replicate (List.mem_of_getLast? found))
  | @cons part parts kinds before rest apart ih =>
    intro last found
    rw [List.getLast?_append] at found
    cases later : kinds.getLast? with
    | some last' =>
      rw [later] at found
      cases found
      exact ih (fun part member => each part (List.mem_cons_of_mem _ member)) _ later
    | none =>
      obtain ⟨last', found', ends⟩ := each part List.mem_cons_self
      rw [later, List.getLast?_append, found'] at found
      cases found
      exact .inr ends

end Lines

namespace Parser

variable {tokens rest : List Token} {kinds : List Token.Kind}

theorem dropWhile_breaks {count : Nat} (reads : Reads (breaks count) tokens rest) :
    (tokens.dropWhile fun token => token.kind = .lineBreak) =
      rest.dropWhile fun token => token.kind = .lineBreak := by
  obtain ⟨consumed, rfl, kinds⟩ := Reads.iff_append.mp reads
  apply List.dropWhile_append_of_pos
  intro token member
  have blank : token.kind ∈ breaks count := kinds ▸ List.mem_map_of_mem member
  simpa using List.eq_of_mem_replicate blank

-- The loop gets to the rest with the statements of the lines in front of those found before.
theorem statements_onward {parts : List (List Token.Kind)} (lines : Lines parts kinds) :
    ∀ (found : List Statement) {body : List Part} {tokens : List Token} {count : Nat},
    parts = body.map Prod.fst → (∀ part ∈ body, Form.whole.Derives part.1 part.2) →
    kinds.getLast? = some .lineBreak → Reads kinds tokens rest → tokens.length < count →
    ∃ count', rest.length < count' ∧
      statements count found tokens = statements count' ((body.map Prod.snd).reverse ++ found) rest := by
  induction lines with
  | none before =>
    intro found body tokens count same _ _ reads most
    obtain rfl := List.map_eq_nil_iff.mp same.symm
    have length := reads.length
    refine ⟨count, by omega, ?_⟩
    cases count with
    | zero => cases most
    | succ count =>
      simp only [statements, skipBreaks, Bind.bind, EStateM.bind, dropWhile_breaks reads]
      rfl
  | @cons part parts kinds before lines apart ih =>
    intro found body tokens count same derives broken reads most
    obtain ⟨⟨_, parsed⟩, body, rfl, rfl, rfl⟩ := List.map_eq_cons_iff.mp same.symm
    have whole := derives _ List.mem_cons_self
    obtain ⟨more, rfl, broken⟩ := lines.broken apart whole.ends broken
    obtain ⟨token, later, middle, skipped, _, ran, reads, closed, shorter, _⟩ :=
      part_complete (complete_of_derives whole) whole.opens reads most fun later reads => by
        obtain ⟨token, later, rfl, same, _⟩ := reads
        rintro _ ⟨⟩
        rw [same]
        rfl
    cases count with
    | zero => cases most
    | succ count =>
      obtain ⟨count', most', others⟩ := ih (parsed :: found) rfl
        (fun part member => derives part (List.mem_cons_of_mem _ member)) broken reads
        (by omega : middle.length < count)
      refine ⟨count', most', ?_⟩
      have ended : statementEnd middle = .ok () middle := statementEnd_eq_ok.mpr ⟨rfl, closed⟩
      simp only [statements, Bind.bind, EStateM.bind, skipped, peek?, ran, ended, others]
      simp

-- The statements found before only stand in front of the others.
theorem statements_found (count : Nat) (found : List Statement) :
    statements count found = (found.reverse ++ ·) <$> statements count [] := by
  induction count generalizing found with
  | zero => simp [statements]
  | succ count ih =>
    rw [statements, statements, map_bind]
    refine bind_congr fun _ => ?_
    rw [map_bind]
    refine bind_congr fun kind => ?_
    cases kind with
    | none => simp
    | some kind =>
      simp only [map_bind]
      refine bind_congr fun parsed => bind_congr fun _ => ?_
      rw [ih (parsed :: found), ih [parsed], Functor.map_map]
      simp

def programOf : EStateM.Result SyntaxError (List Token) Block → Except SyntaxError Program
  | .ok block _ => .ok ⟨block⟩
  | .error error _ => .error error

-- It does not matter how much fuel there is, if there is enough.
theorem programOf_statements {count : Nat} (legible : Legible tokens) (most : tokens.length < count) :
    programOf (statements count [] tokens) = Program.ofTokens tokens := by
  have predicts := @predicts_statements (tokens.length + 1) _ Nat.le_refl []
  have failed {error : SyntaxError} (fails : FailsWith (fun fuel => statements fuel []) tokens error) :
      programOf (statements count [] tokens) = Program.ofTokens tokens := by
    obtain ⟨left, ran⟩ := fails count most
    simp only [programOf, ran, ofTokens_of_failsWith fails]
  cases predicts.verdict tokens (Nat.lt_succ_self _) legible with
  | ends fails viable => exact failed fails
  | fails split about always viable => exact failed (split ▸ always _)
  | @reads front rest block split takes onward =>
    have gives : Gives (fun fuel => statements fuel []) tokens (.ok block rest) :=
      split ▸ onward rest rfl
    have ran := gives count most
    simp only [programOf, ran, ofTokens_of_gives gives]

end Parser

theorem Program.ofTokens_append {front tokens : List Token} {program : Program}
    (parsed : Program.ofTokens front = .ok program)
    (broken : (front.map Token.kind).getLast? = some .lineBreak) (legible : Legible tokens) :
    Program.ofTokens (front ++ tokens) =
      (Program.ofTokens tokens).map fun later => ⟨program.statements ++ later.statements⟩ := by
  obtain ⟨parts, same, lines, each⟩ := Program.derives_of_ofTokens parsed
  have reads : Reads (front.map Token.kind) (front ++ tokens) tokens :=
    Reads.iff_append.mpr ⟨front, rfl, rfl⟩
  obtain ⟨count, most, ran⟩ :=
    Parser.statements_onward lines [] rfl each broken reads (Nat.lt_succ_self _)
  have found := Parser.statements_found count ((parts.map Prod.snd).reverse ++ [])
  rw [← Parser.programOf_statements legible most]
  change Parser.programOf (Parser.statements _ [] _) = _
  rw [ran, found]
  simp only [Functor.map, EStateM.map]
  cases Parser.statements count [] tokens with
  | ok block rest => simp [Parser.programOf, Except.map, same]
  | error error rest => rfl

theorem Program.closed_of_parse {source : String} {program : Program}
    (parsed : Program.parse source = .ok program) : Token.unterminated ∉ Token.kinds source.toList := by
  intro member
  have last := Token.last_of_unterminated member
  obtain ⟨parts, -, lines, each⟩ := Program.derives_of_ofTokens parsed
  rw [Token.map_kind_scan] at lines
  have ends : ∀ part ∈ parts.map Prod.fst, Ends part := by
    intro kinds member
    obtain ⟨part, inside, rfl⟩ := List.mem_map.mp member
    exact (each part inside).ends
  rcases lines.last ends _ last with lineBreak | ends
  · cases lineBreak
  · cases ends

/-- A text that is a program and ends with a line feed may stand before any other text. What follows
is parsed as if it stood alone: its statements come after those of the program, and its error is the
same, with its places further on. -/
theorem parse_append {front : String} {program : Program} (broken : front.toList.getLast? = some '\n')
    (parsed : Program.parse front = .ok program) (rest : String) :
    (∀ later, Program.parse rest = .ok later →
      Program.parse (front ++ rest) = .ok ⟨program.statements ++ later.statements⟩) ∧
    ∀ error, Program.parse rest = .error error →
      Program.parse (front ++ rest) = .error (error.move (Span.shift front.utf8ByteSize)) := by
  obtain ⟨scanned, last⟩ := Token.scan_append broken (Program.closed_of_parse parsed) rest
  rw [← Token.map_kind_scan] at last
  have legible : Legible ((Token.scan rest).map (Token.move (Span.shift front.utf8ByteSize))) := by
    intro token member
    obtain ⟨token', inside, rfl⟩ := List.mem_map.mp member
    exact legible_scan rest token' inside
  have whole := Program.ofTokens_append parsed last legible
  rw [← scanned, Program.ofTokens_move] at whole
  constructor
  · intro later read
    rw [Program.parse] at read ⊢
    rw [whole, read]
    rfl
  · intro error failed
    rw [Program.parse] at failed ⊢
    rw [whole, failed]
    rfl

theorem parse_append_unclosed :
    Program.parse ("a = b\n" ++ "c )") =
      .error (.unexpected .statementEnd ⟨.symbol .closeParen, ⟨8, 9⟩⟩) := by
  have parsed : Program.parse "a = b\n" = .ok ⟨[.assign "a" (.name "b")]⟩ := by cbv
  have failed : Program.parse "c )" =
      .error (.unexpected .statementEnd ⟨.symbol .closeParen, ⟨2, 3⟩⟩) := by cbv
  exact (parse_append (by decide) parsed "c )").2 _ failed

end ByNeed
