import ByNeed.Grammar.Statement
import ByNeed.Proofs.Grammar.Blocks
import ByNeed.Proofs.Grammar.ExpressionSoundness

set_option autoImplicit false

-- Every loop over statements requires a token that may follow a statement, and looks at it again in its next
-- turn. A keyword that ends some other construct gets through the first test and fails the second, because no
-- statement begins with it.
namespace ByNeed

open ByNeed.Parser (breaks)

def Closed (tokens : List Token) : Prop :=
  ∀ token ∈ tokens.head?, Parser.closesStatement token.kind = true

-- After a statement, further statements begin on a new line.
theorem Lines.apart_of_closed {parts : List (List Token.Kind)} {kinds : List Token.Kind}
    {tokens rest : List Token} (lines : Lines parts kinds)
    (each : ∀ part ∈ parts, Opens part)
    (reads : Reads kinds tokens rest) (closed : Closed tokens) (nonempty : parts ≠ []) :
    kinds.head? = some .lineBreak := by
  cases lines with
  | none => exact absurd rfl nonempty
  | cons before rest apart =>
    obtain ⟨first, others, rfl, opens⟩ := each _ List.mem_cons_self
    cases before with
    | succ before => rfl
    | zero =>
      obtain ⟨token, later, rfl, same, _⟩ := reads
      have closing := closed token rfl
      rw [same, opens] at closing
      cases closing

theorem Block.derives_nil (count : Nat) : Block.Derives (breaks count) [] :=
  ⟨[], rfl, .none count, nofun⟩

theorem Block.derives_cons {kinds kinds' : List Token.Kind} {statement : Statement} {others : Block}
    {tokens rest : List Token} (before : Nat) (derives : Form.whole.Derives kinds statement)
    (derives' : Block.Derives kinds' others) (reads : Reads kinds' tokens rest)
    (closed : Closed tokens) :
    Block.Derives (breaks before ++ kinds ++ kinds') (statement :: others) := by
  obtain ⟨parts, rfl, lines, each⟩ := derives'
  exact ⟨(kinds, statement) :: parts, rfl,
    .cons before lines (lines.apart_of_closed (opens_of_parts each) reads closed),
    List.forall_mem_cons.mpr ⟨derives, each⟩⟩

theorem Lines.append_breaks {parts : List (List Token.Kind)} {kinds : List Token.Kind}
    (lines : Lines parts kinds) (count : Nat) : Lines parts (kinds ++ breaks count) := by
  induction lines with
  | none before =>
    rw [Parser.breaks_append]
    exact .none (before + count)
  | cons before rest apart ih =>
    rw [List.append_assoc]
    refine .cons before ih fun nonempty => ?_
    rw [List.head?_append, apart nonempty]
    rfl

theorem Lines.break_cons {parts : List (List Token.Kind)} {kinds : List Token.Kind}
    (lines : Lines parts kinds) : Lines parts (.lineBreak :: kinds) := by
  cases lines with
  | none count => exact .none (count + 1)
  | cons before lines apart => exact .cons (before + 1) lines apart

theorem Body.append_breaks {parts : List (List Token.Kind)} {kinds : List Token.Kind}
    (body : Body parts kinds) (count : Nat) : Body parts (kinds ++ breaks count) := by
  cases body with
  | lines lines => exact .lines (lines.append_breaks count)
  | single part after =>
    rw [List.append_assoc, Parser.breaks_append]
    exact .single part (after + count)

namespace Parser

section Patterns

variable {tokens rest : List Token} {found : Pattern}

theorem negativeNumber_sound (ran : negativeNumber tokens = .ok found rest) :
    ∃ kinds, Reads kinds tokens rest ∧ found.Derives (.symbol .minus :: kinds) := by
  simp only [negativeNumber, bind_eq_ok, next?_eq_ok] at ran
  obtain ⟨_, later, ⟨rfl, rfl, rfl⟩ | ⟨token, rfl, rfl⟩, ran⟩ := ran
  · exact absurd ran throw_ne_ok
  · simp only at ran
    generalize same : token.kind = kind at ran
    split at ran
    · next digits =>
      cases read : Decimal.negativeInteger? digits with
      | none =>
        simp only [read] at ran
        exact absurd ran throw_ne_ok
      | some value =>
        simp only [read] at ran
        obtain ⟨rfl, rfl⟩ := pure_eq_ok.mp ran
        exact ⟨_, .one same, .negativeInteger read⟩
    · simp only [bind_eq_ok, literalFloat_eq_ok, pure_eq_ok] at ran
      obtain ⟨value, _, ⟨read, rfl⟩, rfl, rfl⟩ := ran
      exact ⟨_, .one same, .negativeDecimal read⟩
    · exact absurd ran throw_ne_ok

theorem pattern_sound (ran : pattern tokens = .ok found rest) :
    ∃ kinds, Reads kinds tokens rest ∧ found.Derives kinds := by
  simp only [pattern, bind_eq_ok, next?_eq_ok] at ran
  obtain ⟨_, later, ⟨rfl, rfl, rfl⟩ | ⟨token, rfl, rfl⟩, ran⟩ := ran
  · exact absurd ran throw_ne_ok
  · simp only at ran
    generalize same : token.kind = kind at ran
    split at ran
    · split at ran
      · next blank =>
        obtain ⟨rfl, rfl⟩ := pure_eq_ok.mp ran
        exact ⟨_, .one same, blank ▸ .wildcard⟩
      · next named =>
        obtain ⟨rfl, rfl⟩ := pure_eq_ok.mp ran
        exact ⟨_, .one same, .binding named⟩
    · simp only [bind_eq_ok, literalInteger_eq_ok, pure_eq_ok] at ran
      obtain ⟨_, _, ⟨value, read, rfl, rfl⟩, rfl, rfl⟩ := ran
      exact ⟨_, .one same, .integer read⟩
    · simp only [bind_eq_ok, literalFloat_eq_ok, pure_eq_ok] at ran
      obtain ⟨value, _, ⟨read, rfl⟩, rfl, rfl⟩ := ran
      exact ⟨_, .one same, .decimal read⟩
    · obtain ⟨rfl, rfl⟩ := pure_eq_ok.mp ran
      exact ⟨_, .one same, .string _⟩
    · obtain ⟨rfl, rfl⟩ := pure_eq_ok.mp ran
      exact ⟨_, .one same, .boolean _⟩
    · obtain ⟨kinds, reads, derives⟩ := negativeNumber_sound ran
      exact ⟨_, .cons same reads, derives⟩
    · exact absurd ran throw_ne_ok
    · exact absurd ran throw_ne_ok

theorem pattern_complete {kinds : List Token.Kind} (derives : found.Derives kinds)
    (reads : Reads kinds tokens rest) : pattern tokens = .ok found rest := by
  cases derives with
  | negativeInteger read =>
    obtain ⟨minus, _, rfl, same, number, _, rfl, same', rfl⟩ := reads
    simp only [pattern, negativeNumber, next?_bind_cons, same, same', read]
    rfl
  | negativeDecimal read =>
    obtain ⟨minus, _, rfl, same, number, _, rfl, same', rfl⟩ := reads
    simp only [pattern, negativeNumber, next?_bind_cons, same, same', bind_eq_ok, pure_eq_ok,
      literalFloat_eq_ok]
    exact ⟨_, _, ⟨read, rfl⟩, rfl, rfl⟩
  | _ =>
    obtain ⟨token, _, rfl, same, rfl⟩ := reads
    simp_all [pattern, next?_bind_cons, map_eq_ok, pure_eq_ok, literalFloat_eq_ok,
      literalInteger_eq_ok]

end Patterns

section Soundness

variable {statement : Parser Statement} {limit : Nat} {tokens rest : List Token}

def SoundStatement (statement : Parser Statement) (limit : Nat) : Prop :=
  ∀ ⦃tokens rest : List Token⦄ ⦃parsed : Statement⦄, tokens.length < limit →
    statement tokens = .ok parsed rest →
    ∃ kinds, Reads kinds tokens rest ∧ Form.whole.Derives kinds parsed

theorem block_sound (sound : SoundStatement statement limit) {closing : List Keyword} :
    ∀ (count : Nat) {found results : List Statement} {tokens rest : List Token},
    tokens.length < limit → block statement closing count found tokens = .ok results rest →
    ∃ kinds statements, results = found.reverse ++ statements ∧ Block.Derives kinds statements ∧
      Reads kinds tokens rest ∧ ∃ token ∈ rest.head?, closes closing token.kind = true
  | 0, found, results, tokens, rest, _, ran => absurd ran throw_ne_ok
  | count + 1, found, results, tokens, rest, enough, ran => by
    simp only [block, bind_eq_ok, skipBreaks_eq_ok, peek?_eq_ok] at ran
    obtain ⟨_, tokens₁, ⟨⟨before, skipped⟩, _⟩, _, _, ⟨rfl, rfl⟩, ran⟩ := ran
    have length := skipped.length
    match tokens₁ with
    | [] => exact absurd ran throw_ne_ok
    | token :: later =>
      simp only [List.head?_cons, Option.map_some] at ran
      by_cases closed : closes closing token.kind = true
      · simp only [closed, if_true] at ran
        obtain ⟨rfl, rfl⟩ := pure_eq_ok.mp ran
        exact ⟨_, [], by simp, Block.derives_nil before, skipped, token, rfl, closed⟩
      · simp only [closed, if_false, bind_eq_ok, statementEnd_eq_ok, Bool.false_eq_true] at ran
        obtain ⟨parsed, tokens₂, parses, _, _, ⟨rfl, ends⟩, ran⟩ := ran
        obtain ⟨kinds, reads, derives⟩ := sound (by omega) parses
        have length' := reads.length
        obtain ⟨kinds', others, rfl, derives', reads', last⟩ :=
          block_sound sound count (by omega) ran
        refine ⟨_, parsed :: others, by simp, Block.derives_cons before derives derives' reads' ends,
          (skipped.append reads).append reads', last⟩

theorem branch_sound (sound : SoundStatement statement limit) {fuel : Nat} :
    ∀ (count : Nat) {parsed : Statement} {tokens rest : List Token}, tokens.length < limit →
    tokens.length < fuel → branch statement (expression fuel .lowest) count tokens = .ok parsed rest →
    ∃ kinds, Reads kinds tokens rest ∧ Form.branch.Derives kinds parsed
  | 0, parsed, tokens, rest, _, _, ran => absurd ran throw_ne_ok
  | count + 1, parsed, tokens, rest, enough, enough', ran => by
    simp only [branch, bind_eq_ok, expect_eq_ok, peek?_eq_ok] at ran
    obtain ⟨test, tokens₁, parses, _, tokens₂, word, _, tokens₃, lineBreak, consequence, tokens₄, inside,
      _, _, ⟨rfl, rfl⟩, ran⟩ := ran
    obtain ⟨source, reads, derives, _⟩ := expression_sound fuel enough' parses
    have length := reads.length
    have length' := (word.append lineBreak).length
    obtain ⟨kinds, statements, rfl, ⟨parts, rfl, lines, each⟩, reads', last⟩ :=
      block_sound sound count (by omega) inside
    have length'' := reads'.length
    have header := reads.append (word.append lineBreak)
    generalize next : Option.map Token.kind tokens₄.head? = following at ran
    obtain ⟨token, later, rfl⟩ : ∃ token later, tokens₄ = token :: later := by
      match tokens₄, last with
      | token :: later, _ => exact ⟨token, later, rfl⟩
    simp only [List.head?_cons, Option.map_some] at next
    split at ran
    · simp only [bind_eq_ok, next?_eq_ok, pure_eq_ok] at ran
      obtain ⟨_, _, ⟨_, impossible, _⟩ | ⟨_, rfl, ⟨rfl, rfl⟩⟩, nested, _, ran, rfl, rfl⟩ := ran
      · cases impossible
      simp only [List.length_cons] at length''
      obtain ⟨kinds', reads'', derives'⟩ := branch_sound sound count (by omega) (by omega) ran
      refine ⟨_, header.append (reads'.append (.cons (Option.some.inj next) reads'')), ?_⟩
      simpa using Form.Derives.elseBranch derives lines each derives'
    · simp only [bind_eq_ok, next?_eq_ok, pure_eq_ok, expect_eq_ok] at ran
      obtain ⟨_, _, ⟨_, impossible, _⟩ | ⟨_, rfl, ⟨rfl, rfl⟩⟩, _, tokens₅, lineBreak', alternative, _, ran,
        rfl, rfl⟩ := ran
      · cases impossible
      simp only [List.length_cons] at length''
      have length₅ := lineBreak'.length
      obtain ⟨kinds', _, rfl, ⟨parts', rfl, lines', each'⟩, reads'', _⟩ :=
        block_sound sound count (by omega) ran
      refine ⟨_, header.append (reads'.append (.cons (Option.some.inj next)
        (lineBreak'.append reads''))), ?_⟩
      simpa using Form.Derives.otherwise derives lines each lines' each'
    · obtain ⟨rfl, rfl⟩ := pure_eq_ok.mp ran
      refine ⟨_, header.append reads', ?_⟩
      simpa using Form.Derives.consequence derives lines each

-- The line break that ends a header comes before the lines of the body.
theorem lines_after_break {parts : List (List Token.Kind)} {kinds : List Token.Kind} {token : Token}
    {later : List Token} (lines : Lines parts kinds)
    (each : ∀ part ∈ parts, Opens part)
    (reads : Reads kinds (token :: later) rest) (ended : token.kind = .lineBreak)
    (stops : rest.head?.map Token.kind ≠ some .lineBreak) :
    ∃ kinds', kinds = .lineBreak :: kinds' ∧ Lines parts kinds' := by
  cases lines with
  | none count =>
    cases count with
    | zero =>
      obtain rfl := Reads.nil_iff.mp reads
      exact absurd (by simp [ended]) stops
    | succ count => exact ⟨_, rfl, .none count⟩
  | cons before lines apart =>
    cases before with
    | zero =>
      obtain ⟨first, others, rfl, opens⟩ := each _ List.mem_cons_self
      obtain ⟨same, _⟩ := Reads.cons_cons_iff.mp reads
      rw [← same, ended] at opens
      cases opens
    | succ before => exact ⟨_, rfl, .cons before lines apart⟩

theorem ne_lineBreak_of_closes {closing : List Keyword}
    (last : ∃ token ∈ rest.head?, closes closing token.kind = true) :
    rest.head?.map Token.kind ≠ some .lineBreak := by
  obtain ⟨token, found, closed⟩ := last
  rintro impossible
  rw [found] at impossible
  simp only [Option.map_some, Option.some.injEq] at impossible
  rw [impossible] at closed
  cases closed

theorem caseBody_sound (sound : SoundStatement statement limit) {count : Nat} {results : Block}
    (enough : tokens.length < limit) (ran : caseBody statement count tokens = .ok results rest) :
    ∃ kinds, ∃ parts : List Part, results = parts.map Prod.snd ∧ Body (parts.map Prod.fst) kinds ∧
      (∀ part ∈ parts, Form.whole.Derives part.1 part.2) ∧ Reads kinds tokens rest := by
  simp only [caseBody, bind_eq_ok, peek?_eq_ok] at ran
  obtain ⟨_, _, ⟨rfl, rfl⟩, ran⟩ := ran
  generalize next : Option.map Token.kind tokens.head? = following at ran
  split at ran
  · obtain ⟨kinds, _, rfl, ⟨parts, rfl, lines, each⟩, reads, last⟩ :=
      block_sound sound count enough ran
    obtain ⟨token, later, rfl, blank⟩ := eq_cons_of_head? next
    obtain ⟨kinds', rfl, lines'⟩ := lines_after_break lines (opens_of_parts each) reads blank
      (ne_lineBreak_of_closes last)
    exact ⟨_, parts, rfl, .lines lines', each, reads⟩
  · simp only [bind_eq_ok, statementEnd_eq_ok, pure_eq_ok] at ran
    obtain ⟨parsed, _, parses, _, _, ⟨rfl, _⟩, rfl, rfl⟩ := ran
    obtain ⟨kinds, reads, derives⟩ := sound enough parses
    refine ⟨_, [(kinds, parsed)], rfl, .single kinds 0, ?_, by simpa [breaks] using reads⟩
    exact List.forall_mem_singleton.mpr derives

def DerivesCases (kinds : List Token.Kind) (results : List (Pattern × Block)) : Prop :=
  ∃ found : List (Pattern × List Part),
    results = (found.map fun case => (case.1, case.2.map Prod.snd)) ∧
    Cases (found.map fun case => (case.1, case.2.map Prod.fst)) kinds ∧
    ∀ case ∈ found, ∀ part ∈ case.2, Form.whole.Derives part.1 part.2

theorem cases_sound (sound : SoundStatement statement limit) :
    ∀ (count : Nat) {found results : List (Pattern × Block)} {tokens rest : List Token},
    tokens.length < limit → cases statement count found tokens = .ok results rest →
    ∃ before kinds others, results = found.reverse ++ others ∧ DerivesCases kinds others ∧
      Reads (breaks before ++ kinds) tokens rest ∧ (found = [] → others ≠ []) ∧
      rest.head?.map Token.kind ≠ some .lineBreak
  | 0, found, results, tokens, rest, _, ran => absurd ran throw_ne_ok
  | count + 1, found, results, tokens, rest, enough, ran => by
    simp only [cases, bind_eq_ok, skipBreaks_eq_ok, peek?_eq_ok] at ran
    obtain ⟨_, tokens₁, ⟨⟨before, skipped⟩, stops⟩, _, _, ⟨rfl, rfl⟩, ran⟩ := ran
    have length := skipped.length
    split at ran
    · simp only [bind_eq_ok, expect_eq_ok] at ran
      obtain ⟨_, tokens₂, word, shape, tokens₃, matched, _, tokens₄, word', body, tokens₅, inside, ran⟩ := ran
      obtain ⟨header, reads, derives⟩ := pattern_sound matched
      have length₂ := word.length
      have length₃ := reads.length
      have length₄ := word'.length
      obtain ⟨kinds, parts, rfl, layout, each, reads'⟩ := caseBody_sound sound (by omega) inside
      have length₅ := reads'.length
      obtain ⟨after, kinds', _, rfl, ⟨others, rfl, layout', each'⟩, reads'', _, stops'⟩ :=
        cases_sound sound count (by omega) ran
      refine ⟨before, _, (shape, parts.map Prod.snd) :: others.map _, by simp,
        ⟨(shape, parts) :: others, rfl, .cons derives (layout.append_breaks after) layout',
          List.forall_mem_cons.mpr ⟨each, each'⟩⟩, ?_, by simp, stops'⟩
      have whole := skipped.append (word.append (reads.append (word'.append (reads'.append reads''))))
      simpa using whole
    · next ended =>
      obtain ⟨rfl, rfl⟩ := pure_eq_ok.mp ran
      refine ⟨before, [], [], by simp, ⟨[], rfl, .none, nofun⟩, by simpa using skipped, ?_, stops⟩
      rintro rfl
      simp at ended

theorem fields_sound : ∀ (count : Nat) {found results : List String} {tokens rest : List Token},
    fields count found tokens = .ok results rest →
    ∃ kinds names, results = found.reverse ++ names ∧ Lines (names.map fieldKinds) kinds ∧
      Reads (kinds ++ [.keyword .finish]) tokens rest
  | 0, found, results, tokens, rest, ran => absurd ran throw_ne_ok
  | count + 1, found, results, tokens, rest, ran => by
    simp only [fields, bind_eq_ok, skipBreaks_eq_ok, next?_eq_ok] at ran
    obtain ⟨_, tokens₁, ⟨⟨before, skipped⟩, _⟩, _, tokens₂, ⟨rfl, rfl, rfl⟩ | ⟨token, rfl, rfl⟩, ran⟩ := ran
    · exact absurd ran throw_ne_ok
    generalize same : Option.map Token.kind (some token) = following at ran
    split at ran
    · simp only [bind_eq_ok, identifier_eq_ok, statementEnd_eq_ok] at ran
      obtain ⟨id, tokens₃, named, _, _, ⟨rfl, ends⟩, ran⟩ := ran
      obtain ⟨kinds, names, rfl, lines, reads⟩ := fields_sound count ran
      refine ⟨_, id :: names, by simp, .cons before lines ?_, ?_⟩
      · obtain ⟨_, inside, _⟩ := Reads.append_iff.mp reads
        refine lines.apart_of_closed ?_ inside ends
        intro part member
        obtain ⟨name, _, rfl⟩ := List.mem_map.mp member
        exact opens_fieldKinds name
      · have whole := skipped.append ((Reads.cons (Option.some.inj same) named).append reads)
        simpa [fieldKinds] using whole
    · obtain ⟨rfl, rfl⟩ := pure_eq_ok.mp ran
      exact ⟨_, [], by simp, .none before, skipped.append (.one (Option.some.inj same))⟩
    · exact absurd ran throw_ne_ok

theorem eq_of_reads_breaks {count : Nat} (reads : Reads (breaks count) tokens rest)
    (stops : tokens.head?.map Token.kind ≠ some .lineBreak) : tokens = rest := by
  cases count with
  | zero => exact reads
  | succ count =>
    obtain ⟨token, later, rfl, same, _⟩ := reads
    exact absurd (by simp [same]) stops

theorem statementWith_sound {fuel : Nat} (sound : SoundStatement statement fuel) {parsed : Statement}
    (enough : tokens.length ≤ fuel)
    (ran : statementWith statement (fuel + 1) tokens = .ok parsed rest) :
    ∃ kinds, Reads kinds tokens rest ∧ Form.whole.Derives kinds parsed := by
  have whole {later rest : List Token} {expr : Expr} (shorter : later.length ≤ fuel)
      (ran : expression (fuel + 1) .lowest later = .ok expr rest) :
      ∃ kinds, Reads kinds later rest ∧ Layer.disjunction.Derives kinds expr := by
    obtain ⟨kinds, reads, derives, _⟩ := expression_sound (fuel + 1) (by omega) ran
    exact ⟨kinds, reads, derives⟩
  simp only [statementWith, bind_eq_ok, get_eq_ok, peek?_eq_ok] at ran
  obtain ⟨_, _, ⟨rfl, rfl⟩, _, _, ⟨rfl, rfl⟩, ran⟩ := ran
  generalize next : Option.map Token.kind tokens.head? = following at ran
  split at ran
  · obtain ⟨token, later, rfl, same⟩ := eq_cons_of_head? next
    simp only [next?_bind_cons, bind_eq_ok, identifier_eq_ok, expect_eq_ok, pure_eq_ok] at ran
    obtain ⟨type, _, named, _, _, lineBreak, names, _, ran, rfl, rfl⟩ := ran
    obtain ⟨kinds, names, rfl, lines, reads⟩ := fields_sound _ ran
    exact ⟨_, .cons same (named.append (lineBreak.append reads)), .define type lines⟩
  · obtain ⟨token, later, rfl, same⟩ := eq_cons_of_head? next
    simp only [next?_bind_cons, bind_eq_ok, pure_eq_ok] at ran
    obtain ⟨value, _, ran, rfl, rfl⟩ := ran
    obtain ⟨kinds, reads, derives⟩ := whole (Nat.le_of_succ_le enough) ran
    exact ⟨_, .cons same reads, .print derives⟩
  · obtain ⟨token, later, rfl, same⟩ := eq_cons_of_head? next
    simp only [next?_bind_cons, bind_eq_ok, expect_eq_ok, pure_eq_ok] at ran
    obtain ⟨inner, _, ran, _, _, close, rfl, rfl⟩ := ran
    obtain ⟨kinds, reads, derives⟩ := branch_sound sound _ enough (Nat.lt_succ_of_lt enough) ran
    exact ⟨_, .cons same (reads.append close), .branch derives⟩
  · obtain ⟨token, later, rfl, same⟩ := eq_cons_of_head? next
    simp only [next?_bind_cons, bind_eq_ok, expect_eq_ok, accept_eq_ok] at ran
    obtain ⟨scrutinee, _, ran', _, _, lineBreak, _, middle, cased, _, tokens₄, accepted, ran⟩ := ran
    simp only [List.length_cons] at enough
    obtain ⟨source, reads, derives⟩ := whole (by omega) ran'
    have length := (reads.append lineBreak).length
    obtain ⟨before, kinds, _, rfl, ⟨found, rfl, layout, each⟩, reads', some, stops⟩ :=
      cases_sound sound _ (by omega) cased
    have length' := reads'.length
    have nonempty : found ≠ [] := by simpa using some rfl
    have header := Reads.cons same (reads.append (lineBreak.append reads'))
    rcases accepted with ⟨rfl, word⟩ | ⟨rfl, rfl, _⟩
    · have length'' := word.length
      simp only [if_true, bind_eq_ok, map_eq_ok, skipBreaks_eq_ok, expect_eq_ok, pure_eq_ok] at ran
      obtain ⟨_, _, ⟨_, inside, rfl⟩, _, _, ⟨⟨after, skipped⟩, _⟩, _, _, close, rfl, rfl⟩ := ran
      obtain ⟨kinds', parts, rfl, layout', each', reads''⟩ := caseBody_sound sound (by omega) inside
      refine ⟨_, header.append (word.append ((reads''.append skipped).append close)), ?_⟩
      simpa using Form.Derives.selectOtherwise derives before nonempty layout each
        (layout'.append_breaks after) each'
    · simp only [if_false, bind_eq_ok, skipBreaks_eq_ok, expect_eq_ok, pure_eq_ok,
        Bool.false_eq_true] at ran
      obtain ⟨_, _, ⟨rfl, rfl⟩, _, _, ⟨⟨after, skipped⟩, _⟩, _, _, close, rfl, rfl⟩ := ran
      obtain rfl := eq_of_reads_breaks skipped stops
      refine ⟨_, header.append close, ?_⟩
      simpa using Form.Derives.select derives before nonempty layout each
  · obtain ⟨token, later, rfl, same⟩ := eq_cons_of_head? next
    simp only [next?_bind_cons, bind_eq_ok, identifier_eq_ok, expect_eq_ok, pure_eq_ok] at ran
    obtain ⟨id, _, named, _, _, among, items, tokens₁, ran, _, tokens₂, lineBreak, body, _, inside, _, _,
      close, rfl, rfl⟩ := ran
    have length := (named.append among).length
    have length' := lineBreak.length
    simp only [List.length_cons] at enough
    obtain ⟨source, reads, derives⟩ := whole (by omega) ran
    have length'' := reads.length
    obtain ⟨kinds, _, rfl, ⟨parts, rfl, lines, each⟩, reads', _⟩ := block_sound sound _ (by omega) inside
    refine ⟨_, .cons same (named.append (among.append (reads.append (lineBreak.append
      (reads'.append close))))), ?_⟩
    simpa using Form.Derives.iterate id derives lines each
  · obtain ⟨token, later, rfl, same⟩ := eq_cons_of_head? next
    split at ran
    · next assigned =>
      match later with
      | ⟨.symbol .assign, span⟩ :: later =>
        simp only [next?_bind_cons, bind_eq_ok, pure_eq_ok] at ran
        obtain ⟨value, _, ran, rfl, rfl⟩ := ran
        simp only [List.length_cons] at enough
        obtain ⟨kinds, reads, derives⟩ := whole (by omega) ran
        exact ⟨_, .cons same (.cons rfl reads), .assign _ derives⟩
    · simp only [bind_eq_ok, pure_eq_ok] at ran
      obtain ⟨value, _, ran, rfl, rfl⟩ := ran
      obtain ⟨kinds, reads, derives⟩ := whole enough ran
      exact ⟨kinds, reads, .evaluate derives⟩
  · simp only [bind_eq_ok, pure_eq_ok] at ran
    obtain ⟨value, _, ran, rfl, rfl⟩ := ran
    obtain ⟨kinds, reads, derives⟩ := whole enough ran
    exact ⟨kinds, reads, .evaluate derives⟩

theorem statement_sound : ∀ fuel, SoundStatement (Parser.statement fuel) fuel
  | 0 => fun _ _ _ less _ => absurd less (Nat.not_lt_zero _)
  | fuel + 1 => fun _ _ _ less ran =>
    statementWith_sound (statement_sound fuel) (Nat.le_of_lt_succ less) ran

theorem statements_sound : ∀ (count : Nat) {found results : List Statement} {tokens rest : List Token},
    tokens.length < count → statements count found tokens = .ok results rest →
    ∃ kinds others, results = found.reverse ++ others ∧ Block.Derives kinds others ∧
      Reads kinds tokens []
  | 0, found, results, tokens, rest, enough, _ => absurd enough (Nat.not_lt_zero _)
  | count + 1, found, results, tokens, rest, enough, ran => by
    simp only [statements, bind_eq_ok, skipBreaks_eq_ok, peek?_eq_ok] at ran
    obtain ⟨_, tokens₁, ⟨⟨before, skipped⟩, _⟩, _, _, ⟨rfl, rfl⟩, ran⟩ := ran
    have length := skipped.length
    match tokens₁ with
    | [] =>
      obtain ⟨rfl, rfl⟩ := pure_eq_ok.mp ran
      exact ⟨_, [], by simp, Block.derives_nil before, skipped⟩
    | token :: later =>
      simp only [List.head?_cons, Option.map_some, bind_eq_ok, statementEnd_eq_ok] at ran
      obtain ⟨parsed, tokens₂, parses, _, _, ⟨rfl, ends⟩, ran⟩ := ran
      obtain ⟨kinds, reads, derives⟩ := statement_sound (count + 1) (by omega) parses
      have length' := reads.length
      obtain ⟨first, more, rfl, _⟩ := derives.opens
      simp only [List.length_cons] at length length'
      obtain ⟨kinds', others, rfl, derives', reads'⟩ := statements_sound count (by omega) ran
      exact ⟨_, parsed :: others, by simp, Block.derives_cons before derives derives' reads' ends,
        (skipped.append reads).append reads'⟩

end Soundness

end Parser

end ByNeed
