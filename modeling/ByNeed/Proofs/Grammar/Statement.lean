import ByNeed.Proofs.Grammar.Expression
import ByNeed.Proofs.Grammar.StatementSoundness

set_option autoImplicit false

-- The loops read the lines of the grammar to their end, because what follows each statement of a block is a
-- line break or the keyword that ends the block.
namespace ByNeed

open ByNeed.Parser (breaks)

namespace Parser

section Completeness

def CompleteForm : Form → List Token.Kind → Statement → Prop
  | .whole, kinds, parsed =>
    ∀ ⦃tokens rest : List Token⦄ ⦃fuel : Nat⦄, Reads kinds tokens rest → Closed rest →
      tokens.length < fuel → statement fuel tokens = .ok parsed rest
  | .branch, kinds, parsed =>
    ∀ ⦃tokens rest : List Token⦄ ⦃fuel fuel' count : Nat⦄, Reads kinds tokens rest →
      rest.head?.map Token.kind = some (.keyword .finish) → tokens.length < fuel →
      tokens.length < fuel' → tokens.length < count →
      branch (statement fuel) (expression fuel' .lowest) count tokens = .ok parsed rest

variable {tokens rest : List Token} {kinds : List Token.Kind} {fuel : Nat}

theorem stops_of_closed (closed : Closed rest) : Stops .lowest rest := by
  intro token found
  have closing := closed token found
  unfold closesStatement at closing
  split at closing
  case h_6 => cases closing
  all_goals next same => rw [same]; decide

theorem expression_complete {expr : Expr} (derives : Layer.disjunction.Derives kinds expr)
    (reads : Reads kinds tokens rest) (stops : Stops .lowest rest) (enough : tokens.length < fuel) :
    expression fuel .lowest tokens = .ok expr rest :=
  (expression_eq_ok (by decide) enough).mpr ⟨kinds, reads, derives, stops⟩

theorem closed_of_lines {parts : List (List Token.Kind)} (lines : Lines parts kinds)
    (apart : parts ≠ [] → kinds.head? = some .lineBreak) (reads : Reads kinds tokens rest)
    (closed : Closed rest) : Closed tokens := by
  have head : kinds = [] ∨ kinds.head? = some .lineBreak := by
    cases lines with
    | none count =>
      cases count with
      | zero => exact .inl rfl
      | succ count => exact .inr rfl
    | cons before lines apart' => exact .inr (apart (List.cons_ne_nil _ _))
  rcases head with rfl | head
  · exact Reads.nil_iff.mp reads ▸ closed
  · match kinds, head, reads with
    | _ :: _, rfl, ⟨token, later, same, lineBreak, _⟩ =>
      rw [same]
      rintro _ ⟨⟩
      rw [lineBreak]
      rfl

-- One turn of a loop over statements, from the line breaks before a statement on.
theorem part_complete {before : Nat} {part more : List Token.Kind} {parsed : Statement}
    (complete : CompleteForm .whole part parsed) (opens : Opens part)
    (reads : Reads (breaks before ++ part ++ more) tokens rest) (enough : tokens.length < fuel)
    (closed : ∀ later, Reads more later rest → Closed later) :
    ∃ token later middle, skipBreaks tokens = .ok () (token :: later) ∧
      closesStatement token.kind = false ∧ statement fuel (token :: later) = .ok parsed middle ∧
      Reads more middle rest ∧ Closed middle ∧ middle.length < tokens.length ∧
      (token :: later).length ≤ tokens.length := by
  rw [List.append_assoc] at reads
  obtain ⟨tokens', skipped, reads⟩ := Reads.append_iff.mp reads
  obtain ⟨middle, inside, reads'⟩ := Reads.append_iff.mp reads
  have length := skipped.length
  have length' := inside.length
  have ran := complete inside (closed middle reads') (by omega : tokens'.length < fuel)
  obtain ⟨first, others, rfl, opens⟩ := opens
  obtain ⟨token, later, rfl, same, inside⟩ := inside
  simp only [List.length_cons] at length length'
  refine ⟨token, later, middle, skipBreaks_eq_ok.mpr ⟨⟨before, skipped⟩, ?_⟩, same ▸ opens, ran, reads',
    closed middle reads', by omega, by simp only [List.length_cons]; omega⟩
  rintro found
  simp only [List.head?_cons, Option.map_some, Option.some.injEq] at found
  rw [← same, found] at opens
  cases opens

theorem closes_eq_false {closing : List Keyword} {kind : Token.Kind}
    (closers : ∀ word ∈ closing, closesStatement (.keyword word) = true)
    (opens : closesStatement kind = false) : closes closing kind = false := by
  match kind with
  | .keyword word =>
    rw [closes, Bool.eq_false_iff]
    intro member
    rw [closers word (by simpa using member)] at opens
    cases opens
  | .illegal _ | .name _ | .integer _ | .decimal _ | .string _ | .boolean _ | .symbol _ | .lineBreak =>
    rfl

theorem closed_of_last {closing : List Keyword}
    (last : ∃ word ∈ closing, rest.head?.map Token.kind = some (.keyword word))
    (closers : ∀ word ∈ closing, closesStatement (.keyword word) = true) : Closed rest := by
  obtain ⟨word, member, last⟩ := last
  obtain ⟨token, later, rfl, ended⟩ := eq_cons_of_head? last
  rintro _ ⟨⟩
  rw [ended]
  exact closers word member

theorem block_complete (closing : List Keyword)
    (closers : ∀ word ∈ closing, closesStatement (.keyword word) = true)
    {parts : List (List Token.Kind)} (lines : Lines parts kinds) :
    ∀ (found : List Statement) {body : List Part} {tokens rest : List Token} {count : Nat},
    parts = body.map Prod.fst → (∀ part ∈ body, Form.whole.Derives part.1 part.2) →
    (∀ part ∈ body, CompleteForm .whole part.1 part.2) → Reads kinds tokens rest →
    (∃ word ∈ closing, rest.head?.map Token.kind = some (.keyword word)) →
    tokens.length < fuel → tokens.length < count →
    block (statement fuel) closing count found tokens =
      .ok (found.reverse ++ body.map Prod.snd) rest := by
  induction lines with
  | none before =>
    intro found body tokens rest count same _ _ reads last enough most
    obtain rfl := List.map_eq_nil_iff.mp same.symm
    obtain ⟨word, member, last⟩ := last
    obtain ⟨token, later, rfl, ended⟩ := eq_cons_of_head? last
    cases count with
    | zero => cases most
    | succ count =>
      simp only [block, bind_eq_ok, peek?_eq_ok]
      refine ⟨(), _, skipBreaks_eq_ok.mpr ⟨⟨before, reads⟩, by simp [ended]⟩, _, _, ⟨rfl, rfl⟩, ?_⟩
      simp [ended, closes, member, pure_eq_ok]
  | @cons part parts kinds before lines apart ih =>
    intro found body tokens rest count same derives completes reads last enough most
    obtain ⟨⟨_, parsed⟩, body, rfl, rfl, rfl⟩ := List.map_eq_cons_iff.mp same.symm
    have ended := closed_of_last last closers
    obtain ⟨token, later, middle, skipped, opens, ran, reads, closed, shorter, _⟩ :=
      part_complete (completes _ List.mem_cons_self) (derives _ List.mem_cons_self).opens reads enough
        fun later reads => closed_of_lines lines apart reads ended
    cases count with
    | zero => cases most
    | succ count =>
      simp only [block, bind_eq_ok, peek?_eq_ok]
      refine ⟨(), _, skipped, _, _, ⟨rfl, rfl⟩, ?_⟩
      simp only [List.head?_cons, Option.map_some, closes_eq_false closers opens, if_false,
        Bool.false_eq_true, bind_eq_ok]
      refine ⟨parsed, middle, ran, (), middle, statementEnd_eq_ok.mpr ⟨rfl, closed⟩, ?_⟩
      have fewer : middle.length < count := by omega
      have others := ih (parsed :: found) rfl
        (fun part member => derives part (List.mem_cons_of_mem _ member))
        (fun part member => completes part (List.mem_cons_of_mem _ member)) reads last (by omega) fewer
      simpa using others

theorem caseBody_complete {parts : List (List Token.Kind)} {body : List Part} {count : Nat}
    (layout : Body parts kinds) (same : parts = body.map Prod.fst)
    (derives : ∀ part ∈ body, Form.whole.Derives part.1 part.2)
    (completes : ∀ part ∈ body, CompleteForm .whole part.1 part.2)
    (reads : Reads kinds tokens rest)
    (last : ∃ word ∈ [Keyword.option, .otherwise, .finish],
      rest.head?.map Token.kind = some (.keyword word))
    (enough : tokens.length < fuel) (most : tokens.length < count) :
    ∃ after middle, caseBody (statement fuel) count tokens = .ok (body.map Prod.snd) middle ∧
      Reads (breaks after) middle rest ∧ middle.length ≤ tokens.length := by
  simp only [caseBody, bind_eq_ok, peek?_eq_ok]
  cases layout with
  | lines lines =>
    have ran := block_complete _ (by decide) lines.break_cons [] same derives completes reads last enough
      most
    have length := reads.length
    obtain ⟨token, later, rfl, lineBreak, _⟩ := reads
    refine ⟨0, rest, ⟨_, _, ⟨rfl, rfl⟩, ?_⟩, rfl, by omega⟩
    simpa [lineBreak] using ran
  | single part after =>
    obtain ⟨⟨_, parsed⟩, rfl, rfl⟩ := List.map_eq_singleton_iff.mp same.symm
    obtain ⟨middle, inside, reads'⟩ := Reads.append_iff.mp reads
    have closed : Closed middle :=
      closed_of_lines (.none after) (by simp) reads' (closed_of_last last (by decide))
    have ran := completes _ List.mem_cons_self inside closed enough
    have length := inside.length
    refine ⟨after, middle, ⟨_, _, ⟨rfl, rfl⟩, ?_⟩, reads', by omega⟩
    obtain ⟨first, others, cons, opens⟩ := (derives _ List.mem_cons_self).opens
    simp only at cons
    subst cons
    obtain ⟨token, later, rfl, rfl, _⟩ := inside
    have other : token.kind ≠ .lineBreak := by
      intro lineBreak
      rw [lineBreak] at opens
      cases opens
    generalize found : Option.map Token.kind (token :: later).head? = following
    split
    · exact absurd (Option.some.inj found) other
    · simp only [bind_eq_ok, statementEnd_eq_ok, pure_eq_ok]
      exact ⟨parsed, middle, ran, (), middle, ⟨rfl, closed⟩, rfl, rfl⟩

theorem last_of_cases {layout : List (Pattern × List (List Token.Kind))}
    (derived : Cases layout kinds) (reads : Reads kinds tokens rest)
    (last : ∃ word ∈ [Keyword.otherwise, .finish],
      rest.head?.map Token.kind = some (.keyword word)) :
    ∃ word ∈ [Keyword.option, .otherwise, .finish],
      tokens.head?.map Token.kind = some (.keyword word) := by
  cases derived with
  | none =>
    obtain rfl := Reads.nil_iff.mp reads
    obtain ⟨word, member, last⟩ := last
    exact ⟨word, List.mem_cons_of_mem _ member, last⟩
  | cons =>
    obtain ⟨token, later, rfl, same, _⟩ := reads
    exact ⟨.option, List.mem_cons_self, by simp [same]⟩

theorem cases_complete {layout : List (Pattern × List (List Token.Kind))}
    (derived : Cases layout kinds) :
    ∀ (found : List (Pattern × Block)) {parsed : List (Pattern × List Part)} {before count : Nat}
      {tokens rest : List Token},
    (layout = parsed.map fun case => (case.1, case.2.map Prod.fst)) →
    (∀ case ∈ parsed, ∀ part ∈ case.2, Form.whole.Derives part.1 part.2) →
    (∀ case ∈ parsed, ∀ part ∈ case.2, CompleteForm .whole part.1 part.2) →
    (found = [] → parsed ≠ []) → Reads (breaks before ++ kinds) tokens rest →
    (∃ word ∈ [Keyword.otherwise, .finish], rest.head?.map Token.kind = some (.keyword word)) →
    tokens.length < fuel → tokens.length < count →
    cases (statement fuel) count found tokens =
      .ok (found.reverse ++ parsed.map fun case => (case.1, case.2.map Prod.snd)) rest := by
  induction derived with
  | none =>
    intro found parsed before count tokens rest same _ _ nonempty reads last enough most
    obtain rfl := List.map_eq_nil_iff.mp same.symm
    obtain ⟨word, member, last⟩ := last
    rw [List.append_nil] at reads
    cases count with
    | zero => cases most
    | succ count =>
      simp only [cases, bind_eq_ok, peek?_eq_ok]
      refine ⟨(), rest, skipBreaks_eq_ok.mpr ⟨⟨before, reads⟩, by simp [last]⟩, _, _, ⟨rfl, rfl⟩, ?_⟩
      have other : word ≠ .option := by rintro rfl; simp at member
      have some : found.isEmpty = false := by
        cases found with
        | nil => exact absurd rfl (nonempty rfl)
        | cons => rfl
      simp [some, last, other, pure_eq_ok]
  | @cons shape body kinds pattern parts others header inside derived ih =>
    intro found parsed before count tokens rest same derives completes _ reads last enough most
    obtain ⟨⟨form, block⟩, parsed, rfl, equal, rfl⟩ := List.map_eq_cons_iff.mp same.symm
    obtain ⟨rfl, rfl⟩ := Prod.mk.inj equal
    obtain ⟨tokens₁, skipped, token, tokens₂, rfl, option, reads⟩ := Reads.append_iff.mp reads
    obtain ⟨tokens₃, reads, token', tokens₄, rfl, consequence, reads'⟩ := Reads.append_iff.mp reads
    obtain ⟨tokens₅, reads', reads''⟩ := Reads.append_iff.mp reads'
    have length := skipped.length
    have length' := reads.length
    simp only [List.length_cons] at length length'
    obtain ⟨after, middle, ran, skipped', shorter⟩ := caseBody_complete inside rfl
      (derives _ List.mem_cons_self) (completes _ List.mem_cons_self) reads'
      (last_of_cases derived reads'' last) (by omega : tokens₄.length < fuel)
      (by omega : tokens₄.length < count - 1)
    cases count with
    | zero => cases most
    | succ count =>
      simp only [cases, bind_eq_ok, peek?_eq_ok]
      refine ⟨(), _, skipBreaks_eq_ok.mpr ⟨⟨before, skipped⟩, by simp [option]⟩, _, _, ⟨rfl, rfl⟩, ?_⟩
      simp only [List.head?_cons, Option.map_some, option, decide_true, Bool.or_true, if_true,
        bind_eq_ok, expect_eq_ok]
      refine ⟨(), _, .one option, _, _, pattern_complete header reads, (), _, .one consequence, _, _, ran, ?_⟩
      have fewer : middle.length < count := by omega
      have rest := ih ((form, block.map Prod.snd) :: found) rfl
        (fun case member => derives case (List.mem_cons_of_mem _ member))
        (fun case member => completes case (List.mem_cons_of_mem _ member)) (by simp)
        (skipped'.append reads'') last (by omega) fewer
      simpa using rest

theorem fields_complete {parts : List (List Token.Kind)} (lines : Lines parts kinds) :
    ∀ (found : List String) {names : List String} {count : Nat} {tokens rest : List Token},
    parts = names.map fieldKinds → Reads (kinds ++ [.keyword .finish]) tokens rest →
    tokens.length < count → fields count found tokens = .ok (found.reverse ++ names) rest := by
  induction lines with
  | none before =>
    intro found names count tokens rest same reads most
    obtain rfl := List.map_eq_nil_iff.mp same.symm
    obtain ⟨_, skipped, token, _, rfl, finish, rfl⟩ := Reads.append_iff.mp reads
    cases count with
    | zero => cases most
    | succ count =>
      simp only [fields, bind_eq_ok]
      refine ⟨(), _, skipBreaks_eq_ok.mpr ⟨⟨before, skipped⟩, by simp [finish]⟩, _, _, rfl, ?_⟩
      simp [finish, pure_eq_ok]
  | @cons part parts kinds before lines apart ih =>
    intro found names count tokens rest same reads most
    obtain ⟨name, names, rfl, rfl, rfl⟩ := List.map_eq_cons_iff.mp same.symm
    simp only [fieldKinds, List.append_assoc, List.cons_append, List.nil_append] at reads
    obtain ⟨_, skipped, token, _, rfl, field, token', later, rfl, named, reads⟩ := Reads.append_iff.mp reads
    have closed : Closed later := by
      obtain ⟨middle, inside, token, _, rfl, finish, _⟩ := Reads.append_iff.mp reads
      refine closed_of_lines lines apart inside ?_
      rintro _ ⟨⟩
      rw [finish]
      rfl
    have length := skipped.length
    simp only [List.length_cons] at length
    cases count with
    | zero => cases most
    | succ count =>
      simp only [fields, bind_eq_ok]
      refine ⟨(), _, skipBreaks_eq_ok.mpr ⟨⟨before, skipped⟩, by simp [field]⟩, _, _, rfl, ?_⟩
      simp only [Option.map_some, field, bind_eq_ok, identifier_eq_ok, statementEnd_eq_ok]
      have fewer : later.length < count := by omega
      refine ⟨name, _, .one named, (), _, ⟨rfl, closed⟩, ?_⟩
      simpa using ih (name :: found) rfl reads fewer

-- A condition, its block and the keyword after it.
theorem consequence_complete {test : List Token.Kind} {condition : Expr} {body : List Part}
    (more : List Token.Kind) {fuel' count : Nat}
    (derives : Layer.disjunction.Derives test condition) (lines : Lines (body.map Prod.fst) kinds)
    (each : ∀ part ∈ body, Form.whole.Derives part.1 part.2)
    (completes : ∀ part ∈ body, CompleteForm .whole part.1 part.2)
    (reads : Reads (test ++ .keyword .consequence :: .lineBreak :: (kinds ++ more)) tokens rest)
    (last : ∀ middle, Reads more middle rest → ∃ word ∈ [Keyword.elseBranch, .otherwise, .finish],
      middle.head?.map Token.kind = some (.keyword word))
    (enough : tokens.length < fuel) (enough' : tokens.length < fuel')
    (most : tokens.length ≤ count) :
    ∃ tokens₁ tokens₂ tokens₃ middle, expression fuel' .lowest tokens = .ok condition tokens₁ ∧
      expect (.keyword .consequence) tokens₁ = .ok () tokens₂ ∧
      expect .lineBreak tokens₂ = .ok () tokens₃ ∧
      block (statement fuel) [.elseBranch, .otherwise, .finish] count [] tokens₃ =
        .ok (body.map Prod.snd) middle ∧
      Reads more middle rest ∧ middle.length < tokens.length := by
  obtain ⟨_, reads, token, _, rfl, consequence, token', later, rfl, lineBreak, reads'⟩ :=
    Reads.append_iff.mp reads
  obtain ⟨middle, inside, reads'⟩ := Reads.append_iff.mp reads'
  have length := reads.length
  have length' := inside.length
  simp only [List.length_cons] at length
  have parses := expression_complete derives reads (stops_of_none (consequence ▸ rfl)) enough'
  have ran := block_complete _ (by decide) lines [] rfl each completes inside (last middle reads')
    (by omega : later.length < fuel) (by omega : later.length < count)
  exact ⟨_, _, later, middle, parses, expect_eq_ok.mpr (.one consequence),
    expect_eq_ok.mpr (.one lineBreak), ran, reads', by omega⟩

theorem startsAssignment_eq_false {expr : Expr} (derives : Layer.disjunction.Derives kinds expr)
    (reads : Reads kinds tokens rest) (closed : Closed rest) : startsAssignment tokens = false := by
  rw [Bool.eq_false_iff]
  intro assigns
  have absent := derives.assign_not_mem
  obtain ⟨first, others, rfl, _⟩ := derives.starts
  obtain ⟨token, later, rfl, _, reads⟩ := reads
  match later, assigns with
  | ⟨.symbol .assign, span⟩ :: later, _ =>
    match others, reads with
    | [], rfl => cases closed _ rfl
    | kind :: others, reads =>
      obtain ⟨rfl, _⟩ := Reads.cons_cons_iff.mp reads
      exact absent (by simp)

theorem evaluate_complete {expr : Expr} (derives : Layer.disjunction.Derives kinds expr) :
    CompleteForm .whole kinds (.evaluate expr) := by
  intro tokens rest fuel reads closed enough
  have ran := expression_complete derives reads (stops_of_closed closed) enough
  have assigns := startsAssignment_eq_false derives reads closed
  cases fuel with
  | zero => cases enough
  | succ fuel =>
    simp only [statement, statementWith, bind_eq_ok, get_eq_ok, peek?_eq_ok]
    refine ⟨_, _, ⟨rfl, rfl⟩, _, _, ⟨rfl, rfl⟩, ?_⟩
    obtain ⟨first, others, rfl, starts⟩ := derives.starts
    obtain ⟨token, later, rfl, same, _⟩ := reads
    generalize next : Option.map Token.kind (token :: later).head? = following
    simp only [List.head?_cons, Option.map_some, same] at next
    split
    case h_6 =>
      simp only [assigns, if_false, Bool.false_eq_true, bind_eq_ok, pure_eq_ok]
      exact ⟨_, _, ran, rfl, rfl⟩
    case h_7 =>
      simp only [bind_eq_ok, pure_eq_ok]
      exact ⟨_, _, ran, rfl, rfl⟩
    all_goals cases next; cases starts

theorem assign_complete {value : Expr} (id : String)
    (derives : Layer.disjunction.Derives kinds value) :
    CompleteForm .whole (.name id :: .symbol .assign :: kinds) (.assign id value) := by
  rintro _ rest fuel ⟨name, _, rfl, named, ⟨_, span⟩, later, rfl, rfl, reads⟩ closed enough
  simp only [List.length_cons] at enough
  have ran : expression fuel .lowest later = _ :=
    expression_complete derives reads (stops_of_closed closed) (by omega)
  cases fuel with
  | zero => cases enough
  | succ fuel =>
    simp only [statement, statementWith, bind_eq_ok, get_eq_ok, peek?_eq_ok]
    refine ⟨_, _, ⟨rfl, rfl⟩, _, _, ⟨rfl, rfl⟩, ?_⟩
    have assigns : startsAssignment (name :: ⟨.symbol .assign, span⟩ :: later) = true := rfl
    simp only [List.head?_cons, Option.map_some, named, assigns, if_true, next?_bind_cons,
      bind_eq_ok, pure_eq_ok]
    exact ⟨_, _, ran, rfl, rfl⟩

theorem print_complete {value : Expr} (derives : Layer.disjunction.Derives kinds value) :
    CompleteForm .whole (.keyword .print :: kinds) (.print value) := by
  rintro _ rest fuel ⟨token, later, rfl, same, reads⟩ closed enough
  simp only [List.length_cons] at enough
  have ran : expression fuel .lowest later = _ :=
    expression_complete derives reads (stops_of_closed closed) (by omega)
  cases fuel with
  | zero => cases enough
  | succ fuel =>
    simp only [statement, statementWith, bind_eq_ok, get_eq_ok, peek?_eq_ok]
    refine ⟨_, _, ⟨rfl, rfl⟩, _, _, ⟨rfl, rfl⟩, ?_⟩
    simp only [List.head?_cons, Option.map_some, same, next?_bind_cons, bind_eq_ok, pure_eq_ok]
    exact ⟨_, _, ran, rfl, rfl⟩

theorem define_complete (type : String) {names : List String}
    (lines : Lines (names.map fieldKinds) kinds) :
    CompleteForm .whole
      (.keyword .record :: .name type :: .lineBreak :: (kinds ++ [.keyword .finish]))
      (.define type names) := by
  rintro _ rest fuel ⟨token, _, rfl, same, name, _, rfl, named, blank, later, rfl, lineBreak, reads⟩
    closed enough
  simp only [List.length_cons] at enough
  have ran := fields_complete lines [] rfl reads (by omega : later.length < fuel)
  cases fuel with
  | zero => cases enough
  | succ fuel =>
    simp only [statement, statementWith, bind_eq_ok, get_eq_ok, peek?_eq_ok]
    refine ⟨_, _, ⟨rfl, rfl⟩, _, _, ⟨rfl, rfl⟩, ?_⟩
    simp only [List.head?_cons, Option.map_some, same, next?_bind_cons, bind_eq_ok,
      identifier_eq_ok, expect_eq_ok, pure_eq_ok]
    exact ⟨_, _, .one named, (), _, .one lineBreak, _, _, ran, rfl, rfl⟩

section Bodies

variable {test source kinds' : List Token.Kind} {condition : Expr} {body body' : List Part}

theorem iterate_complete (id : String) (derives : Layer.disjunction.Derives source condition)
    (lines : Lines (body.map Prod.fst) kinds)
    (each : ∀ part ∈ body, Form.whole.Derives part.1 part.2)
    (completes : ∀ part ∈ body, CompleteForm .whole part.1 part.2) :
    CompleteForm .whole
      (.keyword .iterate :: .name id :: .keyword .among ::
        (source ++ .lineBreak :: (kinds ++ [.keyword .finish])))
      (.iterate id condition (body.map Prod.snd)) := by
  rintro _ rest fuel ⟨token, _, rfl, same, name, _, rfl, named, word, later, rfl, among, reads⟩
    closed enough
  obtain ⟨_, reads, blank, tokens, rfl, lineBreak, reads'⟩ := Reads.append_iff.mp reads
  obtain ⟨middle, inside, close⟩ := Reads.append_iff.mp reads'
  have length := reads.length
  simp only [List.length_cons] at enough length
  cases fuel with
  | zero => cases enough
  | succ fuel =>
    have parses : expression (fuel + 1) .lowest later = _ :=
      expression_complete derives reads (stops_of_none (lineBreak ▸ rfl)) (by omega)
    have ran := block_complete [.finish] (by decide) lines [] rfl each completes inside
      ⟨.finish, by decide, close.head?_eq⟩ (by omega : tokens.length < fuel)
      (by omega : tokens.length < fuel + 1)
    simp only [statement, statementWith, bind_eq_ok, get_eq_ok, peek?_eq_ok]
    refine ⟨_, _, ⟨rfl, rfl⟩, _, _, ⟨rfl, rfl⟩, ?_⟩
    simp only [List.head?_cons, Option.map_some, same, next?_bind_cons, bind_eq_ok,
      identifier_eq_ok, expect_eq_ok, pure_eq_ok]
    exact ⟨_, _, .one named, (), _, .one among, _, _, parses, (), _, .one lineBreak, _, _, ran, (),
      _, close, rfl, rfl⟩

theorem branch_complete {parsed : Statement} (completes : CompleteForm .branch kinds parsed) :
    CompleteForm .whole (.keyword .branch :: (kinds ++ [.keyword .finish])) parsed := by
  rintro _ rest fuel ⟨token, later, rfl, same, reads⟩ closed enough
  obtain ⟨middle, inside, close⟩ := Reads.append_iff.mp reads
  simp only [List.length_cons] at enough
  cases fuel with
  | zero => cases enough
  | succ fuel =>
    have ran := completes inside close.head?_eq (by omega : later.length < fuel)
      (by omega : later.length < fuel + 1) (by omega : later.length < fuel + 1)
    simp only [statement, statementWith, bind_eq_ok, get_eq_ok, peek?_eq_ok]
    refine ⟨_, _, ⟨rfl, rfl⟩, _, _, ⟨rfl, rfl⟩, ?_⟩
    simp only [List.head?_cons, Option.map_some, same, next?_bind_cons, bind_eq_ok, expect_eq_ok,
      pure_eq_ok]
    exact ⟨_, _, ran, (), _, close, rfl, rfl⟩

theorem onlyBranch_complete (derives : Layer.disjunction.Derives test condition)
    (lines : Lines (body.map Prod.fst) kinds)
    (each : ∀ part ∈ body, Form.whole.Derives part.1 part.2)
    (completes : ∀ part ∈ body, CompleteForm .whole part.1 part.2) :
    CompleteForm .branch (test ++ .keyword .consequence :: .lineBreak :: kinds)
      (.branch condition (body.map Prod.snd) none) := by
  intro tokens rest fuel fuel' count reads last enough enough' most
  cases count with
  | zero => cases most
  | succ count =>
    have follows (middle : List Token) (same : Reads [] middle rest) :
        ∃ word ∈ [Keyword.elseBranch, .otherwise, .finish],
          middle.head?.map Token.kind = some (.keyword word) :=
      ⟨.finish, by decide, Reads.nil_iff.mp same ▸ last⟩
    obtain ⟨_, _, _, middle, parses, word, lineBreak, ran, rfl, _⟩ :=
      consequence_complete [] derives lines each completes (by simpa using reads) follows enough
        enough' (Nat.le_of_lt_succ most)
    simp only [branch, bind_eq_ok, peek?_eq_ok]
    refine ⟨_, _, parses, _, _, word, _, _, lineBreak, _, _, ran, _, _, ⟨rfl, rfl⟩, ?_⟩
    rw [last]
    rfl

theorem elseBranch_complete {nested : List Token.Kind} {inner : Statement}
    (derives : Layer.disjunction.Derives test condition) (lines : Lines (body.map Prod.fst) kinds)
    (each : ∀ part ∈ body, Form.whole.Derives part.1 part.2)
    (completes : ∀ part ∈ body, CompleteForm .whole part.1 part.2)
    (further : CompleteForm .branch nested inner) :
    CompleteForm .branch
      (test ++ .keyword .consequence :: .lineBreak :: (kinds ++ .keyword .elseBranch :: nested))
      (.branch condition (body.map Prod.snd) (some [inner])) := by
  intro tokens rest fuel fuel' count reads last enough enough' most
  cases count with
  | zero => cases most
  | succ count =>
    obtain ⟨_, _, _, _, parses, word, lineBreak, ran, ⟨token, later, rfl, same, reads'⟩, shorter⟩ :=
      consequence_complete (.keyword .elseBranch :: nested) derives lines each completes reads
        (fun _ reads => ⟨.elseBranch, by decide, reads.head?_eq⟩) enough enough'
        (Nat.le_of_lt_succ most)
    simp only [List.length_cons] at shorter
    simp only [branch, bind_eq_ok, peek?_eq_ok]
    refine ⟨_, _, parses, _, _, word, _, _, lineBreak, _, _, ran, _, _, ⟨rfl, rfl⟩, ?_⟩
    simp only [List.head?_cons, Option.map_some, same, next?_bind_cons, bind_eq_ok, pure_eq_ok]
    exact ⟨_, _, further reads' last (by omega) (by omega) (by omega), rfl, rfl⟩

theorem otherwise_complete (derives : Layer.disjunction.Derives test condition)
    (lines : Lines (body.map Prod.fst) kinds)
    (each : ∀ part ∈ body, Form.whole.Derives part.1 part.2)
    (completes : ∀ part ∈ body, CompleteForm .whole part.1 part.2)
    (lines' : Lines (body'.map Prod.fst) kinds')
    (each' : ∀ part ∈ body', Form.whole.Derives part.1 part.2)
    (completes' : ∀ part ∈ body', CompleteForm .whole part.1 part.2) :
    CompleteForm .branch
      (test ++ .keyword .consequence :: .lineBreak ::
        (kinds ++ .keyword .otherwise :: .lineBreak :: kinds'))
      (.branch condition (body.map Prod.snd) (some (body'.map Prod.snd))) := by
  intro tokens rest fuel fuel' count reads last enough enough' most
  cases count with
  | zero => cases most
  | succ count =>
    obtain ⟨_, _, _, _, parses, word, lineBreak, ran,
        ⟨token, _, rfl, same, token', later, rfl, same', reads'⟩, shorter⟩ :=
      consequence_complete (.keyword .otherwise :: .lineBreak :: kinds') derives lines each completes
        reads (fun _ reads => ⟨.otherwise, by decide, reads.head?_eq⟩) enough enough'
        (Nat.le_of_lt_succ most)
    simp only [List.length_cons] at shorter
    have ran' := block_complete [.finish] (by decide) lines' [] rfl each' completes' reads'
      ⟨.finish, by decide, last⟩ (by omega : later.length < fuel) (by omega : later.length < count)
    simp only [branch, bind_eq_ok, peek?_eq_ok]
    refine ⟨_, _, parses, _, _, word, _, _, lineBreak, _, _, ran, _, _, ⟨rfl, rfl⟩, ?_⟩
    simp only [List.head?_cons, Option.map_some, same, next?_bind_cons, bind_eq_ok, expect_eq_ok,
      pure_eq_ok]
    exact ⟨(), _, .one same', _, _, ran', rfl, rfl⟩

end Bodies

section Selections

variable {source : List Token.Kind} {scrutinee : Expr} {options : List (Pattern × List Part)}

theorem select_complete (derives : Layer.disjunction.Derives source scrutinee) (before : Nat)
    (nonempty : options ≠ [])
    (layout : Cases (options.map fun case => (case.1, case.2.map Prod.fst)) kinds)
    (each : ∀ case ∈ options, ∀ part ∈ case.2, Form.whole.Derives part.1 part.2)
    (completes : ∀ case ∈ options, ∀ part ∈ case.2, CompleteForm .whole part.1 part.2) :
    CompleteForm .whole
      (.keyword .select ::
        (source ++ .lineBreak :: (breaks before ++ (kinds ++ [.keyword .finish]))))
      (.select scrutinee (options.map fun case => (case.1, case.2.map Prod.snd)) none) := by
  rintro _ rest fuel ⟨token, later, rfl, same, reads⟩ closed enough
  obtain ⟨_, reads, blank, tokens, rfl, lineBreak, reads'⟩ := Reads.append_iff.mp reads
  rw [← List.append_assoc] at reads'
  obtain ⟨middle, inside, close⟩ := Reads.append_iff.mp reads'
  have last := close.head?_eq
  have length := reads.length
  simp only [List.length_cons] at enough length
  cases fuel with
  | zero => cases enough
  | succ fuel =>
    have parses : expression (fuel + 1) .lowest later = _ :=
      expression_complete derives reads (stops_of_none (lineBreak ▸ rfl)) (by omega)
    have ran := cases_complete layout [] rfl each completes (fun _ => nonempty) inside
      ⟨.finish, by decide, last⟩ (by omega : tokens.length < fuel)
      (by omega : tokens.length < fuel + 1)
    simp only [statement, statementWith, bind_eq_ok, get_eq_ok, peek?_eq_ok]
    refine ⟨_, _, ⟨rfl, rfl⟩, _, _, ⟨rfl, rfl⟩, ?_⟩
    simp only [List.head?_cons, Option.map_some, same, next?_bind_cons, bind_eq_ok, expect_eq_ok,
      accept_eq_ok]
    refine ⟨_, _, parses, (), _, .one lineBreak, _, _, ran, false, _,
      .inr ⟨rfl, rfl, by simp [last]⟩, ?_⟩
    simp only [if_false, Bool.false_eq_true, bind_eq_ok, pure_eq_ok, skipBreaks_eq_ok, expect_eq_ok]
    exact ⟨_, _, ⟨rfl, rfl⟩, (), _, ⟨⟨0, rfl⟩, by simp [last]⟩, (), _, close, rfl, rfl⟩

theorem selectOtherwise_complete {kinds' : List Token.Kind} {body : List Part}
    (derives : Layer.disjunction.Derives source scrutinee) (before : Nat) (nonempty : options ≠ [])
    (layout : Cases (options.map fun case => (case.1, case.2.map Prod.fst)) kinds)
    (each : ∀ case ∈ options, ∀ part ∈ case.2, Form.whole.Derives part.1 part.2)
    (completes : ∀ case ∈ options, ∀ part ∈ case.2, CompleteForm .whole part.1 part.2)
    (layout' : Body (body.map Prod.fst) kinds')
    (each' : ∀ part ∈ body, Form.whole.Derives part.1 part.2)
    (completes' : ∀ part ∈ body, CompleteForm .whole part.1 part.2) :
    CompleteForm .whole
      (.keyword .select :: (source ++ .lineBreak ::
        (breaks before ++ (kinds ++ .keyword .otherwise :: (kinds' ++ [.keyword .finish])))))
      (.select scrutinee (options.map fun case => (case.1, case.2.map Prod.snd))
        (some (body.map Prod.snd))) := by
  rintro _ rest fuel ⟨token, later, rfl, same, reads⟩ closed enough
  obtain ⟨_, reads, blank, tokens, rfl, lineBreak, reads'⟩ := Reads.append_iff.mp reads
  rw [← List.append_assoc] at reads'
  obtain ⟨_, inside, word, tokens₄, rfl, otherwise, reads'⟩ := Reads.append_iff.mp reads'
  obtain ⟨middle, inside', close⟩ := Reads.append_iff.mp reads'
  have last := close.head?_eq
  have length := reads.length
  have length' := inside.length
  simp only [List.length_cons] at enough length length'
  cases fuel with
  | zero => cases enough
  | succ fuel =>
    have parses : expression (fuel + 1) .lowest later = _ :=
      expression_complete derives reads (stops_of_none (lineBreak ▸ rfl)) (by omega)
    have ran := cases_complete layout [] rfl each completes (fun _ => nonempty) inside
      ⟨.otherwise, by decide, by simp [otherwise]⟩ (by omega : tokens.length < fuel)
      (by omega : tokens.length < fuel + 1)
    obtain ⟨after, _, ran', skipped, _⟩ := caseBody_complete layout' rfl each' completes' inside'
      ⟨.finish, by decide, last⟩ (by omega : tokens₄.length < fuel)
      (by omega : tokens₄.length < fuel + 1)
    simp only [statement, statementWith, bind_eq_ok, get_eq_ok, peek?_eq_ok]
    refine ⟨_, _, ⟨rfl, rfl⟩, _, _, ⟨rfl, rfl⟩, ?_⟩
    simp only [List.head?_cons, Option.map_some, same, next?_bind_cons, bind_eq_ok, expect_eq_ok,
      accept_eq_ok]
    refine ⟨_, _, parses, (), _, .one lineBreak, _, _, ran, true, _, .inl ⟨rfl, .one otherwise⟩, ?_⟩
    simp only [if_true, bind_eq_ok, map_eq_ok, pure_eq_ok, skipBreaks_eq_ok, expect_eq_ok]
    exact ⟨_, _, ⟨_, ran', rfl⟩, (), _, ⟨⟨after, skipped⟩, by simp [last]⟩, (), _, close, rfl, rfl⟩

end Selections

-- The induction is on the derivation: the statements of a block are parts of it.
theorem complete_of_derives {form : Form} {parsed : Statement}
    (derives : form.Derives kinds parsed) : CompleteForm form kinds parsed := by
  induction derives with
  | assign id derives => exact assign_complete id derives
  | print derives => exact print_complete derives
  | evaluate derives => exact evaluate_complete derives
  | define type lines => exact define_complete type lines
  | iterate id derives lines each ih => exact iterate_complete id derives lines each ih
  | branch _ ih => exact branch_complete ih
  | consequence derives lines each ih => exact onlyBranch_complete derives lines each ih
  | elseBranch derives lines each _ ih ih' => exact elseBranch_complete derives lines each ih ih'
  | otherwise derives lines each lines' each' ih ih' =>
    exact otherwise_complete derives lines each ih lines' each' ih'
  | select derives before nonempty layout each ih =>
    exact select_complete derives before nonempty layout each ih
  | selectOtherwise derives before nonempty layout each layout' each' ih ih' =>
    exact selectOtherwise_complete derives before nonempty layout each ih layout' each' ih'

theorem statements_complete {parts : List (List Token.Kind)} (lines : Lines parts kinds) :
    ∀ (found : List Statement) {body : List Part} {tokens : List Token} {count : Nat},
    parts = body.map Prod.fst → (∀ part ∈ body, Form.whole.Derives part.1 part.2) →
    Reads kinds tokens [] → tokens.length < count →
    statements count found tokens = .ok (found.reverse ++ body.map Prod.snd) [] := by
  induction lines with
  | none before =>
    intro found body tokens count same _ reads most
    obtain rfl := List.map_eq_nil_iff.mp same.symm
    cases count with
    | zero => cases most
    | succ count =>
      simp only [statements, bind_eq_ok, peek?_eq_ok]
      refine ⟨(), [], skipBreaks_eq_ok.mpr ⟨⟨before, reads⟩, by simp⟩, _, _, ⟨rfl, rfl⟩, ?_⟩
      simp [pure_eq_ok]
  | @cons part parts kinds before lines apart ih =>
    intro found body tokens count same derives reads most
    obtain ⟨⟨_, parsed⟩, body, rfl, rfl, rfl⟩ := List.map_eq_cons_iff.mp same.symm
    have whole := derives _ List.mem_cons_self
    obtain ⟨token, later, middle, skipped, _, ran, reads, closed, shorter, _⟩ :=
      part_complete (complete_of_derives whole) whole.opens reads most
        fun later reads => closed_of_lines lines apart reads (fun token found => by cases found)
    cases count with
    | zero => cases most
    | succ count =>
      simp only [statements, bind_eq_ok, peek?_eq_ok]
      refine ⟨(), _, skipped, _, _, ⟨rfl, rfl⟩, ?_⟩
      simp only [List.head?_cons, Option.map_some, bind_eq_ok]
      refine ⟨parsed, middle, ran, (), middle, statementEnd_eq_ok.mpr ⟨rfl, closed⟩, ?_⟩
      have fewer : middle.length < count := by omega
      have others := ih (parsed :: found) rfl
        (fun part member => derives part (List.mem_cons_of_mem _ member)) reads fewer
      simpa using others

end Completeness

end Parser

theorem Program.ofTokens_of_derives {tokens : List Token} {program : Program}
    (derives : program.Derives (tokens.map Token.kind)) :
    Program.ofTokens tokens = .ok program := by
  obtain ⟨parts, same, lines, each⟩ := derives
  have reads : Reads (tokens.map Token.kind) tokens [] :=
    Reads.iff_append.mpr ⟨tokens, by simp, rfl⟩
  have ran := Parser.statements_complete lines [] rfl each reads (Nat.lt_succ_self _)
  simp [Program.ofTokens, ran, ← same]

theorem Program.derives_of_ofTokens {tokens : List Token} {program : Program}
    (parsed : Program.ofTokens tokens = .ok program) :
    program.Derives (tokens.map Token.kind) := by
  unfold Program.ofTokens at parsed
  split at parsed
  · next found rest ran =>
    obtain ⟨kinds, statements, rfl, derives, reads⟩ :=
      Parser.statements_sound _ (Nat.lt_succ_self _) ran
    obtain ⟨consumed, same, rfl⟩ := Reads.iff_append.mp reads
    rw [List.append_nil] at same
    cases parsed
    simpa [Program.Derives, same] using derives
  · cases parsed

/-- Parsing accepts exactly the programs of the grammar, with the statements that it gives them. -/
theorem ofTokens_iff_derives (tokens : List Token) (program : Program) :
    Program.ofTokens tokens = .ok program ↔ program.Derives (tokens.map Token.kind) :=
  ⟨Program.derives_of_ofTokens, Program.ofTokens_of_derives⟩

end ByNeed
