import ByNeed.Proofs.Grammar.PrefixCases
import ByNeed.Proofs.Rendering.Literal

set_option autoImplicit false

namespace ByNeed.Parser

variable {limit : Nat} {parse : Nat → Parser Statement} {whole : Nat → Parser Expr}
  {turns : Nat → Nat}

section Forms

theorem predicts_define (ample : Ample turns) :
    Predicts (fun fuel => do
      let type ← identifier
      expect .lineBreak
      return Statement.define type (← fields (turns fuel) [])) Any Any limit := by
  have lines (type : String) := (@predicts_fields limit _ ample []).map (Statement.define type)
  have line (type : String) := (predicts_expect .lineBreak).bind
    (fun _ => (lines type).loosen fun _ _ => trivial) fun _ _ => trivial
  have named := predicts_identifier.bind (fun type => (line type).loosen fun _ _ => trivial)
    fun _ _ => trivial
  exact named.loosen fun _ _ => trivial

variable (predicts : Predicts whole (Stops .lowest) (Heads (.name "x")) limit)
include predicts

theorem predicts_value {α : Type} (build : Expr → α) :
    Predicts (fun fuel => do return build (← whole fuel)) Closed Any limit :=
  ((predicts.map build).restrict fun _ => stops_of_closed).loosen fun _ _ => trivial

theorem predicts_branching (stating : Stating parse limit) {error : SyntaxError}
    (needs : FailsWith whole [] error) (ample : Ample turns) :
    Predicts (fun fuel => do
      let parsed ← branch (parse fuel) (whole fuel) (turns fuel)
      expect (.keyword .finish)
      return parsed) Any Any limit :=
  (predicts_branch stating predicts needs ample).bind_needy
    (fun parsed => (predicts_expect (.keyword .finish)).map fun _ => parsed) trivial
    fun _ => ⟨_, (expect_needs (.keyword .finish)).bind⟩

theorem predicts_iterate (stating : Stating parse limit) (ample : Ample turns) :
    Predicts (fun fuel => do
      let id ← identifier
      expect (.keyword .among)
      let items ← whole fuel
      expect .lineBreak
      let body ← block (parse fuel) [.finish] (turns fuel) []
      expect (.keyword .finish)
      return Statement.iterate id items body) Any Any limit := by
  have finish (id : String) (items : Expr) (body : Block) :=
    (@predicts_expect limit (.keyword .finish)).map fun _ => Statement.iterate id items body
  have lines (id : String) (items : Expr) := (predicts_block closing_finish stating ample []).bind_needy
    (fun body => (finish id items body).loosen fun _ heads => heads.ending (by decide)) trivial
    fun _ => ⟨_, (expect_needs (.keyword .finish)).bind⟩
  have line (id : String) (items : Expr) := (predicts_expect .lineBreak).bind
    (fun _ => (lines id items).loosen fun _ _ => trivial) fun _ _ => trivial
  have source (id : String) := predicts.bind_needy
    (fun items => (line id items).loosen fun _ heads => heads.stops (by decide)) trivial
    fun _ => ⟨_, (expect_needs .lineBreak).bind⟩
  have among (id : String) := (predicts_expect (.keyword .among)).bind
    (fun _ => (source id).loosen fun _ _ => trivial) fun _ _ => trivial
  have named := predicts_identifier.bind (fun id => (among id).loosen fun _ _ => trivial)
    fun _ _ => trivial
  exact named.loosen fun _ _ => trivial

omit predicts in
theorem predicts_alternative (stating : Stating parse limit) (ample : Ample turns) :
    Predicts (fun fuel => accept (.keyword .otherwise) >>= fun found =>
      if found then some <$> caseBody (parse fuel) (turns fuel) else pure none)
      (Heads (.keyword .finish)) (Ending [.otherwise, .finish]) limit := by
  have body := ((predicts_caseBody stating ample).map some).restrict
    fun rest (heads : Heads (.keyword .finish) rest) => heads.ending (by decide)
  have other (rest : List Token) (heads : Heads (.keyword .finish) rest) :
      ¬ Heads (.keyword .otherwise) rest := by
    rw [Heads, heads]
    decide
  simp only [map_eq_pure_bind]
  refine predicts_choice ⟨[], none, fun rest heads => ?_, fun _ heads => heads.ending (by decide)⟩
    body (predicts_pure none fun _ heads => heads.ending (by decide)) fun _ _ => other
  exact gives_refused (other rest heads) fun _ _ => rfl

theorem predicts_select (stating : Stating parse limit) (ample : Ample turns) :
    Predicts (fun fuel => do
      let scrutinee ← whole fuel
      expect .lineBreak
      let found ← cases (parse fuel) (turns fuel) []
      let alternative ← if ← accept (.keyword .otherwise) then
          some <$> caseBody (parse fuel) (turns fuel)
        else pure none
      skipBreaks
      expect (.keyword .finish)
      return Statement.select scrutinee found alternative) Any Any limit := by
  have finish (scrutinee : Expr) (found : List (Pattern × Block)) (alternative : Option Block) :=
    ((@predicts_expect limit (.keyword .finish)).map
      fun _ => Statement.select scrutinee found alternative).after_breaks_needy
      (fun _ heads => heads.unbroken nofun) trivial (expect_needs (.keyword .finish)).bind
  have last (scrutinee : Expr) (found : List (Pattern × Block)) :=
    (predicts_alternative stating ample).bind_needy (finish scrutinee found) trivial
      fun _ => ⟨_, (expect_needs (.keyword .finish)).bind.after_breaks⟩
  simp only [bind_assoc] at last
  have cases (scrutinee : Expr) := (predicts_cases stating ample).bind_needy (last scrutinee) trivial
    fun _ => ⟨.endOfInput (.token (.keyword .finish)), fun _ _ => ⟨[], rfl⟩⟩
  have line (scrutinee : Expr) := (predicts_expect .lineBreak).bind
    (fun _ => (cases scrutinee).loosen fun _ _ => trivial) fun _ _ => trivial
  have whole := predicts.bind_needy
    (fun scrutinee => (line scrutinee).loosen fun _ heads => heads.stops (by decide)) trivial
    fun _ => ⟨_, (expect_needs .lineBreak).bind⟩
  refine (Follows.of_eq fun fuel => ?_).predicts (whole.loosen fun _ _ => trivial)
  refine bind_congr fun _ => bind_congr fun _ => bind_congr fun _ => bind_congr fun accepted => ?_
  cases accepted <;> rfl

end Forms

section Statements

def evaluation (fuel : Nat) : Parser Statement := do
  return .evaluate (← expression fuel .lowest)

theorem predicts_evaluation : Predicts evaluation Closed Any limit :=
  predicts_value ((predictive_expression limit).predicts .lowest (by decide)) Statement.evaluate

theorem evaluation_needs : FailsWith evaluation [] (.endOfInput .expression) :=
  (expression_needs .lowest).bind

theorem evaluation_takes_name (id : String) (span : Span) :
    Takes evaluation Closed [⟨.name id, span⟩] (.evaluate (.name id)) := by
  intro rest closed fuel enough
  have read := expression_takes_name .lowest id span rest (stops_of_closed closed) fuel enough
  simp only [evaluation, Bind.bind, EStateM.bind, read]
  rfl

theorem not_assign_of_closed {rest : List Token} (closed : Closed rest) :
    ¬ Heads (.symbol .assign) rest := by
  intro heads
  obtain ⟨token, later, rfl, same⟩ := eq_cons_of_head? heads
  have closing := closed token rfl
  rw [same] at closing
  cases closing

theorem statement_name {fuel : Nat} (id : String) (span : Span) {rest : List Token}
    (other : ¬ Heads (.symbol .assign) rest) :
    statement (fuel + 1) (⟨.name id, span⟩ :: rest) =
      evaluation (fuel + 1) (⟨.name id, span⟩ :: rest) := by
  have plain : startsAssignment (⟨.name id, span⟩ :: rest) = false := by
    match rest with
    | [] => rfl
    | ⟨kind, _⟩ :: _ => cases kind with
      | symbol mark => cases mark with
        | assign => exact absurd rfl other
        | _ => rfl
      | _ => rfl
  have unfolded (rest : List Token) (assignment : Bool)
      (same : startsAssignment (⟨.name id, span⟩ :: rest) = assignment) :
      statement (fuel + 1) (⟨.name id, span⟩ :: rest) = (if assignment then do
          let _ ← next?
          let _ ← next?
          return .assign id (← expression (fuel + 1) .lowest)
        else evaluation (fuel + 1) : Parser Statement) (⟨.name id, span⟩ :: rest) := by
    subst same
    rfl
  exact unfolded rest false plain

theorem statement_takes_name (id : String) (span : Span) :
    Takes statement Closed [⟨.name id, span⟩] (.evaluate (.name id)) := by
  intro rest closed
  exact (evaluation_takes_name id span rest closed).congr fun _ =>
    statement_name id span (not_assign_of_closed closed)

theorem statement_starts : Starts statement Closed (Heads (.name "x")) :=
  ⟨[sample (.name "x")], _, statement_takes_name "x" _, fun _ _ => rfl⟩

-- A name begins an assignment or an expression, and the token after it decides.
theorem verdict_evaluated_name {id : String} {span : Span} {rest : List Token}
    (other : ¬ Heads (.symbol .assign) rest)
    (verdict : Verdict evaluation Closed (⟨.name id, span⟩ :: rest)) :
    Verdict statement Closed (⟨.name id, span⟩ :: rest) := by
  have gives {rest : List Token} {result : EStateM.Result SyntaxError (List Token) Statement}
      (other : ¬ Heads (.symbol .assign) rest)
      (gives : Gives evaluation (⟨.name id, span⟩ :: rest) result) :
      Gives statement (⟨.name id, span⟩ :: rest) result :=
    gives.congr fun _ => statement_name id span other
  have failsWith {rest : List Token} {error : SyntaxError} (other : ¬ Heads (.symbol .assign) rest)
      (fails : FailsWith evaluation (⟨.name id, span⟩ :: rest) error) :
      FailsWith statement (⟨.name id, span⟩ :: rest) error :=
    fails.congr fun _ => statement_name id span other
  -- If there is more than the name, the second token is known, and else what follows is.
  have takes {front : List Token} {value : Statement} (like : front ≠ [] → front.head? = rest.head?)
      (takes : Takes evaluation Closed (⟨.name id, span⟩ :: front) value) :
      Takes statement Closed (⟨.name id, span⟩ :: front) value := by
    intro rest' closed
    refine gives ?_ (takes rest' closed)
    cases front with
    | nil => exact not_assign_of_closed closed
    | cons token front =>
      rw [Heads, ← like (List.cons_ne_nil _ _)] at other
      exact other
  have viable {front : List Token} (like : front ≠ [] → front.head? = rest.head?)
      (possible : Viable evaluation Closed (⟨.name id, span⟩ :: front)) :
      Viable statement Closed (⟨.name id, span⟩ :: front) := by
    cases front with
    | nil => exact .of_takes (statement_takes_name id span)
    | cons token front =>
      obtain ⟨more, value, taken⟩ := possible
      exact ⟨more, value, takes (fun _ => like (List.cons_ne_nil _ _)) taken⟩
  cases verdict with
  | ends fails possible => exact .ends (failsWith other fails) (viable (fun _ => rfl) possible)
  | @reads front rest' value split taken onward =>
    cases front with
    | nil => exact absurd taken (not_takes_nil closed_nil evaluation_needs)
    | cons first front =>
      rw [List.cons_append] at split
      obtain ⟨rfl, rfl⟩ := List.cons.inj split
      refine .reads rfl (takes (fun some => ?_) taken) fun rest'' like => ?_
      · rw [List.head?_append_of_ne_nil _ some]
      · rw [List.cons_append]
        refine gives ?_ (onward rest'' like)
        rwa [Heads, List.head?_append, like, ← List.head?_append]
  | @fails front rest' token error split about always possible =>
    cases front with
    | nil =>
      obtain ⟨rfl, rfl⟩ := List.cons.inj split
      obtain ⟨left, failed⟩ := always [] 2 (by simp)
      have read := evaluation_takes_name id span [] closed_nil 2 (by simp)
      rw [List.append_nil] at read
      rw [List.nil_append, read] at failed
      cases failed
    | cons first front =>
      rw [List.cons_append] at split
      obtain ⟨rfl, rfl⟩ := List.cons.inj split
      refine .fails rfl about (fun rest'' => ?_) (viable (fun some => ?_) possible)
      · rw [List.cons_append]
        refine failsWith ?_ (always rest'')
        rwa [Heads, List.head?_append, List.head?_cons] at other ⊢
      · rw [List.head?_append_of_ne_nil _ some]

theorem statement_needs : FailsWith statement [] (.endOfInput .expression) := by
  intro fuel enough
  cases fuel with
  | zero => cases enough
  | succ fuel => exact ⟨[], rfl⟩

theorem statement_refuses {rest : List Token} (closed : Closed rest) :
    ∃ error, FailsWith statement rest error := by
  have refused {error : SyntaxError} {left : List Token}
      (failed : ∀ fuel, statement (fuel + 1) rest = .error error left) :
      ∃ error, FailsWith statement rest error := by
    refine ⟨error, fun fuel enough => ?_⟩
    cases fuel with
    | zero => cases enough
    | succ fuel => exact ⟨left, failed fuel⟩
  match rest with
  | [] => exact refused fun _ => rfl
  | ⟨kind, span⟩ :: later =>
    have closing : closesStatement kind = true := closed _ rfl
    unfold closesStatement at closing
    split at closing
    case h_6 => cases closing
    all_goals exact refused fun _ => rfl

theorem stating_statement (limit : Nat) : Stating statement limit := by
  induction limit with
  | zero => exact ⟨statement_starts.predicts_zero, fun _ => statement_refuses⟩
  | succ limit ih =>
    refine ⟨⟨statement_starts, fun tokens short legible => ?_⟩, fun _ => statement_refuses⟩
    have predictive := (predictive_expression limit).more
    have whole := predictive.predicts .lowest (by decide)
    have needs := predictive.needs .lowest
    have more : Ample fun fuel => fuel + 1 := Nat.le_succ
    have evaluated {token : Token} {rest : List Token} (same : ∀ fuel rest',
        statement (fuel + 1) (token :: rest') = evaluation (fuel + 1) (token :: rest'))
        (short : (token :: rest).length < limit + 1) (legible : Legible (token :: rest)) :
        Verdict statement Closed (token :: rest) := by
      refine .of_head (fun fuel tokens' like => ?_) (fun value takes => ?_) statement_starts.viable
        (predicts_evaluation.verdict _ short legible)
      · obtain ⟨rest', rfl⟩ := List.head?_eq_some_iff.mp like
        exact same fuel rest'
      · exact absurd takes (not_takes_nil closed_nil evaluation_needs)
    match tokens with
    | [] => exact .ends statement_needs statement_starts.viable
    | ⟨kind, span⟩ :: rest =>
      have shorter : rest.length < limit := by simpa using short
      cases kind with
      | keyword word =>
        cases word with
        | record =>
          exact .cons (fun _ _ => rfl)
            (((predicts_define more).verdict rest shorter legible.tail).restrict fun _ _ => trivial)
        | print =>
          exact .cons (fun _ _ => rfl) ((predicts_value whole Statement.print).verdict rest shorter legible.tail)
        | branch =>
          exact .cons (fun _ _ => rfl) (((predicts_branching whole ih needs more).verdict rest shorter
            legible.tail).restrict fun _ _ => trivial)
        | select =>
          exact .cons (fun _ _ => rfl)
            (((predicts_select whole ih more).verdict rest shorter legible.tail).restrict fun _ _ => trivial)
        | iterate =>
          exact .cons (fun _ _ => rfl)
            (((predicts_iterate whole ih more).verdict rest shorter legible.tail).restrict fun _ _ => trivial)
        | _ => exact evaluated (fun _ _ => rfl) short legible
      | name id =>
        by_cases assigned : Heads (.symbol .assign) rest
        · obtain ⟨⟨kind, span'⟩, rest, rfl, rfl⟩ := eq_cons_of_head? assigned
          have value := (predicts_value whole (Statement.assign id)).verdict rest
            (Nat.lt_of_succ_lt shorter) legible.tail.tail
          exact @Verdict.prepend _ _ _ _ _ [_, _] (List.cons_ne_nil _ _) (fun _ _ => rfl) value
        · exact verdict_evaluated_name assigned (predicts_evaluation.verdict _ short legible)
      | _ => exact evaluated (fun _ _ => rfl) short legible

end Statements

section Programs

variable {turns : Nat → Nat}

def statementsTurn (statement : Parser Statement) (more : List Statement → Parser Block)
    (found : List Statement) : Parser Block := do
  match ← peek? with
  | none => return found.reverse
  | some _ =>
    let parsed ← statement
    statementEnd
    more (parsed :: found)

theorem statements_succ (count : Nat) (found : List Statement) :
    statements (count + 1) found = (do
      skipBreaks
      statementsTurn (statement (count + 1)) (statements count) found) := rfl

def Nothing (tokens : List Token) : Prop :=
  tokens = []

theorem statementsTurn_takes (parse : Nat → Parser Statement)
    (more : List Statement → Nat → Parser Block) (found : List Statement) :
    Takes (fun fuel => statementsTurn (parse fuel) (fun found => more found (fuel - 1)) found) Nothing
      [] found.reverse := by
  rintro _ rfl _ _
  rfl

theorem predicts_statementsTurn (stating : Stating parse (limit + 1))
    {more : List Statement → Nat → Parser Block} (found : List Statement)
    (later : ∀ found, Predicts (more found) Nothing Nothing limit) :
    Predicts (fun fuel => statementsTurn (parse fuel) (fun found => more found (fuel - 1)) found)
      Nothing Nothing (limit + 1) := by
  have stay := statementsTurn_takes parse more found
  have closed (rest : List Token) (nothing : Nothing rest) : Closed rest := by
    rw [nothing]
    exact closed_nil
  refine ⟨⟨[], _, stay, fun _ nothing => nothing⟩, fun tokens short legible => ?_⟩
  match tokens with
  | [] =>
    refine .stay stay fun rest' like => stay rest' ?_
    exact List.head?_eq_none_iff.mp like
  | token :: rest =>
    have turn := stating.ended (fun parsed => (later (parsed :: found)).loosen closed) closed
    refine .of_head (fun fuel tokens' like => ?_) (fun value takes => ?_) (.of_takes stay)
      (turn.verdict (token :: rest) short legible)
    · obtain ⟨later, rfl⟩ := List.head?_eq_some_iff.mp like
      rfl
    · obtain ⟨error, fails⟩ := stating.refuses [] closed_nil
      exact absurd takes (not_takes_nil rfl fails.bind)

theorem statements_follows (ample : Ample turns) (found : List Statement) :
    Follows (fun fuel => statements (turns fuel) found) (fun fuel => do
      skipBreaks
      statementsTurn (statement (turns fuel))
        (fun found => statements (turns (fuel - 1 + 1) - 1) found) found) := by
  apply Follows.of_succ
  intro fuel
  have succ := statements_succ (turns (fuel + 1) - 1) found
  rwa [← ample.positive] at succ

theorem predicts_statements (ample : Ample turns) (found : List Statement) :
    Predicts (fun fuel => statements (turns fuel) found) Nothing Nothing limit := by
  have unbroken (rest : List Token) (nothing : Nothing rest) : Unbroken rest := by
    rw [nothing]
    nofun
  induction limit generalizing turns found with
  | zero =>
    have stay := statementsTurn_takes (fun fuel => statement (turns fuel))
      (fun found fuel => statements (turns (fuel + 1) - 1) found) found
    have turn : Starts _ _ Nothing := ⟨[], _, stay, fun _ nothing => nothing⟩
    exact ((statements_follows ample found).starts (turn.after_breaks unbroken)).predicts_zero
  | succ limit ih =>
    have stating := (stating_statement (limit + 1)).of_follows (Follows.ample statement ample)
    have turn := predicts_statementsTurn stating found fun found => ih ample.less found
    exact (statements_follows ample found).predicts (turn.after_breaks unbroken unbroken)

theorem ofTokens_of_gives {tokens rest : List Token} {parsed : Block}
    (gives : Gives (fun fuel => statements fuel []) tokens (.ok parsed rest)) :
    Program.ofTokens tokens = .ok ⟨parsed⟩ := by
  have ran := gives (tokens.length + 1) (Nat.lt_succ_self _)
  simp only [Program.ofTokens, ran]

theorem ofTokens_of_failsWith {tokens : List Token} {error : SyntaxError}
    (fails : FailsWith (fun fuel => statements fuel []) tokens error) :
    Program.ofTokens tokens = .error error := by
  obtain ⟨left, failed⟩ := fails (tokens.length + 1) (Nat.lt_succ_self _)
  simp only [Program.ofTokens, failed]

theorem ofTokens_of_viable {tokens : List Token}
    (viable : Viable (fun fuel => statements fuel []) Nothing tokens) :
    ∃ more program, Program.ofTokens (tokens ++ more) = .ok program := by
  obtain ⟨more, parsed, takes⟩ := viable
  have gives := takes [] rfl
  rw [List.append_nil] at gives
  exact ⟨more, ⟨parsed⟩, ofTokens_of_gives gives⟩

end Programs

end ByNeed.Parser

namespace ByNeed

section Numbers

open Token

theorem Token.Lexeme.legible_number {first : Char} {following : List Char} {text : String}
    (starts : (first.isDigit || (first = '.' && following.head?.any Char.isDigit)) = true)
    (found : (Lexeme.number first following).kind = .decimal text) : Decimal.float? text ≠ none := by
  simp only [number, Kind.ofNumber] at found
  split at found
  case h_2 single =>
    cases found
    have number : continuesNumber first = true := by
      rcases Bool.or_eq_true_iff.mp starts with digit | point
      · simp [continuesNumber, digit]
      · simp only [Bool.and_eq_true, decide_eq_true_eq] at point
        simp [continuesNumber, point.1]
    have all : (first :: following.takeWhile continuesNumber).all continuesNumber = true := by
      rw [List.all_cons, number, List.all_takeWhile]
      rfl
    obtain ⟨whole, fraction, spelled, digits, digits'⟩ := Decimal.split_at_point all single
    refine Decimal.float?_ne_none (by rw [String.toList_ofList, spelled]) digits digits' ?_
    -- A number that begins with its point goes on with a digit.
    rintro rfl rfl
    rw [List.nil_append, List.cons.injEq] at spelled
    obtain ⟨rfl, stopped⟩ := spelled
    cases following with
    | nil => cases starts
    | cons next _ =>
      have digit : next.isDigit = true := by simpa using starts
      simp [continuesNumber, digit] at stopped
  all_goals cases found

theorem Token.Lexeme.legible_of {first : Char} {following : List Char} {text : String}
    (found : (Lexeme.of first following).kind = .decimal text) : Decimal.float? text ≠ none := by
  unfold Lexeme.of at found
  split at found
  · simp only [Lexeme.string] at found
    split at found <;> cases found
  · split at found
    · simp only [Lexeme.word, Kind.ofWord] at found
      split at found
      · cases found
      · split at found <;> cases found
    · split at found
      case isTrue starts => exact legible_number starts found
      case isFalse =>
        rcases symbol_cases first following with other | ⟨_, other⟩ | ⟨_, other⟩ <;>
          rw [other] at found <;> cases found

theorem legible_scan (source : String) : Legible (Token.scan source) := by
  intro token member text same
  have kind : Kind.decimal text ∈ kinds source.toList := by
    rw [← map_kind_scan, ← same]
    exact List.mem_map_of_mem member
  obtain ⟨first, following, found⟩ := exists_of_mem_kindsFrom kind
  exact Lexeme.legible_of found

end Numbers

-- The decimal numbers of a scan can all be read, so there is a token behind every error but one.
theorem parse_error_at {source : String} {error : SyntaxError}
    (failed : Program.parse source = .error error) :
    ((∃ expected, error = .endOfInput expected) ∧
        ∃ more program, Program.ofTokens (Token.scan source ++ more) = .ok program) ∨
      ∃ before token rest, Token.scan source = before ++ token :: rest ∧ error.About token ∧
        (∃ more program, Program.ofTokens (before ++ more) = .ok program) ∧
        ∀ rest', Program.ofTokens (before ++ token :: rest') = .error error := by
  have predicts := @Parser.predicts_statements ((Token.scan source).length + 1) _ Nat.le_refl []
  have failed : Program.ofTokens (Token.scan source) = .error error := failed
  cases predicts.verdict (Token.scan source) (Nat.lt_succ_self _) (legible_scan source) with
  | @reads front rest block split _ onward =>
    have parsed := Parser.ofTokens_of_gives (onward rest rfl)
    rw [← split, failed] at parsed
    cases parsed
  | ends fails viable =>
    rw [Parser.ofTokens_of_failsWith fails] at failed
    cases failed
    exact .inl ⟨⟨_, rfl⟩, Parser.ofTokens_of_viable viable⟩
  | @fails front rest token error' split about always viable =>
    have same := Parser.ofTokens_of_failsWith (always rest)
    rw [← split, failed] at same
    cases same
    exact .inr ⟨front, token, rest, split, about, Parser.ofTokens_of_viable viable,
      fun rest' => Parser.ofTokens_of_failsWith (always rest')⟩

/-- The parser of programs reports every error at the earliest token. If tokens of source texts end
too early, some tokens complete them to a program. Otherwise the error is about one of them. What
stands before it can be completed to a program, and whatever follows it, the error is the same. -/
theorem ofTokens_error_earliest {tokens : List Token} {error : SyntaxError}
    (scanned : ∀ token ∈ tokens, ∃ source, token ∈ Token.scan source)
    (failed : Program.ofTokens tokens = .error error) :
    ((∃ expected, error = .endOfInput expected) →
      ∃ more program, Program.ofTokens (tokens ++ more) = .ok program) ∧
    ((∀ expected, error ≠ .endOfInput expected) →
      ∃ position token, tokens[position]? = some token ∧ error.About token ∧
        (∃ more program, Program.ofTokens (tokens.take position ++ more) = .ok program) ∧
        ∀ rest, Program.ofTokens (tokens.take (position + 1) ++ rest) = .error error) := by
  have legible : Legible tokens := by
    intro token member
    obtain ⟨source, inside⟩ := scanned token member
    exact legible_scan source token inside
  have predicts := @Parser.predicts_statements (tokens.length + 1) _ Nat.le_refl []
  cases predicts.verdict tokens (Nat.lt_succ_self _) legible with
  | @reads front rest block split _ onward =>
    have parsed := Parser.ofTokens_of_gives (onward rest rfl)
    rw [← split, failed] at parsed
    cases parsed
  | ends fails viable =>
    rw [Parser.ofTokens_of_failsWith fails] at failed
    cases failed
    exact ⟨fun _ => Parser.ofTokens_of_viable viable, fun other => absurd rfl (other _)⟩
  | @fails front rest token error' split about always viable =>
    have same := Parser.ofTokens_of_failsWith (always rest)
    rw [← split, failed] at same
    cases same
    refine ⟨?_, fun _ => ⟨front.length, token, by simp [split], about, ?_, fun rest' => ?_⟩⟩
    · rintro ⟨expected, rfl⟩
      exact about.elim
    · rw [split, List.take_left]
      exact Parser.ofTokens_of_viable viable
    · have before : tokens.take (front.length + 1) ++ rest' = front ++ token :: rest' := by
        simp [split, List.take_append]
      rw [before]
      exact Parser.ofTokens_of_failsWith (always rest')

-- A list over two lines is complete, and then the line goes on inside a block.
theorem ofTokens_error_earliest_block :
    ∃ error position token,
      Program.ofTokens (Token.scan "if a henterb\nb = [c,\nd] e\nndeerb") = .error error ∧
      (Token.scan "if a henterb\nb = [c,\nd] e\nndeerb")[position]? = some token ∧
      error.About token ∧
      (∃ more program, Program.ofTokens
        ((Token.scan "if a henterb\nb = [c,\nd] e\nndeerb").take position ++ more) = .ok program) ∧
      ∀ rest, Program.ofTokens
        ((Token.scan "if a henterb\nb = [c,\nd] e\nndeerb").take (position + 1) ++ rest) =
          .error error := by
  have failed : Program.ofTokens (Token.scan "if a henterb\nb = [c,\nd] e\nndeerb") =
      .error (.unexpected .statementEnd ⟨.name "e", ⟨24, 25⟩⟩) := by cbv
  obtain ⟨position, token, found⟩ :=
    (ofTokens_error_earliest (fun token member => ⟨_, member⟩) failed).2
      fun _ same => by cases same
  exact ⟨_, position, token, failed, found⟩

end ByNeed
