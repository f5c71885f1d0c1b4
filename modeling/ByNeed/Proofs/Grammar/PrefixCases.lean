import ByNeed.Proofs.Grammar.PrefixBlocks

set_option autoImplicit false

-- There is at least one case. After the first one, the cases can end wherever the body of a case has ended.
namespace ByNeed.Parser

variable {limit : Nat} {parse : Nat → Parser Statement}

section Patterns

theorem negativeNumber_takes_integer {digits : String} {value : Int64} (span : Span)
    (read : Decimal.negativeInteger? digits = some value) :
    Takes (fun _ => negativeNumber) Any [⟨.integer digits, span⟩] (.literal (.integer value)) := by
  intro rest _ _ _
  simp only [negativeNumber, List.singleton_append, next?_bind_cons, read]
  rfl

theorem predicts_negativeNumber : Predicts (fun _ => negativeNumber) Any Any limit := by
  have starts : Starts (fun _ => negativeNumber) Any Any :=
    ⟨[sample (.integer "1")], .literal (.integer (-1)), negativeNumber_takes_integer _ rfl,
      fun _ _ => trivial⟩
  refine ⟨starts, fun tokens _ legible => ?_⟩
  match tokens with
  | [] => exact .ends (fun _ _ => ⟨[], rfl⟩) starts.viable
  | ⟨.integer digits, span⟩ :: rest =>
    cases read : Decimal.negativeInteger? digits with
    | some value => exact .single _ (negativeNumber_takes_integer span read)
    | none =>
      refine .refuse (.integerOutOfRange true) ⟨digits, rfl, read⟩ ?_ starts.viable
      intro rest' _ _
      refine ⟨rest', ?_⟩
      simp only [negativeNumber, next?_bind_cons, read]
      rfl
  | ⟨.decimal text, span⟩ :: rest =>
    obtain ⟨value, read⟩ :=
      Option.ne_none_iff_exists'.mp (legible _ List.mem_cons_self text rfl)
    refine .single (.literal (.float (-value))) fun rest' _ _ _ => ?_
    simp only [negativeNumber, List.singleton_append, next?_bind_cons, literalFloat, read]
    rfl
  | ⟨.illegal _, _⟩ :: _ | ⟨.name _, _⟩ :: _ | ⟨.string _, _⟩ :: _ | ⟨.boolean _, _⟩ :: _
  | ⟨.keyword _, _⟩ :: _ | ⟨.symbol _, _⟩ :: _ | ⟨.lineBreak, _⟩ :: _ =>
    exact .refuse (.notAPattern _) rfl (fun rest' _ _ => ⟨rest', rfl⟩) starts.viable

theorem predicts_pattern : Predicts (fun _ => pattern) Any Any limit := by
  have starts : Starts (fun _ => pattern) Any Any :=
    ⟨[sample (.name "x")], .binding "x", fun _ _ _ _ => rfl, fun _ _ => trivial⟩
  refine ⟨starts, fun tokens short legible => ?_⟩
  match tokens with
  | [] => exact .ends (fun _ _ => ⟨[], rfl⟩) starts.viable
  | ⟨.name id, span⟩ :: rest =>
    by_cases wildcard : id = "_"
    · refine .single (.wildcard) fun rest' _ _ _ => ?_
      simp only [pattern, List.singleton_append, next?_bind_cons, wildcard, if_true]
      rfl
    · refine .single (.binding id) fun rest' _ _ _ => ?_
      simp only [pattern, List.singleton_append, next?_bind_cons, wildcard, if_false]
      rfl
  | ⟨.integer digits, span⟩ :: rest =>
    cases read : Decimal.integer? digits with
    | some value =>
      refine .single (.literal (.integer value)) fun rest' _ _ _ => ?_
      simp only [pattern, List.singleton_append, next?_bind_cons, literalInteger, read]
      rfl
    | none =>
      refine .refuse (.integerOutOfRange false) ⟨digits, rfl, by simpa using read⟩ ?_
        starts.viable
      intro rest' _ _
      refine ⟨rest', ?_⟩
      simp only [pattern, next?_bind_cons, literalInteger, read]
      rfl
  | ⟨.decimal text, span⟩ :: rest =>
    obtain ⟨value, read⟩ :=
      Option.ne_none_iff_exists'.mp (legible _ List.mem_cons_self text rfl)
    refine .single (.literal (.float value)) fun rest' _ _ _ => ?_
    simp only [pattern, List.singleton_append, next?_bind_cons, literalFloat, read]
    rfl
  | ⟨.string text, _⟩ :: _ => exact .single (.literal (.string text)) fun _ _ _ _ => rfl
  | ⟨.boolean value, _⟩ :: _ => exact .single (.literal (.boolean value)) fun _ _ _ _ => rfl
  | ⟨.symbol mark, span⟩ :: rest =>
    cases mark with
    | minus =>
      exact .cons (fun _ _ => rfl)
        (predicts_negativeNumber.verdict rest (Nat.lt_of_succ_lt short) legible.tail)
    | _ => exact .refuse (.notAPattern _) rfl (fun rest' _ _ => ⟨rest', rfl⟩) starts.viable
  | ⟨.illegal error, span⟩ :: _ =>
    exact .refuse (.lexical error span) rfl (fun rest' _ _ => ⟨rest', rfl⟩) starts.viable
  | ⟨.keyword _, _⟩ :: _ | ⟨.lineBreak, _⟩ :: _ =>
    exact .refuse (.notAPattern _) rfl (fun rest' _ _ => ⟨rest', rfl⟩) starts.viable

end Patterns

section Cases

variable {turns : Nat → Nat}

theorem closing_case : Closing [.option, .otherwise, .finish] :=
  ⟨by decide, by decide⟩

theorem caseBody_lineBreak {statement : Parser Statement} {count : Nat} {token : Token}
    {rest : List Token} (same : token.kind = .lineBreak) :
    caseBody statement (count + 1) (token :: rest) =
      block statement [.option, .otherwise, .finish] (count + 1) [] rest := by
  have peeked : peek? (token :: rest) = .ok (some .lineBreak) (token :: rest) := by
    rw [← same]
    rfl
  have skipped : skipBreaks (token :: rest) = skipBreaks rest := by simp [skipBreaks, same]
  simp only [caseBody, block_succ, Bind.bind, EStateM.bind, peeked, skipped]

theorem caseBody_eq {statement : Parser Statement} {count : Nat} {tokens : List Token}
    (other : Unbroken tokens) :
    caseBody statement count tokens = (do
      let parsed ← statement
      statementEnd
      return [parsed] : Parser Block) tokens := by
  have peeked : peek? tokens = .ok (tokens.head?.map Token.kind) tokens := peek?_eq_ok.mpr ⟨rfl, rfl⟩
  simp only [caseBody, Bind.bind, EStateM.bind, peeked]
  unfold Unbroken at other
  generalize tokens.head?.map Token.kind = following at other
  split
  · exact absurd rfl other
  · rfl

theorem predicts_caseBody (stating : Stating parse limit) (ample : Ample turns) :
    Predicts (fun fuel => caseBody (parse fuel) (turns fuel)) (Ending [.option, .otherwise, .finish])
      Any limit := by
  have lines := predicts_block closing_case stating.more ample.more []
  have broken {token : Token} (same : token.kind = .lineBreak) (fuel : Nat) (rest : List Token) :
      caseBody (parse (fuel + 1)) (turns (fuel + 1)) (token :: rest) =
        block (parse (fuel + 1)) [.option, .otherwise, .finish] (turns (fuel + 1)) [] rest := by
    rw [ample.positive]
    exact caseBody_lineBreak same
  have starts : Starts (fun fuel => caseBody (parse fuel) (turns fuel))
      (Ending [.option, .otherwise, .finish]) Any := by
    obtain ⟨tokens, value, takes, _⟩ := lines.starts
    exact ⟨sample .lineBreak :: tokens, value, takes.cons (broken rfl), fun _ _ => trivial⟩
  have single := stating.predicts.bind (fun parsed => predicts_statementEnd.bind
    (fun _ => predicts_pure [parsed] fun _ => closing_case.closed) fun _ => closing_case.closed)
    fun _ => closing_case.closed
  refine ⟨starts, fun tokens short legible => ?_⟩
  by_cases isBroken : Unbroken tokens
  · refine .of_head (fun fuel tokens' like => ?_) (fun value takes => ?_) starts.viable
      (single.verdict tokens short legible)
    · rw [Unbroken, ← like] at isBroken
      exact caseBody_eq isBroken
    · obtain ⟨error, fails⟩ := stating.refuses _ (closing_case.closed closing_case.ending)
      exact absurd takes (not_takes_nil closing_case.ending fails.bind)
  · obtain ⟨token, rest, rfl, same⟩ := eq_cons_of_head? (not_not.mp isBroken)
    exact .cons (broken same) (lines.verdict rest (Nat.lt_of_succ_lt short) legible.tail)

def oneCase (body : Parser Block) (more : Pattern × Block → Parser (List (Pattern × Block))) :
    Parser (List (Pattern × Block)) := do
  expect (.keyword .option)
  let shape ← pattern
  expect (.keyword .consequence)
  let body ← body
  more (shape, body)

def casesTurn (body : Parser Block) (more : List (Pattern × Block) → Parser (List (Pattern × Block)))
    (found : List (Pattern × Block)) : Parser (List (Pattern × Block)) := do
  let next ← peek?
  if found.isEmpty || next = some (.keyword .option) then
    oneCase body fun case => more (case :: found)
  else return found.reverse

theorem cases_succ (statement : Parser Statement) (count : Nat) (found : List (Pattern × Block)) :
    cases statement (count + 1) found = (do
      skipBreaks
      casesTurn (caseBody statement count) (cases statement count) found) := rfl

variable {body : Nat → Parser Block}

theorem predicts_oneCase {more : Pattern × Block → Nat → Parser (List (Pattern × Block))}
    (inside : Predicts body (Ending [.option, .otherwise, .finish]) Any limit)
    (later : ∀ case, Predicts (more case) (Ending [.otherwise, .finish])
      (Ending [.option, .otherwise, .finish]) limit) :
    Predicts (fun fuel => oneCase (body (fuel - 1)) (fun case => more case (fuel - 1)))
      (Ending [.otherwise, .finish]) (Heads (.keyword .option)) (limit + 1) := by
  have bodies (shape : Pattern) := inside.bind (fun body => later (shape, body))
    fun _ ending => ending.mono (by decide)
  have header (shape : Pattern) := (predicts_expect (.keyword .consequence)).bind
    (fun _ => bodies shape) fun _ _ => trivial
  have shaped := predicts_pattern.bind
    (fun shape => (header shape).loosen fun _ _ => trivial) fun _ _ => trivial
  exact (predicts_expect (.keyword .option)).bind_next
    (fun _ => not_takes_nil trivial (expect_needs _)) (fun _ => shaped) fun _ _ => trivial

variable {more : List (Pattern × Block) → Nat → Parser (List (Pattern × Block))}

theorem casesTurn_stay {body : Parser Block}
    {more : List (Pattern × Block) → Parser (List (Pattern × Block))}
    {found : List (Pattern × Block)} (nonempty : found ≠ []) {rest : List Token}
    (other : ¬ Heads (.keyword .option) rest) :
    casesTurn body more found rest = .ok found.reverse rest := by
  have peeked : peek? rest = .ok (rest.head?.map Token.kind) rest := peek?_eq_ok.mpr ⟨rfl, rfl⟩
  unfold Heads at other
  simp only [casesTurn, Bind.bind, EStateM.bind, peeked, List.isEmpty_eq_false_iff.mpr nonempty, other,
    decide_false, Bool.or_self, Bool.false_eq_true, if_false]
  rfl

theorem casesTurn_eq {body : Parser Block}
    {more : List (Pattern × Block) → Parser (List (Pattern × Block))}
    {found : List (Pattern × Block)} {tokens : List Token}
    (further : found = [] ∨ Heads (.keyword .option) tokens) :
    casesTurn body more found tokens = oneCase body (fun case => more (case :: found)) tokens := by
  have peeked : peek? tokens = .ok (tokens.head?.map Token.kind) tokens := peek?_eq_ok.mpr ⟨rfl, rfl⟩
  unfold Heads at further
  have holds : (found.isEmpty || decide (tokens.head?.map Token.kind = some (.keyword .option))) = true := by
    simpa using further
  simp only [casesTurn, Bind.bind, EStateM.bind, peeked, holds, if_true]

theorem casesTurn_first (body : Nat → Parser Block)
    (more : List (Pattern × Block) → Nat → Parser (List (Pattern × Block))) :
    Follows (fun fuel => casesTurn (body (fuel - 1)) (fun found => more found (fuel - 1)) [])
      (fun fuel => oneCase (body (fuel - 1)) (fun case => more [case] (fuel - 1))) :=
  fun fuel _ enough => ⟨fuel, enough, casesTurn_eq (.inl rfl)⟩

theorem casesTurn_takes (body : Nat → Parser Block)
    (more : List (Pattern × Block) → Nat → Parser (List (Pattern × Block)))
    {found : List (Pattern × Block)} (nonempty : found ≠ []) :
    Takes (fun fuel => casesTurn (body (fuel - 1)) (fun found => more found (fuel - 1)) found)
      (Ending [.otherwise, .finish]) [] found.reverse := by
  intro rest ending fuel _
  obtain ⟨word, member, heads⟩ := ending.heads
  refine casesTurn_stay nonempty ?_
  rw [List.nil_append, Heads, heads]
  rintro ⟨⟩
  revert member
  decide

theorem predicts_casesTurn {found : List (Pattern × Block)} (nonempty : found ≠ [])
    (inside : Predicts body (Ending [.option, .otherwise, .finish]) Any limit)
    (later : ∀ found, found ≠ [] → Predicts (more found) (Ending [.otherwise, .finish])
      (Ending [.option, .otherwise, .finish]) limit) :
    Predicts (fun fuel => casesTurn (body (fuel - 1)) (fun found => more found (fuel - 1)) found)
      (Ending [.otherwise, .finish]) (Ending [.option, .otherwise, .finish]) (limit + 1) := by
  have stay := casesTurn_takes body more nonempty
  have case := predicts_oneCase inside fun case => later (case :: found) (List.cons_ne_nil _ _)
  refine ⟨⟨[], _, stay, fun _ ending => ending.mono (by decide)⟩, fun tokens short legible => ?_⟩
  by_cases further : Heads (.keyword .option) tokens
  · refine .of_head (fun fuel tokens' like => ?_) (fun value takes => ?_) (.of_takes stay)
      (case.verdict tokens short legible)
    · rw [Heads, ← like] at further
      exact casesTurn_eq (.inr further)
    · have ending : Ending [.otherwise, .finish] [sample (.keyword .finish)] :=
        Heads.ending rfl (by decide)
      exact absurd takes (not_takes_nil ending fun _ _ => ⟨[], rfl⟩)
  · refine .stay stay fun rest' like fuel _ => ?_
    rw [Heads, ← like] at further
    exact casesTurn_stay nonempty further

theorem cases_follows (ample : Ample turns) (found : List (Pattern × Block)) :
    Follows (fun fuel => cases (parse fuel) (turns fuel) found) (fun fuel => do
      skipBreaks
      casesTurn (caseBody (parse (fuel - 1 + 1)) (turns (fuel - 1 + 1) - 1))
        (fun found => cases (parse (fuel - 1 + 1)) (turns (fuel - 1 + 1) - 1) found) found) := by
  apply Follows.of_succ
  intro fuel
  rw [ample.positive]
  exact cases_succ (parse (fuel + 1)) _ found

theorem predicts_furtherCases (stating : Stating parse limit) (ample : Ample turns)
    {found : List (Pattern × Block)} (nonempty : found ≠ []) :
    Predicts (fun fuel => cases (parse fuel) (turns fuel) found) (Ending [.otherwise, .finish])
      (Ending [.option, .otherwise, .finish]) limit := by
  induction limit generalizing parse turns found with
  | zero =>
    have stay := casesTurn_takes (fun fuel => caseBody (parse (fuel + 1)) (turns (fuel + 1) - 1))
      (fun found fuel => cases (parse (fuel + 1)) (turns (fuel + 1) - 1) found) nonempty
    have turn : Starts _ _ (Ending [.option, .otherwise, .finish]) :=
      ⟨[], _, stay, fun _ ending => ending.mono (by decide)⟩
    exact ((cases_follows ample found).starts
      (turn.after_breaks fun _ => Ending.unbroken)).predicts_zero
  | succ limit ih =>
    have stating' := stating.more.mono (Nat.le_succ limit)
    have turn := predicts_casesTurn nonempty (predicts_caseBody stating' ample.less)
      fun found nonempty => ih stating' ample.less nonempty
    exact (cases_follows ample found).predicts
      (turn.after_breaks (fun _ => Ending.unbroken) fun _ => Ending.unbroken)

theorem predicts_cases (stating : Stating parse limit) (ample : Ample turns) :
    Predicts (fun fuel => cases (parse fuel) (turns fuel) []) (Ending [.otherwise, .finish]) Any
      limit := by
  have case := predicts_oneCase (predicts_caseBody stating.more ample.less)
    fun case => predicts_furtherCases stating.more ample.less (List.cons_ne_nil case [])
  have first := casesTurn_first (fun fuel => caseBody (parse (fuel + 1)) (turns (fuel + 1) - 1))
    (fun found fuel => cases (parse (fuel + 1)) (turns (fuel + 1) - 1) found)
  have turn := (first.predicts case).after_breaks (fun _ heads => heads.unbroken nofun)
    fun _ => Ending.unbroken
  exact (((cases_follows ample []).predicts turn).loosen fun _ _ => trivial).mono (Nat.le_succ limit)

end Cases

section Fields

variable {turns : Nat → Nat}

def fieldsTurn (more : List String → Parser (List String)) (found : List String) :
    Parser (List String) := do
  let token ← next?
  match token.map Token.kind with
  | some (.keyword .field) =>
    let id ← identifier
    statementEnd
    more (id :: found)
  | some (.keyword .finish) => return found.reverse
  | _ => throw (.mismatch (.token (.keyword .finish)) token)

theorem fields_succ (count : Nat) (found : List String) :
    fields (count + 1) found = (do
      skipBreaks
      fieldsTurn (fields count) found) := rfl

theorem fieldsTurn_needs (more : Nat → List String → Parser (List String)) (found : List String) :
    FailsWith (fun fuel => fieldsTurn (more fuel) found) []
      (.endOfInput (.token (.keyword .finish))) :=
  fun _ _ => ⟨[], rfl⟩

theorem fieldsTurn_finish (more : List String → Nat → Parser (List String)) (found : List String)
    {token : Token} (same : token.kind = .keyword .finish) :
    Takes (fun fuel => fieldsTurn (fun found => more found (fuel - 1)) found) Any [token]
      found.reverse := by
  intro rest _ fuel _
  simp only [fieldsTurn, List.singleton_append, next?_bind_cons, Option.map_some, same]
  rfl

theorem fieldsTurn_starts (more : List String → Nat → Parser (List String)) (found : List String) :
    Starts (fun fuel => fieldsTurn (fun found => more found (fuel - 1)) found) Any
      (Heads (.keyword .finish)) :=
  ⟨[sample (.keyword .finish)], _, fieldsTurn_finish more found rfl, fun _ _ => rfl⟩

theorem predicts_fieldsTurn {more : List String → Nat → Parser (List String)} (found : List String)
    (later : ∀ found, Predicts (more found) Any (Heads (.keyword .finish)) limit)
    (needs : ∀ found, ∃ error, FailsWith (more found) [] error) :
    Predicts (fun fuel => fieldsTurn (fun found => more found (fuel - 1)) found) Any
      (Heads (.keyword .finish)) (limit + 1) := by
  have starts := fieldsTurn_starts more found
  refine ⟨starts, fun tokens short legible => ?_⟩
  match tokens with
  | [] => exact .ends (fieldsTurn_needs _ found) starts.viable
  | token :: rest =>
    by_cases isField : token.kind = .keyword .field
    · have closed (rest : List Token) (heads : Heads (.keyword .finish) rest) : Closed rest :=
        closing_finish.closed (heads.ending (by decide))
      have ended (id : String) := predicts_statementEnd.bind_needy
        (fun _ => (later (id :: found)).loosen closed) trivial fun _ => needs (id :: found)
      have field := predicts_identifier.bind (fun id => (ended id).loosen fun _ _ => trivial)
        fun _ _ => trivial
      refine .cons (fun fuel rest => ?_) (field.verdict rest (by simpa using short) legible.tail)
      simp only [fieldsTurn, next?_bind_cons, Option.map_some, isField]
      rfl
    by_cases isFinish : token.kind = .keyword .finish
    · exact .single _ (fieldsTurn_finish more found isFinish)
    · refine .refuse _ (SyntaxError.mismatch_about (.token (.keyword .finish)) token) ?_ starts.viable
      intro rest' fuel _
      refine ⟨rest', ?_⟩
      simp only [fieldsTurn, next?_bind_cons]
      generalize same : Option.map Token.kind (some token) = following
      split
      · exact absurd (Option.some.inj same) isField
      · exact absurd (Option.some.inj same) isFinish
      · rfl

theorem fields_follows (ample : Ample turns) (found : List String) :
    Follows (fun fuel => fields (turns fuel) found) (fun fuel => do
      skipBreaks
      fieldsTurn (fun found => fields (turns (fuel - 1 + 1) - 1) found) found) := by
  apply Follows.of_succ
  intro fuel
  rw [ample.positive]
  exact fields_succ _ found

theorem fields_needs (ample : Ample turns) (found : List String) :
    FailsWith (fun fuel => fields (turns fuel) found) [] (.endOfInput (.token (.keyword .finish))) :=
  (fields_follows ample found).failsWith (fieldsTurn_needs _ found).after_breaks

theorem predicts_fields (ample : Ample turns) (found : List String) :
    Predicts (fun fuel => fields (turns fuel) found) Any (Heads (.keyword .finish)) limit := by
  have unbroken (rest : List Token) (heads : Heads (.keyword .finish) rest) : Unbroken rest :=
    heads.unbroken nofun
  induction limit generalizing turns found with
  | zero =>
    have turn := fieldsTurn_starts (fun found fuel => fields (turns (fuel + 1) - 1) found) found
    exact ((fields_follows ample found).starts (turn.after_breaks unbroken)).predicts_zero
  | succ limit ih =>
    have turn := predicts_fieldsTurn found (fun found => ih ample.less found)
      fun found => ⟨_, fields_needs ample.less found⟩
    exact (fields_follows ample found).predicts
      (turn.after_breaks_needy unbroken trivial (fieldsTurn_needs _ found))

end Fields

end ByNeed.Parser
