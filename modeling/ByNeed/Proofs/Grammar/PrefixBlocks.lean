import ByNeed.Proofs.Grammar.PrefixExpression
import ByNeed.Proofs.Grammar.Statement

set_option autoImplicit false

-- A loop over statements can end wherever a statement has ended, since each keyword that closes the loop may
-- follow a statement.
namespace ByNeed.Parser

variable {limit : Nat} {follow : List Token → Prop}

section Endings

def Ending (closing : List Keyword) (tokens : List Token) : Prop :=
  ∃ token ∈ tokens.head?, closes closing token.kind = true

theorem Ending.heads {closing : List Keyword} {tokens : List Token} (ending : Ending closing tokens) :
    ∃ word ∈ closing, Heads (.keyword word) tokens := by
  obtain ⟨⟨kind, span⟩, found, closed⟩ := ending
  cases kind with
  | keyword word => exact ⟨word, by simpa [closes] using closed, by simp [Heads, Option.mem_def.mp found]⟩
  | _ => cases closed

theorem Heads.ending {closing : List Keyword} {word : Keyword} {tokens : List Token}
    (heads : Heads (.keyword word) tokens) (member : word ∈ closing) : Ending closing tokens := by
  obtain ⟨token, later, rfl, same⟩ := eq_cons_of_head? heads
  exact ⟨token, rfl, by simpa [closes, same] using member⟩

theorem Ending.mono {closing closing' : List Keyword} {tokens : List Token}
    (ending : Ending closing tokens) (more : closing ⊆ closing') : Ending closing' tokens := by
  obtain ⟨word, member, heads⟩ := ending.heads
  exact heads.ending (more member)

theorem Ending.unbroken {closing : List Keyword} {tokens : List Token}
    (ending : Ending closing tokens) : Unbroken tokens :=
  ne_lineBreak_of_closes ending

structure Closing (closing : List Keyword) : Prop where
  closers : ∀ word ∈ closing, closesStatement (.keyword word) = true
  finish : Keyword.finish ∈ closing

theorem Closing.closed {closing : List Keyword} (isClosing : Closing closing) {tokens : List Token}
    (ending : Ending closing tokens) : Closed tokens :=
  closed_of_last ending.heads isClosing.closers

theorem Closing.ending {closing : List Keyword} (isClosing : Closing closing) :
    Ending closing [sample (.keyword .finish)] :=
  Heads.ending rfl isClosing.finish

theorem closed_nil : Closed [] := by
  simp [Closed]

theorem predicts_statementEnd : Predicts (fun _ => statementEnd) Closed Closed limit := by
  have stays {rest : List Token} (closed : Closed rest) :
      Gives (fun _ => statementEnd) rest (.ok () rest) :=
    fun _ _ => statementEnd_eq_ok.mpr ⟨rfl, closed⟩
  have starts : Starts (fun _ => statementEnd) Closed Closed :=
    ⟨[], (), fun _ closed => stays closed, fun _ closed => closed⟩
  refine ⟨starts, fun tokens _ _ => ?_⟩
  by_cases closed : Closed tokens
  · exact .stay (fun _ closed => stays closed) fun rest' like => stays (by rwa [Closed, like])
  · cases tokens with
    | nil => exact absurd closed_nil closed
    | cons token rest =>
      have other : closesStatement token.kind ≠ true := by simpa [Closed] using closed
      exact .refuse _ (SyntaxError.mismatch_about .statementEnd token)
        (fun rest' _ _ => ⟨token :: rest', by simp [statementEnd, other]⟩) starts.viable

end Endings

structure Stating (parse : Nat → Parser Statement) (limit : Nat) : Prop where
  predicts : Predicts parse Closed (Heads (.name "x")) limit
  refuses : ∀ rest, Closed rest → ∃ error, FailsWith parse rest error

variable {parse : Nat → Parser Statement}

theorem Stating.of_follows {parse' : Nat → Parser Statement} (stating : Stating parse limit)
    (follows : Follows parse' parse) : Stating parse' limit where
  predicts := follows.predicts stating.predicts
  refuses rest closed := by
    obtain ⟨error, fails⟩ := stating.refuses rest closed
    exact ⟨error, follows.failsWith fails⟩

theorem Stating.more (stating : Stating parse limit) :
    Stating (fun fuel => parse (fuel + 1)) limit :=
  stating.of_follows (Follows.more parse)

theorem Stating.mono (stating : Stating parse limit) {limit' : Nat} (less : limit' ≤ limit) :
    Stating parse limit' where
  predicts := stating.predicts.mono less
  refuses := stating.refuses

theorem Stating.consumes (stating : Stating parse limit) (value : Statement) :
    ¬ Takes parse Closed [] value := by
  obtain ⟨error, fails⟩ := stating.refuses [] closed_nil
  exact not_takes_nil closed_nil fails

-- A statement that has to end, and what follows it with less fuel.
theorem Stating.ended {β : Type} {next : Statement → Nat → Parser β}
    (stating : Stating parse (limit + 1)) (later : ∀ parsed, Predicts (next parsed) follow Closed limit)
    (within : ∀ rest, follow rest → Closed rest) :
    Predicts (fun fuel => do
      let parsed ← parse fuel
      statementEnd
      next parsed (fuel - 1)) follow (Heads (.name "x")) (limit + 1) :=
  stating.predicts.bind_next stating.consumes
    (fun parsed => predicts_statementEnd.bind (fun _ => later parsed) within) within

section Blocks

variable {closing : List Keyword}

def blockTurn (statement : Parser Statement) (closing : List Keyword)
    (more : List Statement → Parser Block) (found : List Statement) : Parser Block := do
  match ← peek? with
  | none => throw (.endOfInput (.token (.keyword .finish)))
  | some kind =>
    if closes closing kind then return found.reverse
    let parsed ← statement
    statementEnd
    more (parsed :: found)

theorem block_succ (statement : Parser Statement) (closing : List Keyword) (count : Nat)
    (found : List Statement) :
    block statement closing (count + 1) found = (do
      skipBreaks
      blockTurn statement closing (block statement closing count) found) := rfl

variable {more : List Statement → Nat → Parser Block}

theorem blockTurn_stay {statement : Parser Statement} {more : List Statement → Parser Block}
    (found : List Statement) {rest : List Token} (ending : Ending closing rest) :
    blockTurn statement closing more found rest = .ok found.reverse rest := by
  obtain ⟨token, head, closed⟩ := ending
  obtain ⟨later, rfl⟩ := List.head?_eq_some_iff.mp head
  have peeked : peek? (token :: later) = .ok (some token.kind) (token :: later) := rfl
  simp only [blockTurn, Bind.bind, EStateM.bind, peeked, closed, if_true]
  rfl

theorem blockTurn_eq {statement : Parser Statement} {more : List Statement → Parser Block}
    (found : List Statement) {token : Token} {rest : List Token}
    (other : closes closing token.kind = false) :
    blockTurn statement closing more found (token :: rest) = (do
      let parsed ← statement
      statementEnd
      more (parsed :: found) : Parser Block) (token :: rest) := by
  have peeked : peek? (token :: rest) = .ok (some token.kind) (token :: rest) := rfl
  simp [blockTurn, Bind.bind, EStateM.bind, peeked, other]

theorem blockTurn_starts (parse : Nat → Parser Statement) (closing : List Keyword)
    (more : List Statement → Nat → Parser Block) (found : List Statement) :
    Starts (fun fuel => blockTurn (parse fuel) closing (fun found => more found (fuel - 1)) found)
      (Ending closing) (Ending closing) :=
  ⟨[], found.reverse, fun _ ending _ _ => blockTurn_stay found ending, fun _ ending => ending⟩

theorem predicts_blockTurn (isClosing : Closing closing) (stating : Stating parse (limit + 1))
    (found : List Statement) (later : ∀ found, Predicts (more found) (Ending closing) Closed limit) :
    Predicts (fun fuel => blockTurn (parse fuel) closing (fun found => more found (fuel - 1)) found)
      (Ending closing) (Ending closing) (limit + 1) := by
  have starts := blockTurn_starts parse closing more found
  refine ⟨starts, fun tokens short legible => ?_⟩
  match tokens with
  | [] => exact .ends (fun _ _ => ⟨[], rfl⟩) starts.viable
  | token :: rest =>
    cases closed : closes closing token.kind with
    | true =>
      refine .stay (fun _ ending _ _ => blockTurn_stay found ending) fun rest' like fuel _ => ?_
      exact blockTurn_stay found ⟨token, like, closed⟩
    | false =>
      have turn := stating.ended (fun parsed => later (parsed :: found)) fun _ => isClosing.closed
      refine .of_head (fun fuel tokens' like => ?_) (fun value takes => ?_)
        starts.viable (turn.verdict (token :: rest) short legible)
      · obtain ⟨later, rfl⟩ := List.head?_eq_some_iff.mp like
        exact blockTurn_eq found closed
      · -- No statement begins with the keyword that ends the block.
        obtain ⟨error, fails⟩ := stating.refuses _ (isClosing.closed isClosing.ending)
        exact absurd takes (not_takes_nil isClosing.ending fails.bind)

theorem block_follows {turns : Nat → Nat} (ample : Ample turns) (found : List Statement) :
    Follows (fun fuel => block (parse fuel) closing (turns fuel) found) (fun fuel => do
      skipBreaks
      blockTurn (parse fuel) closing
        (fun found => block (parse (fuel - 1 + 1)) closing (turns (fuel - 1 + 1) - 1) found) found) := by
  apply Follows.of_succ
  intro fuel
  rw [ample.positive]
  exact block_succ (parse (fuel + 1)) closing _ found

theorem block_starts {turns : Nat → Nat} (ample : Ample turns) (found : List Statement) :
    Starts (fun fuel => block (parse fuel) closing (turns fuel) found) (Ending closing)
      (Ending closing) := by
  have turn := blockTurn_starts parse closing
    (fun found fuel => block (parse (fuel + 1)) closing (turns (fuel + 1) - 1) found) found
  exact (block_follows ample found).starts (turn.after_breaks fun _ => Ending.unbroken)

theorem predicts_block (isClosing : Closing closing) (stating : Stating parse limit)
    {turns : Nat → Nat} (ample : Ample turns) (found : List Statement) :
    Predicts (fun fuel => block (parse fuel) closing (turns fuel) found) (Ending closing)
      (Ending closing) limit := by
  induction limit generalizing parse turns found with
  | zero => exact (block_starts ample found).predicts_zero
  | succ limit ih =>
    have later (found : List Statement) :=
      (ih (stating.more.mono (Nat.le_succ limit)) ample.less found).loosen fun _ => isClosing.closed
    have turn := predicts_blockTurn isClosing stating found later
    exact (block_follows ample found).predicts
      (turn.after_breaks (fun _ => Ending.unbroken) fun _ => Ending.unbroken)

end Blocks

section Branches

variable {condition : Nat → Parser Expr} {turns : Nat → Nat}

def branchTail (test : Expr) (consequence : Block) (nested : Parser Statement)
    (alternative : Parser Block) : Parser Statement := do
  match ← peek? with
  | some (.keyword .elseBranch) =>
    let _ ← next?
    let nested ← nested
    return .branch test consequence (some [nested])
  | some (.keyword .otherwise) =>
    let _ ← next?
    expect .lineBreak
    return .branch test consequence (some (← alternative))
  | _ => return .branch test consequence none

theorem branch_succ (statement : Parser Statement) (condition : Parser Expr) (count : Nat) :
    branch statement condition (count + 1) = (do
      let test ← condition
      expect (.keyword .consequence)
      expect .lineBreak
      let consequence ← block statement [.elseBranch, .otherwise, .finish] count []
      branchTail test consequence (branch statement condition count)
        (block statement [.finish] count [])) := rfl

theorem branchTail_stay (test : Expr) (consequence : Block) {nested : Parser Statement}
    {alternative : Parser Block} {rest : List Token} (one : ¬ Heads (.keyword .elseBranch) rest)
    (other : ¬ Heads (.keyword .otherwise) rest) :
    branchTail test consequence nested alternative rest =
      .ok (.branch test consequence none) rest := by
  have peeked : peek? rest = .ok (rest.head?.map Token.kind) rest := peek?_eq_ok.mpr ⟨rfl, rfl⟩
  simp only [branchTail, Bind.bind, EStateM.bind, peeked]
  unfold Heads at one other
  generalize rest.head?.map Token.kind = following at one other
  split
  · exact absurd rfl one
  · exact absurd rfl other
  · rfl

theorem branchTail_takes (test : Expr) (consequence : Block) (nested : Nat → Parser Statement)
    (alternative : Nat → Parser Block) :
    Takes (fun fuel => branchTail test consequence (nested fuel) (alternative fuel))
      (Heads (.keyword .finish)) [] (.branch test consequence none) := by
  intro rest heads fuel _
  refine branchTail_stay test consequence ?_ ?_ <;> rw [List.nil_append, Heads, heads] <;> decide

theorem branchTail_starts (test : Expr) (consequence : Block) (nested : Nat → Parser Statement)
    (alternative : Nat → Parser Block) :
    Starts (fun fuel => branchTail test consequence (nested fuel) (alternative fuel))
      (Heads (.keyword .finish)) (Ending [.elseBranch, .otherwise, .finish]) :=
  ⟨[], _, branchTail_takes test consequence nested alternative,
    fun _ heads => heads.ending (by decide)⟩

theorem predicts_branchTail {nested : Nat → Parser Statement} {alternative : Nat → Parser Block}
    (test : Expr) (consequence : Block)
    (further : Predicts nested (Heads (.keyword .finish)) Any limit)
    (last : Predicts alternative (Heads (.keyword .finish)) Any limit) :
    Predicts (fun fuel => branchTail test consequence (nested fuel) (alternative fuel))
      (Heads (.keyword .finish)) (Ending [.elseBranch, .otherwise, .finish]) limit := by
  have starts := branchTail_starts test consequence nested alternative
  refine ⟨starts, fun tokens short legible => ?_⟩
  by_cases elseBranch : Heads (.keyword .elseBranch) tokens
  · obtain ⟨⟨kind, span⟩, rest, rfl, rfl⟩ := eq_cons_of_head? elseBranch
    have verdict := (further.map fun nested => Statement.branch test consequence (some [nested])).verdict
      rest (Nat.lt_of_succ_lt short) legible.tail
    exact .cons (fun _ _ => rfl) ((Follows.more _).verdict verdict)
  by_cases otherwise : Heads (.keyword .otherwise) tokens
  · obtain ⟨⟨kind, span⟩, rest, rfl, rfl⟩ := eq_cons_of_head? otherwise
    have line := (predicts_expect .lineBreak).bind
      (fun _ => last.map fun body => Statement.branch test consequence (some body)) fun _ _ => trivial
    exact .cons (fun _ _ => rfl)
      ((Follows.more _).verdict (line.verdict rest (Nat.lt_of_succ_lt short) legible.tail))
  · refine .stay (branchTail_takes test consequence nested alternative) fun rest' like fuel _ => ?_
    rw [Heads, ← like] at elseBranch otherwise
    exact branchTail_stay test consequence elseBranch otherwise

theorem closing_branch : Closing [.elseBranch, .otherwise, .finish] :=
  ⟨by decide, by decide⟩

theorem closing_finish : Closing [.finish] :=
  ⟨by decide, by decide⟩

theorem branch_follows (ample : Ample turns) :
    Follows (fun fuel => branch (parse fuel) (condition fuel) (turns fuel)) (fun fuel => do
      let test ← condition fuel
      expect (.keyword .consequence)
      expect .lineBreak
      let consequence ← block (parse (fuel - 1 + 1)) [.elseBranch, .otherwise, .finish]
        (turns (fuel - 1 + 1) - 1) []
      branchTail test consequence
        (branch (parse (fuel - 1 + 1)) (condition (fuel - 1 + 1)) (turns (fuel - 1 + 1) - 1))
        (block (parse (fuel - 1 + 1)) [.finish] (turns (fuel - 1 + 1) - 1) [])) := by
  apply Follows.of_succ
  intro fuel
  rw [ample.positive]
  exact branch_succ (parse (fuel + 1)) (condition (fuel + 1)) _

theorem branch_starts (starts : Starts condition (Stops .lowest) (Heads (.name "x")))
    (consumes : ∀ value, ¬ Takes condition (Stops .lowest) [] value) (ample : Ample turns) :
    Starts (fun fuel => branch (parse fuel) (condition fuel) (turns fuel)) (Heads (.keyword .finish))
      Any := by
  have tail (test : Expr) (consequence : Block) := branchTail_starts test consequence
    (fun fuel => branch (parse (fuel + 1)) (condition (fuel + 1)) (turns (fuel + 1) - 1))
    (fun fuel => block (parse (fuel + 1)) [.finish] (turns (fuel + 1) - 1) [])
  have lines (test : Expr) := Starts.bind (@block_starts (fun fuel => parse (fuel + 1))
    [.elseBranch, .otherwise, .finish] _ ample.less []) (tail test)
  have line (test : Expr) := (@predicts_expect 0 .lineBreak).starts.bind fun _ =>
    (lines test).loosen fun _ _ => trivial
  have header (test : Expr) := (@predicts_expect 0 (.keyword .consequence)).starts.bind fun _ =>
    (line test).loosen fun _ _ => trivial
  have whole := starts.bind_next consumes fun test =>
    (header test).loosen fun _ heads => heads.stops (by decide)
  exact (branch_follows ample).starts (whole.loosen fun _ _ => trivial)

theorem predicts_branch (stating : Stating parse limit) {error : SyntaxError}
    (predicts : Predicts condition (Stops .lowest) (Heads (.name "x")) limit)
    (needs : FailsWith condition [] error) (ample : Ample turns) :
    Predicts (fun fuel => branch (parse fuel) (condition fuel) (turns fuel)) (Heads (.keyword .finish))
      Any limit := by
  have consumes (value : Expr) : ¬ Takes condition (Stops .lowest) [] value :=
    not_takes_nil (stops_nil .lowest) needs
  induction limit generalizing parse condition turns with
  | zero => exact (branch_starts predicts.starts consumes ample).predicts_zero
  | succ limit ih =>
    have stating' := stating.more.mono (Nat.le_succ limit)
    have needs' := (Follows.more condition).failsWith needs
    have further := ih stating' ((Follows.more condition).predicts (predicts.mono (Nat.le_succ limit)))
      needs' ample.less fun value => not_takes_nil (stops_nil .lowest) needs'
    have last := ((predicts_block closing_finish stating' ample.less []).restrict
      fun rest (heads : Heads (.keyword .finish) rest) => heads.ending (by decide)).loosen
        fun _ _ => trivial
    have lines (test : Expr) := (predicts_block closing_branch stating' ample.less []).bind
      (fun consequence => predicts_branchTail test consequence further last)
      fun _ heads => heads.ending (by decide)
    have line (test : Expr) := (predicts_expect .lineBreak).bind
      (fun _ => (lines test).loosen fun _ _ => trivial) fun _ _ => trivial
    have header (test : Expr) := (predicts_expect (.keyword .consequence)).bind
      (fun _ => (line test).loosen fun _ _ => trivial) fun _ _ => trivial
    have whole := predicts.bind_next consumes
      (fun test => (header test).loosen fun _ heads => heads.stops (by decide))
      fun _ heads => heads.stops (by decide)
    exact (branch_follows ample).predicts (whole.loosen fun _ _ => trivial)

end Branches

end ByNeed.Parser
