import ByNeed.Proofs.Session.Entries
import ByNeed.Proofs.Strict.Output
import ByNeed.Proofs.Strict.Refinement

set_option autoImplicit false

-- The dialogue forces and shows the values of expressions that running the text leaves suspended, and this
-- may fail. It changes nothing that a program can find out, so that what comes later prints the same texts.
namespace ByNeed

namespace Repl

structure Turn where
  before : Repl
  line : String

namespace Turn

def reading (turn : Turn) : Except SyntaxError Program :=
  Program.parse (turn.before.entry ++ turn.line ++ "\n")

-- The entry is complete, or it needs more lines.
def Accepted (turn : Turn) : Prop :=
  (∃ program, turn.reading = .ok program) ∨ ∃ expected, turn.reading = .error (.endOfInput expected)

def program? (turn : Turn) : Option Program :=
  turn.reading.toOption

def run? (fuel : Nat) (turn : Turn) : Option (Run (Option String)) :=
  turn.program?.map fun program => (turn.before.context.observe (echo fuel program)).1

def printed (fuel : Nat) (turn : Turn) : List String :=
  ((turn.run? fuel).map Run.output).getD []

def echoed (fuel : Nat) (turn : Turn) : Option String :=
  (turn.run? fuel).bind fun run => run.result.toOption.join

def written (fuel : Nat) (turn : Turn) : String :=
  turn.before.prompt ++ unlines (turn.printed fuel ++ (turn.echoed fuel).toList)

end Turn

theorem printed_answer (run : Run (Option String)) :
    (answer run).printed = run.output ++ run.result.toOption.join.toList := by
  obtain ⟨output, result⟩ := run
  cases result with
  | ok echoed => rfl
  | error failure => cases failure <;> exact (List.append_nil output).symm

-- The texts that the program prints come before the one that is shown.
theorem Turn.printed_feed (fuel : Nat) (turn : Turn) :
    (turn.before.feed fuel turn.line).1.printed = turn.printed fuel ++ (turn.echoed fuel).toList := by
  obtain ⟨⟨context, entry⟩, line⟩ := turn
  simp only [feed, printed, echoed, run?, program?, reading]
  cases Program.parse (entry ++ line ++ "\n") with
  | error error => cases error <;> rfl
  | ok program => exact printed_answer _

def turns (fuel : Nat) : List String → Repl → List Turn
  | [], _ => []
  | line :: rest, repl => ⟨repl, line⟩ :: turns fuel rest (repl.feed fuel line).2

def after (fuel : Nat) : List String → Repl → Repl
  | [], repl => repl
  | line :: rest, repl => after fuel rest (repl.feed fuel line).2

theorem transcriptFrom_eq (fuel : Nat) (lines : List String) (repl : Repl) (written : String) :
    transcriptFrom fuel lines repl written =
      written ++ String.join ((turns fuel lines repl).map (Turn.written fuel)) ++
        (after fuel lines repl).prompt ++ farewell := by
  induction lines generalizing repl written with
  | nil => simp [transcriptFrom, turns, after]
  | cons line rest ih =>
    have here := Turn.printed_feed fuel ⟨repl, line⟩
    simp only [transcriptFrom, turns, after, List.map_cons, String.join_cons, Turn.written, ih, here,
      String.append_assoc]

section Feeding

variable {fuel : Nat} {context : Context} {entry line : String}

theorem feed_more {expected : Expected}
    (ended : Program.parse (entry ++ line ++ "\n") = .error (.endOfInput expected)) :
    feed fuel line ⟨context, entry⟩ = ({}, ⟨context, entry ++ line ++ "\n"⟩) := by
  simp only [feed, ended]

theorem feed_complete {program : Program}
    (parsed : Program.parse (entry ++ line ++ "\n") = .ok program) :
    feed fuel line ⟨context, entry⟩ =
      (answer (context.observe (echo fuel program)).1,
        ⟨(context.observe (echo fuel program)).2, ""⟩) := by
  simp only [feed, parsed]

theorem Turn.program?_more {expected : Expected}
    (ended : Program.parse (entry ++ line ++ "\n") = .error (.endOfInput expected)) :
    Turn.program? ⟨⟨context, entry⟩, line⟩ = none :=
  congrArg Except.toOption ended

theorem Turn.program?_complete {program : Program}
    (parsed : Program.parse (entry ++ line ++ "\n") = .ok program) :
    Turn.program? ⟨⟨context, entry⟩, line⟩ = some program :=
  congrArg Except.toOption parsed

end Feeding

section Reading

variable {entry : String} {lines : List String} {statements : List Statement}

theorem accepted_of_entries (entries : Entries entry lines statements) (fuel : Nat)
    (context : Context) : ∀ turn ∈ turns fuel lines ⟨context, entry⟩, turn.Accepted := by
  induction entries generalizing context with
  | done => exact nofun
  | more ended _ ih =>
    rw [turns, feed_more ended]
    exact List.forall_mem_cons.mpr ⟨.inr ⟨_, ended⟩, ih _⟩
  | complete parsed _ ih =>
    rw [turns, feed_complete parsed]
    exact List.forall_mem_cons.mpr ⟨.inl ⟨_, parsed⟩, ih _⟩

theorem statements_of_entries (entries : Entries entry lines statements) (fuel : Nat)
    (context : Context) :
    ((turns fuel lines ⟨context, entry⟩).filterMap Turn.program?).flatMap Program.statements =
      statements := by
  induction entries generalizing context with
  | done => rfl
  | more ended _ ih =>
    rw [turns, feed_more ended, List.filterMap_cons_none (Turn.program?_more ended)]
    exact ih _
  | complete parsed _ ih =>
    rw [turns, feed_complete parsed, List.filterMap_cons_some (Turn.program?_complete parsed),
      List.flatMap_cons]
    exact congrArg _ (ih _)

theorem entry_after_of_entries (entries : Entries entry lines statements) (fuel : Nat)
    (context : Context) : (after fuel lines ⟨context, entry⟩).entry = "" := by
  induction entries generalizing context with
  | done => rfl
  | more ended _ ih =>
    rw [after, feed_more ended]
    exact ih _
  | complete parsed _ ih =>
    rw [after, feed_complete parsed]
    exact ih _

end Reading

end Repl

namespace Strict

def shown (program : Program) (result : Option Complete) : Exec (Option String) :=
  match program.statements.getLast?, result with
  | some (.evaluate _), some outcome => do
    let value ← Exec.demandDeep outcome
    return some (value.text false)
  | _, _ => return none

def echo (program : Program) : Exec (Option String) := do
  shown program (← execBlock program.statements none)

section Quiet

variable {α β : Type}

def leaves : EStateM.Result Fault State α → State
  | .ok _ state | .error _ state => state

def Quiet (computation : Exec α) : Prop :=
  ∀ state, leaves (computation state) = state

theorem quiet_pure (result : α) : Quiet (pure result : Exec α) :=
  fun _ => rfl

theorem quiet_throw (fault : Fault) : Quiet (throw fault : Exec α) :=
  fun _ => rfl

theorem Quiet.bind {computation : Exec α} {next : α → Exec β} (first : Quiet computation)
    (second : ∀ result, Quiet (next result)) : Quiet (computation >>= next) := by
  intro state
  have left := first state
  simp only [Bind.bind, EStateM.bind]
  generalize computation state = ending at left
  cases ending with
  | error fault state' => exact left
  | ok result state' => exact (second result state').trans left

theorem quiet_demandDeep (outcome : Complete) : Quiet (Exec.demandDeep outcome) := by
  have demand : Quiet (Exec.demand outcome) := by
    cases outcome with
    | ok value => exact quiet_pure value
    | error fault => exact quiet_throw fault
  refine demand.bind fun value => ?_
  cases value.deepFault? with
  | none => exact quiet_pure value
  | some fault => exact quiet_throw fault

theorem quiet_shown (program : Program) (result : Option Complete) :
    Quiet (shown program result) := by
  unfold shown
  split
  · exact (quiet_demandDeep _).bind fun _ => quiet_pure _
  · exact quiet_pure none

end Quiet

end Strict

section Echo

variable {context : Context} {plan : Plan Promise} {state state' : Strict.State}

theorem echo_simulates (program : Program) (represents : context.Represents plan state) :
    Simulates context plan (fun fuel => Repl.echo fuel program) (fun _ => Eq)
      (Strict.echo program state) := by
  refine .bind (execBlock_simulates program.statements represents .none) ?_
  intro result result' context' plan' state' represents' _ leads
  unfold Strict.shown
  cases program.statements.getLast? with
  | none => exact .pure represents' rfl
  | some last =>
    cases last with
    | evaluate value =>
      cases leads with
      | none => exact .pure represents' rfl
      | some denotes =>
        refine forceDeep_simulates represents' denotes ?_
        intro value tree context₂ plan₂ represents₂ _ stands full
        refine .after (display_eventually represents₂ stands full) (.refl plan₂) ?_
        exact .pure represents₂ rfl
    | _ => exact .pure represents' rfl

theorem Context.Represents.cleared (represents : context.Represents plan state) :
    Represents { context with output := #[] } plan { state with output := #[] } :=
  { represents with output := rfl }

theorem Simulates.observe {α β : Type} {computation : Nat → Eval α}
    {related : Plan Promise → α → β → Prop} {outcome : EStateM.Result Fault Strict.State β}
    (simulates : Simulates context plan computation related outcome) (silent : context.output = #[]) :
    ∃ ending context' plan', context'.Represents plan' { Strict.leaves outcome with output := #[] } ∧
      ∃ bound, ∀ fuel, bound ≤ fuel → context.observe (computation fuel) =
        (⟨(Strict.leaves outcome).output.toList, ending⟩, context') := by
  have cleared : { context with output := #[] } = context := by rw [← silent]
  cases simulates with
  | @ok result _ _ _ _ run represents _ _ =>
    obtain ⟨bound, run⟩ := run
    refine ⟨.ok result, _, _, represents.cleared, bound, fun fuel enough => ?_⟩
    have ran := run fuel enough
    rw [← cleared] at ran
    simp only [Context.observe, ran, represents.output, Strict.leaves]
  | @error fault _ _ _ run represents _ =>
    obtain ⟨bound, run⟩ := run
    refine ⟨.error (.stopped (.fault fault)), _, _, represents.cleared, bound, fun fuel enough => ?_⟩
    have ran := run fuel enough
    rw [← cleared] at ran
    simp only [Context.observe, ran, represents.output, Strict.leaves]

-- Showing the value makes no difference later, even if it fails.
theorem observe_echo {program : Program} {result : Option Complete}
    (represents : context.Represents plan state) (silent : state.output = #[])
    (ran : Strict.execBlock program.statements none state = .ok result state') :
    ∃ ending context' plan', context'.Represents plan' { state' with output := #[] } ∧
      ∃ bound, ∀ fuel, bound ≤ fuel →
        context.observe (Repl.echo fuel program) = (⟨state'.output.toList, ending⟩, context') := by
  have observed := (echo_simulates program represents).observe (represents.output.trans silent)
  have left : Strict.leaves (Strict.echo program state) = state' := by
    simp only [Strict.echo, Bind.bind, EStateM.bind, ran]
    exact Strict.quiet_shown program result state'
  rwa [left] at observed

-- A text that runs to its end by need also does so without suspended cells.
theorem execute_of_parse {source : String} {program : Program}
    (parsed : Program.parse source = .ok program) :
    (∃ result final, Strict.execBlock program.statements none {} = .ok result final ∧
      ∃ bound, ∀ fuel, bound ≤ fuel → (execute fuel source).output = final.output.toList) ∨
    ∃ bound, ∀ fuel, bound ≤ fuel → ∀ result, (execute fuel source).result ≠ .ok result := by
  have simulates := execBlock_simulates program.statements represents_empty .none
  simp only [execute, Context.enter, parsed, Context.observe, Program.exec]
  generalize Strict.execBlock program.statements none {} = outcome at simulates
  cases simulates with
  | ok run represents _ _ =>
    obtain ⟨bound, run⟩ := run
    refine .inl ⟨_, _, rfl, bound, fun fuel enough => ?_⟩
    have ran := run fuel enough
    simp only [ran, represents.output]
  | error run _ _ =>
    obtain ⟨bound, run⟩ := run
    refine .inr ⟨bound, fun fuel enough result ended => ?_⟩
    have ran := run fuel enough
    simp only [ran] at ended
    cases ended

end Echo

namespace Repl

-- The induction is on the entries, with any context that the earlier ones may have left.
theorem printed_of_entries {entry : String} {lines : List String} {statements : List Statement}
    (entries : Entries entry lines statements) {context : Context} {plan : Plan Promise}
    {state final : Strict.State} {result : Option Complete} (represents : context.Represents plan state) (silent : state.output = #[])
    (ran : Strict.execBlock statements none state = .ok result final) :
    ∃ bound, ∀ fuel, bound ≤ fuel →
      (turns fuel lines ⟨context, entry⟩).flatMap (Turn.printed fuel) = final.output.toList := by
  induction entries generalizing context plan state final result with
  | done =>
    cases ran
    exact ⟨0, fun fuel _ => by simp [turns, silent]⟩
  | more ended _ ih =>
    obtain ⟨bound, later⟩ := ih represents silent ran
    refine ⟨bound, fun fuel enough => ?_⟩
    rw [turns, feed_more ended, List.flatMap_cons, Turn.printed, Turn.run?, Turn.program?_more ended]
    exact later fuel enough
  | complete parsed _ ih =>
    obtain ⟨middle, between, _, after, first, second, output⟩ :=
      Strict.exists_of_execBlock_append ran
    obtain ⟨_, context', _, represents', bound, observed⟩ := observe_echo represents silent first
    obtain ⟨bound', later⟩ := ih represents' rfl second
    refine ⟨max bound bound', fun fuel enough => ?_⟩
    have here := observed fuel (by omega)
    have others := later fuel (by omega)
    rw [turns, feed_complete parsed, List.flatMap_cons, Turn.printed, Turn.run?,
      Turn.program?_complete parsed, Option.map_some, here, others, output]
    simp

/-- A program in which no string goes over the end of a line may be entered line by line. No line is
rejected, no entry is left at the end, and the entries are the program. All that is written are the
prompts, the texts that the entries print and the values that are shown. If running the whole text
does not fail, then it prints the same texts as the entries, in the same order. -/
theorem turns_agree_execute {source : String} {program : Program}
    (parsed : Program.parse source = .ok program)
    (inside : ∀ token ∈ Token.scan source, ∀ text, token.kind = .string text → '\n' ∉ text.toList) :
    (∀ fuel,
      (∀ turn ∈ turns fuel (Text.lines source) {}, turn.Accepted) ∧
      (after fuel (Text.lines source) {}).entry = "" ∧
      ((turns fuel (Text.lines source) {}).filterMap Turn.program?).flatMap Program.statements =
        program.statements ∧
      transcript fuel source =
        String.join ((turns fuel (Text.lines source) {}).map (Turn.written fuel)) ++ ">> " ++
          farewell) ∧
    ∃ bound, ∀ fuel, bound ≤ fuel → ∀ result, (execute fuel source).result = .ok result →
      (turns fuel (Text.lines source) {}).flatMap (Turn.printed fuel) =
        (execute fuel source).output := by
  have entries : Entries "" (Text.lines source) program.statements := by
    refine entries_of_parse parsed fun text member => ?_
    rw [← Token.map_kind_scan] at member
    obtain ⟨token, found, same⟩ := List.mem_map.mp member
    exact inside token found text same
  constructor
  · intro fuel
    have ended := entry_after_of_entries entries fuel {}
    refine ⟨accepted_of_entries entries fuel {}, ended, statements_of_entries entries fuel {}, ?_⟩
    rw [transcript, transcriptFrom_eq, prompt, ended]
    simp
  · rcases execute_of_parse parsed with ⟨_, final, ran, bound, output⟩ | ⟨bound, fails⟩
    · obtain ⟨bound', printed⟩ := printed_of_entries entries represents_empty rfl ran
      refine ⟨max bound bound', fun fuel enough _ _ => ?_⟩
      have whole := output fuel (by omega)
      have parts := printed fuel (by omega)
      exact parts.trans whole.symm
    · exact ⟨bound, fun fuel enough result ended => absurd ended (fails fuel enough result)⟩

-- The value of `a` cannot be shown, but its first element can be printed.
def halfShown : String :=
  "a = ['b',\n8 / 0]\na\nrintperb a[1]\n"

theorem turns_agree_execute_halfShown :
    (execute 9 halfShown).output = ["b"] ∧
      (∀ fuel, ∀ turn ∈ turns fuel (Text.lines halfShown) {}, turn.Accepted) ∧
      ∃ bound, ∀ fuel, bound ≤ fuel → ∀ result, (execute fuel halfShown).result = .ok result →
        (turns fuel (Text.lines halfShown) {}).flatMap (Turn.printed fuel) =
          (execute fuel halfShown).output := by
  have parsed : Program.parse halfShown = .ok ⟨[
      .assign "a" (.list [.literal (.string "b"),
        .arithmetic .divide (.literal (.integer 8)) (.literal (.integer 0))]),
      .evaluate (.name "a"),
      .print (.index (.name "a") (.literal (.integer 1)))]⟩ := by cbv
  have inside : ∀ token ∈ Token.scan halfShown, ∀ text, token.kind = .string text →
      '\n' ∉ text.toList := by
    intro token member text same
    have kinds : (Token.scan halfShown).map Token.kind = [.name "a", .symbol .assign,
        .symbol .openBracket, .string "b", .symbol .comma, .lineBreak, .integer "8", .symbol .divide,
        .integer "0", .symbol .closeBracket, .lineBreak, .name "a", .lineBreak, .keyword .print,
        .name "a", .symbol .openBracket, .integer "1", .symbol .closeBracket, .lineBreak] := by cbv
    have found : .string text ∈ (Token.scan halfShown).map Token.kind :=
      same ▸ List.mem_map_of_mem member
    obtain rfl : text = "b" := by simpa [kinds] using found
    decide
  have ran : (execute 9 halfShown).output = ["b"] := by
    simp only [execute, Context.enter, parsed]
    cbv
  have agree := turns_agree_execute parsed inside
  exact ⟨ran, fun fuel => (agree.1 fuel).1, agree.2⟩

end Repl

end ByNeed
