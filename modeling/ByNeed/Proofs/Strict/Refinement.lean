import ByNeed.Proofs.Strict.Simulation

set_option autoImplicit false

-- The simulation goes through the syntax of expressions and of statements, with one case for each form.
namespace ByNeed

section Expressions

variable {context : Context} {plan : Plan Promise} {state : Strict.State}

theorem suspend_one_simulates {task : Task} {ref : Ref} {outcome : Complete}
    {apply : Tree → Complete} (represents : context.Represents plan state)
    (input : plan.Denotes ref outcome) (known : ∀ other ∈ task.refs, plan.Has other)
    (same : ∀ value, task.complete plan.meaning [value] = apply value) :
    Simulates context plan (fun _ => Eval.alloc (.pending [ref] task)) Plan.Denotes
      ((pure (outcome >>= apply) : Strict.Exec Complete) state) := by
  refine alloc_simulates represents (by simp) (List.forall_mem_cons.mpr ⟨input.has, known⟩) ?_
  simp [Reading.outcome, Task.reading, input.meaning, same]

theorem suspend_two_simulates {task : Task} {left right : Ref} {leftOutcome rightOutcome : Complete}
    {apply : Tree → Tree → Complete} (represents : context.Represents plan state)
    (first : plan.Denotes left leftOutcome) (second : plan.Denotes right rightOutcome) (none : task.refs = [])
    (same : ∀ value other, task.complete plan.meaning [value, other] = apply value other) :
    Simulates context plan (fun _ => Eval.alloc (.pending [left, right] task)) Plan.Denotes
      ((pure (do apply (← leftOutcome) (← rightOutcome)) : Strict.Exec Complete) state) := by
  refine alloc_simulates represents (by simp) ?_ ?_
  · simpa [Reading.links, Task.reading, none] using ⟨first.has, second.has⟩
  · simp [Reading.outcome, Task.reading, first.meaning, second.meaning, same]

theorem fail_simulates (fault : Fault) (represents : context.Represents plan state) :
    Simulates context plan (fun _ => Eval.alloc (.pending [] (.fail fault))) Plan.Denotes
      ((pure (.error fault) : Strict.Exec Complete) state) :=
  alloc_simulates represents (by simp) (by simp [Reading.links, Task.reading, Task.refs]) rfl

theorem Context.Represents.lookup (represents : context.Represents plan state) (id : String) :
    (context.environment.get? id = none ∧ state.bindings id = none) ∨
      ∃ ref outcome, context.environment.get? id = some ref ∧ state.bindings id = some outcome ∧
        plan.Denotes ref outcome := by
  have bound := represents.bindings id
  generalize context.environment.get? id = found at bound
  generalize state.bindings id = outcome at bound
  cases bound with
  | none => exact .inl ⟨rfl, rfl⟩
  | some denotes => exact .inr ⟨_, _, rfl, rfl, denotes⟩

theorem lookup_eventually (id : String) :
    Eventually (fun _ => Eval.lookup? id) context (.ok (context.environment.get? id) context) :=
  eventually_of_forall fun _ => rfl

theorem name_simulates (id : String) (represents : context.Represents plan state) :
    Simulates context plan (fun fuel => (Expr.name id).delay fuel) Plan.Denotes
      (Strict.outcome (.name id) state) := by
  have complete : Strict.outcome (.name id) state =
      .ok ((state.bindings id).getD (.error (.undefinedVariable id))) state := by
    simp only [Strict.outcome]
    rfl
  simp only [Expr.delay, complete]
  refine .after (lookup_eventually id) (.refl plan) ?_
  rcases represents.lookup id with ⟨unbound, none⟩ | ⟨ref, outcome, bound, some, denotes⟩
  · rw [unbound, none]
    exact fail_simulates _ represents
  · rw [bound, some]
    exact .pure represents denotes

-- Rebinding a bound name, with the value in two new cells.
theorem reassign_simulates {id : String} {ref : Ref} {value : Value} {tree : Tree}
    (represents : context.Represents plan state) (bound : context.environment.get? id = some ref)
    (stands : plan.Stands value tree) :
    Simulates context plan
      (fun _ => do
        Eval.reassign id value
        Eval.alloc (.forced value)) Plan.Denotes
      ((do
        Strict.Exec.assign id (.ok tree)
        return .ok tree : Strict.Exec Complete) state) := by
  have contains : context.environment.contains id = true := by
    simp only [Environment.get?] at bound
    simp [Environment.contains, Std.TreeMap.contains_eq_isSome_getElem?, bound]
  have run : Eventually (fun _ => Eval.reassign id value) context
      (.ok () { context with
        heap := context.heap.push (.forced value)
        environment := context.environment.set id context.heap.cells.size }) :=
    eventually_of_forall fun _ => by
      simp [Eval.reassign, Bind.bind, EStateM.bind, get, getThe, MonadStateOf.get, EStateM.get,
        contains, Eval.alloc, Eval.onHeap, HeapM.alloc, Eval.assign, modify, modifyGet,
        MonadStateOf.modifyGet, EStateM.modifyGet]
  obtain ⟨plan', grows, denotes⟩ := stands.alloc represents
  have represents' := (represents.onHeap grows).assign id denotes
  have stands' := stands.extend grows.extends'
  exact .after run grows.extends' (alloc_simulates represents' (by simp) stands'.1 (congrArg Except.ok stands'.2))

theorem step_of_unbound {op : UnaryOp} {id : String} (unbound : state.bindings id = none) :
    Strict.Exec.step op (.name id) state = .error (.undefinedVariable id) state := by
  simp only [Strict.Exec.step, Bind.bind, EStateM.bind, get, getThe, MonadStateOf.get, EStateM.get,
    unbound]
  rfl

theorem step_of_bound {op : UnaryOp} {id : String} {current : Complete}
    (bound : state.bindings id = some current) :
    Strict.Exec.step op (.name id) state =
      (do
        let updated ← Strict.Exec.demand (Tree.unary op (← Strict.Exec.demand current))
        Strict.Exec.assign id (.ok updated)
        return .ok updated : Strict.Exec Complete) state := by
  simp only [Strict.Exec.step, Bind.bind, EStateM.bind, get, getThe, MonadStateOf.get, EStateM.get,
    bound]

theorem step_simulates (op : UnaryOp) (operand : Expr) (represents : context.Represents plan state) :
    Simulates context plan (fun fuel => Eval.step fuel op operand) Plan.Denotes
      (Strict.Exec.step op operand state) := by
  cases operand with
  | name id =>
    simp only [Eval.step]
    refine .after (lookup_eventually id) (.refl plan) ?_
    rcases represents.lookup id with ⟨unbound, none⟩ | ⟨ref, outcome, bound, some, denotes⟩
    · rw [unbound, step_of_unbound none]
      exact .raise _ represents
    · rw [bound, step_of_bound some]
      have forced := force_simulates represents denotes
      cases outcome with
      | error fault =>
        cases forced with
        | error run represents' extends' => exact .error run.bind_error represents' extends'
      | ok tree =>
        cases forced with
        | @ok value _ context' plan' _ run represents' extends' stands =>
          refine .after run extends' ?_
          have unary : Tree.unary op tree = (op.apply value).map .ofSurface := by
            rw [Tree.unary, ← stands.2, op.apply_surface]
          have read : (Strict.Exec.demand (.ok tree) : Strict.Exec Tree) = pure tree := rfl
          rw [read, pure_bind, unary]
          cases applied : op.apply value with
          | error fault => exact .raise fault represents'
          | ok updated =>
            have single := op.apply_single value updated applied
            have stands' : plan'.Stands updated (.ofSurface updated) :=
              ⟨by simp [Reading.Knows, updated.refs_of_isSingle single], updated.tree_of_isSingle _ single⟩
            rcases represents'.lookup id with ⟨_, unbound⟩ | ⟨ref', _, bound', _, _⟩
            · rw [some] at unbound
              cases unbound
            · exact reassign_simulates represents' bound' stands'
  | _ => exact .raise _ represents

mutual

theorem delay_simulates : ∀ (expr : Expr) {context : Context} {plan : Plan Promise} {state : Strict.State},
    context.Represents plan state →
    Simulates context plan (fun fuel => expr.delay fuel) Plan.Denotes (Strict.outcome expr state)
  | .literal value, context, plan, state, represents => by
    simp only [Expr.delay, Strict.outcome]
    have closed : (Value.ofLiteral value).refs = [] := by cases value <;> rfl
    exact alloc_simulates represents (by simp) (by simp [Reading.links, closed])
      (congrArg Except.ok (Value.tree_ofLiteral _ value))
  | .name id, context, plan, state, represents => name_simulates id represents
  | .list elements, context, plan, state, represents => by
    simp only [Expr.delay, Strict.outcome]
    refine .bind (delayAll_simulates elements represents) ?_
    intro refs outcomes context' plan' state' represents' _ denotes
    exact alloc_simulates represents' (by simp) (Plan.knows_list denotes)
      (congrArg (Except.ok ∘ Tree.list) (Plan.map_meaning denotes))
  | .index collection position, context, plan, state, represents => by
    simp only [Expr.delay, Strict.outcome]
    refine .bind (delay_simulates collection represents) ?_
    intro left leftOutcome context' plan' state' represents' _ first
    refine .bind (delay_simulates position represents') ?_
    intro right rightOutcome context'' plan'' state'' represents'' extends' second
    exact suspend_two_simulates represents'' (first.extend extends') second rfl fun _ _ => rfl
  | .create type arguments, context, plan, state, represents => by
    simp only [Expr.delay, Strict.outcome]
    refine .bind (delayAll_simulates arguments represents) ?_
    intro refs outcomes context' plan' state' represents' _ denotes
    refine .after (eventually_of_forall fun _ => rfl) (.refl plan') ?_
    show Simulates _ _ _ _ ((match state'.registry.fields? type with
      | some fields => _
      | none => _ : Strict.Exec Complete) state')
    rw [represents'.registry]
    cases state'.registry.fields? type with
    | none => exact fail_simulates _ represents'
    | some fields =>
      refine alloc_simulates represents' (by simp) ?_ ?_
      · have knows : ∀ ref ∈ refs, plan'.Has ref := Plan.knows_list denotes
        simpa [Reading.links, Task.reading, Task.refs] using knows
      · simp only [Reading.outcome, ← Plan.map_meaning denotes, List.mapM_map]
        rfl
  | .member object field, context, plan, state, represents => by
    simp only [Expr.delay, Strict.outcome]
    refine .bind (delay_simulates object represents) ?_
    intro ref outcome context' plan' state' represents' _ denotes
    exact suspend_one_simulates represents' denotes nofun fun _ => rfl
  | .unary op operand, context, plan, state, represents => by
    have suspended (plain : ∀ fuel, (Expr.unary op operand).delay fuel = (do
          let operand ← operand.delay fuel
          Eval.alloc (.pending [operand] (.unary op)))) (plain' : Strict.outcome (.unary op operand) = (do
          let operand ← Strict.outcome operand
          return do Tree.unary op (← operand))) :
        Simulates context plan (fun fuel => (Expr.unary op operand).delay fuel) Plan.Denotes
          (Strict.outcome (.unary op operand) state) := by
      simp only [plain, plain']
      refine .bind (delay_simulates operand represents) ?_
      intro ref outcome context' plan' state' represents' _ denotes
      exact suspend_one_simulates represents' denotes nofun fun _ => rfl
    cases op with
    | increment =>
      simp only [Expr.delay, Strict.outcome]
      exact step_simulates .increment operand represents
    | decrement =>
      simp only [Expr.delay, Strict.outcome]
      exact step_simulates .decrement operand represents
    | _ => exact suspended (fun _ => by rw [Expr.delay] <;> nofun) (by rw [Strict.outcome] <;> nofun)
  | .arithmetic op left right, context, plan, state, represents => by
    simp only [Expr.delay, Strict.outcome]
    refine .bind (delay_simulates left represents) ?_
    intro left leftOutcome context' plan' state' represents' _ first
    refine .bind (delay_simulates right represents') ?_
    intro right rightOutcome context'' plan'' state'' represents'' extends' second
    exact suspend_two_simulates represents'' (first.extend extends') second rfl fun _ _ => rfl
  | .logical op left right, context, plan, state, represents => by
    simp only [Expr.delay, Strict.outcome]
    refine .bind (delay_simulates left represents) ?_
    intro left leftOutcome context' plan' state' represents' _ first
    refine .bind (delay_simulates right represents') ?_
    intro right rightOutcome context'' plan'' state'' represents'' extends' second
    refine suspend_one_simulates represents'' (first.extend extends') ?_ fun value => ?_
    · simpa [Task.refs] using second.has
    · rw [← second.meaning]
      rfl
  | .comparison op left right, context, plan, state, represents => by
    simp only [Expr.delay, Strict.outcome]
    refine .bind (delay_simulates left represents) ?_
    intro left leftOutcome context' plan' state' represents' _ first
    refine .bind (delay_simulates right represents') ?_
    intro right rightOutcome context'' plan'' state'' represents'' extends' second
    exact suspend_two_simulates represents'' (first.extend extends') second rfl fun _ _ => rfl

theorem delayAll_simulates : ∀ (exprs : List Expr) {context : Context} {plan : Plan Promise}
    {state : Strict.State}, context.Represents plan state →
    Simulates context plan (fun fuel => Expr.delayAll fuel exprs) (fun plan => List.Forall₂ plan.Denotes)
      (Strict.outcomes exprs state)
  | [], context, plan, state, represents => by
    simp only [Expr.delayAll, Strict.outcomes]
    exact .pure represents .nil
  | first :: rest, context, plan, state, represents => by
    simp only [Expr.delayAll, Strict.outcomes]
    refine .bind (delay_simulates first represents) ?_
    intro ref outcome context' plan' state' represents' _ denotes
    refine .bind (delayAll_simulates rest represents') ?_
    intro refs outcomes context'' plan'' state'' represents'' extends' denotes'
    exact .pure represents'' (.cons (denotes.extend extends') denotes')

end

end Expressions

section Statements

variable {context : Context} {plan plan' : Plan Promise} {state : Strict.State}

def Plan.Binds (plan : Plan Promise) (binding : String × Value) (entry : String × Tree) : Prop :=
  binding.1 = entry.1 ∧ plan.Stands binding.2 entry.2

theorem fits?_tree (meaning : Ref → Complete) (pattern : Pattern) (value : Value) :
    pattern.fits? (value.tree meaning) =
      (pattern.match? value).map (List.map fun binding => (binding.1, binding.2.tree meaning)) := by
  cases pattern with
  | literal constant => by_cases same : value.matchesLiteral constant <;>
      simp [Pattern.fits?, Pattern.match?, same]
  | _ => rfl

theorem value_of_match? {pattern : Pattern} {value : Value} {bindings : List (String × Value)}
    (matched : pattern.match? value = some bindings) :
    ∀ binding ∈ bindings, binding.2 = value := by
  cases pattern with
  | literal constant =>
    simp only [Pattern.match?] at matched
    split at matched <;> cases matched
    nofun
  | _ =>
    cases matched
    simp

theorem binds_of_match? {pattern : Pattern} {value : Value} {bindings : List (String × Value)}
    (matched : pattern.match? value = some bindings) (knows : Reading.Knows plan value) :
    List.Forall₂ plan.Binds bindings (bindings.map fun binding => (binding.1, binding.2.tree plan.meaning)) := by
  rw [List.forall₂_map_right_iff, List.forall₂_same]
  intro binding member
  refine ⟨rfl, ?_, rfl⟩
  rw [value_of_match? matched binding member]
  exact knows

theorem assignAll_simulates {bindings : List (String × Value)} {trees : List (String × Tree)}
    (represents : context.Represents plan state) (binds : List.Forall₂ plan.Binds bindings trees) :
    Simulates context plan (fun _ => Eval.assignAll bindings) (fun _ _ _ => True)
      (Strict.Exec.assignAll trees state) := by
  induction bindings generalizing context plan state trees with
  | nil =>
    cases binds
    exact .pure represents trivial
  | cons binding rest ih =>
    cases binds with
    | @cons _ entry _ others first later =>
      obtain ⟨id, value⟩ := binding
      obtain ⟨_, tree⟩ := entry
      obtain ⟨rfl, stands⟩ := first
      obtain ⟨plan₁, grows, denotes⟩ := stands.alloc represents
      refine .after (alloc_eventually _) grows.extends' ?_
      refine .bind (assign_simulates id (represents.onHeap grows) denotes) ?_
      intro _ _ context' plan' state' represents' extends' _
      refine ih represents' (later.imp fun _ _ binds => ⟨binds.1, ?_⟩)
      exact binds.2.extend (grows.extends'.trans extends')

theorem unmatched_simulates {value : Value} {tree : Tree} (represents : context.Represents plan state)
    (stands : plan.Stands value tree) :
    Simulates context plan (fun fuel => Eval.unmatched fuel value) Plan.Leads
      (Strict.Exec.unmatched tree state) := by
  obtain ⟨plan₁, grows, denotes⟩ := stands.alloc represents
  refine .after (alloc_eventually _) grows.extends' ?_
  refine forceDeep_simulates (represents.onHeap grows) denotes ?_
  intro value' tree' context' plan' represents' _ stands' full
  refine .after (display_eventually represents' stands' full) (.refl plan') ?_
  exact .raise _ represents'

-- The body is run once for each element, on either machine.
theorem forEach_simulates (id : String) {body : Nat → Eval (Option Ref)}
    {body' : Strict.Exec (Option Complete)}
    (once : ∀ {context : Context} {plan : Plan Promise} {state : Strict.State}, context.Represents plan state →
      Simulates context plan body Plan.Leads (body' state)) {refs : List Ref} {outcomes : List Complete}
    {result : Option Ref} {result' : Option Complete} (represents : context.Represents plan state)
    (denotes : List.Forall₂ plan.Denotes refs outcomes) (leads : plan.Leads result result') :
    Simulates context plan (fun fuel => Eval.forEach id (body fuel) refs result) Plan.Leads
      (Strict.Exec.forEach id body' outcomes result' state) := by
  induction refs generalizing context plan state outcomes result result' with
  | nil =>
    cases denotes
    exact .pure represents leads
  | cons element rest ih =>
    cases denotes with
    | @cons _ outcome _ others first later =>
      -- The loop variable gets a cell of its own that delegates to the element.
      have idle : (.delegated element : Cell Task) ≠ .running := by simp
      obtain ⟨plan₁, grows, denotes⟩ := alloc_grows represents idle
        (by simpa [Reading.links] using first.has) first.meaning
      refine .after (alloc_eventually _) grows.extends' ?_
      refine .bind (assign_simulates id (represents.onHeap grows) denotes) ?_
      intro _ _ context₁ plan₁ state₁ represents₁ extends₁ _
      refine .bind (once represents₁) ?_
      intro result result' context₂ plan₂ state₂ represents₂ extends₂ leads
      refine ih represents₂ (later.imp fun _ _ denotes => ?_) leads
      exact denotes.extend (grows.extends'.trans (extends₁.trans extends₂))

mutual

theorem exec_simulates : ∀ (statement : Statement) {context : Context} {plan : Plan Promise}
    {state : Strict.State}, context.Represents plan state →
    Simulates context plan (fun fuel => statement.exec fuel) Plan.Leads (Strict.exec statement state)
  | .assign id value, context, plan, state, represents => by
    simp only [Statement.exec, Strict.exec]
    refine .bind (delay_simulates value represents) ?_
    intro ref outcome context' plan' state' represents' _ denotes
    refine .bind (assign_simulates id represents' denotes) ?_
    intro _ _ context'' plan'' state'' represents'' _ _
    exact .pure represents'' .none
  | .print value, context, plan, state, represents => by
    simp only [Statement.exec, Strict.exec]
    refine .bind (delay_simulates value represents) ?_
    intro ref outcome context₁ plan₁ state₁ represents₁ _ denotes
    refine forceDeep_simulates represents₁ denotes ?_
    intro value tree context₂ plan₂ represents₂ _ stands full
    -- The text is written from the heap, which has to hold every part of the value by now.
    refine .after (display_eventually represents₂ stands full) (.refl plan₂) ?_
    refine .bind (print_simulates _ represents₂) ?_
    intro _ _ context₃ plan₃ state₃ represents₃ extends' _
    obtain ⟨plan₄, grows, denotes⟩ := (stands.extend extends').alloc represents₃
    refine .after (alloc_eventually _) grows.extends' ?_
    exact .pure (represents₃.onHeap grows) (.some denotes)
  | .branch condition consequence none, context, plan, state, represents => by
    simp only [Statement.exec, Strict.exec]
    refine .bind (delay_simulates condition represents) ?_
    intro ref outcome context₁ plan₁ state₁ represents₁ _ denotes
    refine .bind (force_simulates represents₁ denotes) ?_
    intro value tree context₂ plan₂ state₂ represents₂ _ stands
    rw [← stands.2, Value.truthy_tree]
    split
    · exact execBlock_simulates consequence represents₂ .none
    · exact .pure represents₂ .none
  | .branch condition consequence (some alternative), context, plan, state, represents => by
    simp only [Statement.exec, Strict.exec]
    refine .bind (delay_simulates condition represents) ?_
    intro ref outcome context₁ plan₁ state₁ represents₁ _ denotes
    refine .bind (force_simulates represents₁ denotes) ?_
    intro value tree context₂ plan₂ state₂ represents₂ _ stands
    rw [← stands.2, Value.truthy_tree]
    split
    · exact execBlock_simulates consequence represents₂ .none
    · exact execBlock_simulates alternative represents₂ .none
  | .iterate id items body, context, plan, state, represents => by
    simp only [Statement.exec, Strict.exec]
    refine .bind (delay_simulates items represents) ?_
    intro ref outcome context₁ plan₁ state₁ represents₁ _ denotes
    refine .bind (force_simulates represents₁ denotes) ?_
    intro value tree context₂ plan₂ state₂ represents₂ _ stands
    cases value with
    | list elements =>
      obtain ⟨rfl, elementwise⟩ := stands.elements
      exact forEach_simulates id (fun represents => execBlock_simulates body represents .none) represents₂
        elementwise .none
    | _ =>
      rw [← stands.2]
      exact .raise _ represents₂
  | .select scrutinee cases none, context, plan, state, represents => by
    simp only [Statement.exec, Strict.exec]
    refine .bind (delay_simulates scrutinee represents) ?_
    intro ref outcome context₁ plan₁ state₁ represents₁ _ denotes
    refine .bind (force_simulates represents₁ denotes) ?_
    intro value tree context₂ plan₂ state₂ represents₂ _ stands
    exact execCases_simulates cases represents₂ stands (unmatched_simulates represents₂ stands)
  | .select scrutinee cases (some alternative), context, plan, state, represents => by
    simp only [Statement.exec, Strict.exec]
    refine .bind (delay_simulates scrutinee represents) ?_
    intro ref outcome context₁ plan₁ state₁ represents₁ _ denotes
    refine .bind (force_simulates represents₁ denotes) ?_
    intro value tree context₂ plan₂ state₂ represents₂ _ stands
    exact execCases_simulates cases represents₂ stands (execBlock_simulates alternative represents₂ .none)
  | .define type fields, context, plan, state, represents => by
    simp only [Statement.exec, Strict.exec]
    refine .bind (define_simulates type fields represents) ?_
    intro _ _ context' plan' state' represents' _ _
    exact .pure represents' .none
  | .evaluate value, context, plan, state, represents => by
    simp only [Statement.exec, Strict.exec]
    refine .bind (delay_simulates value represents) ?_
    intro ref outcome context' plan' state' represents' _ denotes
    exact .pure represents' (.some denotes)

theorem execBlock_simulates : ∀ (statements : List Statement) {result : Option Ref}
    {result' : Option Complete} {context : Context} {plan : Plan Promise} {state : Strict.State},
    context.Represents plan state → plan.Leads result result' →
    Simulates context plan (fun fuel => Statement.execBlock fuel statements result) Plan.Leads
      (Strict.execBlock statements result' state)
  | [], result, result', context, plan, state, represents, leads => by
    simp only [Statement.execBlock, Strict.execBlock]
    exact .pure represents leads
  | first :: rest, result, result', context, plan, state, represents, leads => by
    simp only [Statement.execBlock, Strict.execBlock]
    refine .bind (exec_simulates first represents) ?_
    intro result result' context' plan' state' represents' _ leads
    exact execBlock_simulates rest represents' leads

theorem execCases_simulates : ∀ (cases : List (Pattern × List Statement))
    {otherwise : Nat → Eval (Option Ref)} {otherwise' : Strict.Exec (Option Complete)}
    {value : Value} {tree : Tree} {context : Context} {plan : Plan Promise} {state : Strict.State},
    context.Represents plan state → plan.Stands value tree →
    Simulates context plan otherwise Plan.Leads (otherwise' state) →
    Simulates context plan (fun fuel => Statement.execCases fuel value (otherwise fuel) cases) Plan.Leads
      (Strict.execCases tree otherwise' cases state)
  | [], otherwise, otherwise', value, tree, context, plan, state, _, _, fallback => by
    simp only [Statement.execCases, Strict.execCases]
    exact fallback
  | (pattern, body) :: rest, otherwise, otherwise', value, tree, context, plan, state, represents, stands,
      fallback => by
    simp only [Statement.execCases, Strict.execCases]
    rw [← stands.2, fits?_tree]
    cases matched : pattern.match? value with
    | none =>
      rw [stands.2]
      exact execCases_simulates rest represents stands fallback
    | some bindings =>
      refine .after (eventually_of_forall fun _ => rfl) (.refl plan) ?_
      refine restoring_simulates represents ?_
      refine .bind (assignAll_simulates represents (binds_of_match? matched stands.1)) ?_
      intro _ _ context' plan' state' represents' _ _
      exact execBlock_simulates body represents' .none

end

end Statements

theorem represents_empty : Context.Represents {} ⟨0, fun _ => none⟩ {} where
  holds _ := ⟨rfl, fun promises => absurd promises.1 (Nat.not_lt_zero _)⟩
  total _ inside := absurd inside (Nat.not_lt_zero _)
  bindings id := by
    simp only [Environment.get?, Std.TreeMap.getElem?_emptyc]
    exact .none
  registry := rfl
  output := rfl

/-- With enough fuel, a program that runs by need prints the texts that it prints without suspended
cells, in the same order. It ends with a result on both machines or with none on both, or else with
the same fault. -/
theorem exec_refines_strict (program : Program) :
    ∃ bound, ∀ fuel, bound ≤ fuel →
      (Context.observe (program.exec fuel) {}).1.output = (Strict.run program).output ∧
      (Context.observe (program.exec fuel) {}).1.result.map Option.isSome =
        (Strict.run program).result.map Option.isSome := by
  have simulates := execBlock_simulates program.statements represents_empty .none
  unfold Strict.run
  generalize Strict.execBlock program.statements none {} = outcome at simulates
  cases simulates with
  | ok run represents extends' leads =>
    obtain ⟨bound, run⟩ := run
    refine ⟨bound, fun fuel enough => ?_⟩
    have ran := run fuel enough
    simp only [Context.observe, Program.exec, ran, represents.output, true_and]
    cases leads <;> rfl
  | error run represents extends' =>
    obtain ⟨bound, run⟩ := run
    refine ⟨bound, fun fuel enough => ?_⟩
    have ran := run fuel enough
    simp only [Context.observe, Program.exec, ran, represents.output, true_and]
    rfl

end ByNeed
