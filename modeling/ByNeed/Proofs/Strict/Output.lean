import ByNeed.Proofs.Strict.Evaluator

set_option autoImplicit false

namespace ByNeed.Strict

variable {α β : Type} {printed : Array String}

def State.after (printed : Array String) (state : State) : State :=
  { state with output := printed ++ state.output }

def resultAfter (printed : Array String) :
    EStateM.Result Fault State α → EStateM.Result Fault State α
  | .ok result state => .ok result (state.after printed)
  | .error fault state => .error fault (state.after printed)

def Indifferent (printed : Array String) (computation : Exec α) : Prop :=
  ∀ state : State, computation (state.after printed) = resultAfter printed (computation state)

theorem Indifferent.bind {computation : Exec α} {next : α → Exec β}
    (first : Indifferent printed computation) (second : ∀ result, Indifferent printed (next result)) :
    Indifferent printed (computation >>= next) := by
  intro state
  have here := first state
  simp only [Bind.bind, EStateM.bind, here]
  cases computation state with
  | error fault later => rfl
  | ok result later => exact second result later

theorem indifferent_pure (result : α) : Indifferent printed (pure result : Exec α) :=
  fun _ => rfl

theorem indifferent_throw (fault : Fault) : Indifferent printed (throw fault : Exec α) :=
  fun _ => rfl

theorem indifferent_get {next : State → Exec α}
    (second : ∀ state, Indifferent printed (next state))
    (same : ∀ state, next (state.after printed) = next state) : Indifferent printed (get >>= next) := by
  intro state
  change next (state.after printed) (state.after printed) = resultAfter printed (next state state)
  rw [same]
  exact second state state

theorem indifferent_assign (id : String) (outcome : Complete) :
    Indifferent printed (Exec.assign id outcome) :=
  fun _ => rfl

theorem indifferent_demand (outcome : Complete) : Indifferent printed (Exec.demand outcome) := by
  cases outcome <;> exact fun _ => rfl

theorem indifferent_demandDeep (outcome : Complete) :
    Indifferent printed (Exec.demandDeep outcome) := by
  refine (indifferent_demand outcome).bind fun value => ?_
  cases value.deepFault? with
  | none => exact indifferent_pure value
  | some fault => exact indifferent_throw fault

theorem indifferent_print (text : String) : Indifferent printed (Exec.print text) := by
  intro state
  have pushed : (printed ++ state.output).push text = printed ++ state.output.push text := by simp
  change EStateM.Result.ok () { state with output := (printed ++ state.output).push text } = _
  rw [pushed]
  rfl

theorem indifferent_define (type : String) (fields : List String) :
    Indifferent printed (Exec.define type fields) := by
  intro state
  simp only [Exec.define, State.after]
  cases state.registry.define type fields <;> rfl

theorem indifferent_restoring {computation : Exec α} (body : Indifferent printed computation) :
    Indifferent printed (Exec.restoring computation) := by
  intro state
  simp only [Exec.restoring, body state]
  cases computation state <;> rfl

theorem indifferent_step (op : UnaryOp) (operand : Expr) :
    Indifferent printed (Exec.step op operand) := by
  cases operand with
  | name id =>
    refine indifferent_get (fun state => ?_) fun _ => rfl
    cases state.bindings id with
    | none => exact indifferent_throw _
    | some current =>
      refine (indifferent_demand current).bind fun value => ?_
      refine (indifferent_demand _).bind fun updated => ?_
      exact (indifferent_assign id _).bind fun _ => indifferent_pure _
  | _ => exact indifferent_throw _

mutual

theorem indifferent_outcome : ∀ expr : Expr, Indifferent printed (outcome expr)
  | .literal value => by
    simp only [outcome]
    exact indifferent_pure _
  | .name id => by
    simp only [outcome]
    exact indifferent_get (fun _ => indifferent_pure _) fun _ => rfl
  | .list elements => by
    simp only [outcome]
    exact (indifferent_outcomes elements).bind fun _ => indifferent_pure _
  | .create type arguments => by
    simp only [outcome]
    refine (indifferent_outcomes arguments).bind fun arguments => ?_
    refine indifferent_get (fun state => ?_) fun _ => rfl
    cases state.registry.fields? type <;> exact indifferent_pure _
  | .member object field => by
    simp only [outcome]
    exact (indifferent_outcome object).bind fun _ => indifferent_pure _
  | .unary op operand => by
    have suspended (plain : outcome (.unary op operand) = (do
          let operand ← outcome operand
          return do Tree.unary op (← operand))) :
        Indifferent printed (outcome (.unary op operand)) := by
      rw [plain]
      exact (indifferent_outcome operand).bind fun _ => indifferent_pure _
    cases op with
    | increment =>
      simp only [outcome]
      exact indifferent_step .increment operand
    | decrement =>
      simp only [outcome]
      exact indifferent_step .decrement operand
    | _ => exact suspended (by rw [outcome] <;> nofun)
  | .index left right | .arithmetic op left right | .logical op left right
  | .comparison op left right => by
    simp only [outcome]
    refine (indifferent_outcome left).bind fun _ => ?_
    exact (indifferent_outcome right).bind fun _ => indifferent_pure _

theorem indifferent_outcomes : ∀ exprs : List Expr, Indifferent printed (outcomes exprs)
  | [] => by
    simp only [outcomes]
    exact indifferent_pure []
  | first :: rest => by
    simp only [outcomes]
    refine (indifferent_outcome first).bind fun _ => ?_
    exact (indifferent_outcomes rest).bind fun _ => indifferent_pure _

end

theorem indifferent_assignAll (bindings : List (String × Tree)) :
    Indifferent printed (Exec.assignAll bindings) := by
  induction bindings with
  | nil => exact indifferent_pure ()
  | cons binding rest ih => exact (indifferent_assign binding.1 _).bind fun _ => ih

theorem indifferent_unmatched (value : Tree) : Indifferent printed (Exec.unmatched value) :=
  (indifferent_demandDeep _).bind fun _ => indifferent_throw _

theorem indifferent_forEach (id : String) {body : Exec (Option Complete)}
    (once : Indifferent printed body) (elements : List Complete) (result : Option Complete) :
    Indifferent printed (Exec.forEach id body elements result) := by
  induction elements generalizing result with
  | nil => exact indifferent_pure result
  | cons element rest ih => exact (indifferent_assign id element).bind fun _ => once.bind ih

-- What is needed in front of a block.
theorem indifferent_demanded {next : Tree → Exec α} (expr : Expr)
    (later : ∀ value, Indifferent printed (next value)) :
    Indifferent printed (do next (← Exec.demand (← outcome expr))) :=
  (indifferent_outcome expr).bind fun _ => (indifferent_demand _).bind later

mutual

theorem indifferent_exec : ∀ statement : Statement, Indifferent printed (exec statement)
  | .assign id value => by
    simp only [exec]
    refine (indifferent_outcome value).bind fun outcome => ?_
    exact (indifferent_assign id outcome).bind fun _ => indifferent_pure none
  | .print value => by
    simp only [exec]
    refine (indifferent_outcome value).bind fun outcome => ?_
    refine (indifferent_demandDeep outcome).bind fun value => ?_
    exact (indifferent_print _).bind fun _ => indifferent_pure _
  | .evaluate value => by
    simp only [exec]
    exact (indifferent_outcome value).bind fun _ => indifferent_pure _
  | .branch condition consequence none => by
    simp only [exec]
    refine indifferent_demanded condition fun value => ?_
    split
    · exact indifferent_execBlock consequence none
    · exact indifferent_pure none
  | .branch condition consequence (some alternative) => by
    simp only [exec]
    refine indifferent_demanded condition fun value => ?_
    split
    · exact indifferent_execBlock consequence none
    · exact indifferent_execBlock alternative none
  | .iterate id items body => by
    simp only [exec]
    refine indifferent_demanded items fun value => ?_
    cases value with
    | list elements => exact indifferent_forEach id (indifferent_execBlock body none) elements none
    | _ => exact indifferent_throw _
  | .select scrutinee cases none => by
    simp only [exec]
    exact indifferent_demanded scrutinee fun value =>
      indifferent_execCases cases value (indifferent_unmatched value)
  | .select scrutinee cases (some alternative) => by
    simp only [exec]
    exact indifferent_demanded scrutinee fun value =>
      indifferent_execCases cases value (indifferent_execBlock alternative none)
  | .define type fields => by
    simp only [exec]
    exact (indifferent_define type fields).bind fun _ => indifferent_pure none

theorem indifferent_execBlock : ∀ (statements : List Statement) (result : Option Complete),
    Indifferent printed (execBlock statements result)
  | [], result => by
    simp only [execBlock]
    exact indifferent_pure result
  | first :: rest, result => by
    simp only [execBlock]
    exact (indifferent_exec first).bind fun result => indifferent_execBlock rest result

theorem indifferent_execCases : ∀ (cases : List (Pattern × List Statement)) (value : Tree)
    {otherwise : Exec (Option Complete)}, Indifferent printed otherwise →
    Indifferent printed (execCases value otherwise cases)
  | [], value, otherwise, fallback => by
    simp only [execCases]
    exact fallback
  | (pattern, body) :: rest, value, otherwise, fallback => by
    simp only [execCases]
    cases pattern.fits? value with
    | none => exact indifferent_execCases rest value fallback
    | some bindings =>
      refine indifferent_restoring ?_
      exact (indifferent_assignAll bindings).bind fun _ => indifferent_execBlock body none

end

section Blocks

variable {state state' : State} {result : Option Complete}

theorem execBlock_append (front rest : List Statement) (result : Option Complete) :
    execBlock (front ++ rest) result = execBlock front result >>= execBlock rest := by
  induction front generalizing result with
  | nil => simp [execBlock]
  | cons first others ih => simp only [List.cons_append, execBlock, ih, bind_assoc]

-- The result before a block is that of the block only if the block is empty.
theorem execBlock_none {statements : List Statement} {final : Option Complete}
    (ran : execBlock statements result state = .ok final state') :
    ∃ final', execBlock statements none state = .ok final' state' := by
  cases statements with
  | nil =>
    cases ran
    exact ⟨none, rfl⟩
  | cons first rest => exact ⟨final, ran⟩

-- A run of two blocks, the second with nothing printed and no result before it.
theorem exists_of_execBlock_append {front rest : List Statement}
    (ran : execBlock (front ++ rest) none state = .ok result state') :
    ∃ middle between final later, execBlock front none state = .ok middle between ∧
      execBlock rest none { between with output := #[] } = .ok final later ∧
      state'.output = between.output ++ later.output := by
  rw [execBlock_append] at ran
  cases first : execBlock front none state with
  | error fault between =>
    simp only [Bind.bind, EStateM.bind, first] at ran
    cases ran
  | ok middle between =>
    simp only [Bind.bind, EStateM.bind, first] at ran
    obtain ⟨final, ran⟩ := execBlock_none ran
    have indifferent : Indifferent between.output (execBlock rest none) :=
      indifferent_execBlock rest none
    have same := indifferent { between with output := #[] }
    have whole : State.after between.output { between with output := #[] } = between := by
      simp [State.after]
    rw [whole, ran] at same
    cases alone : execBlock rest none { between with output := #[] } with
    | error fault later =>
      rw [alone] at same
      cases same
    | ok final' later =>
      rw [alone] at same
      cases same
      exact ⟨middle, between, _, later, rfl, alone, rfl⟩

end Blocks

end ByNeed.Strict
