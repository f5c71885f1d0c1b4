import ByNeed.Proofs.Heap.Conformity
import ByNeed.Proofs.Strict.Simulation

set_option autoImplicit false

namespace ByNeed

def UnaryOp.moved : UnaryOp → Expr → List String
  | .increment, .name id | .decrement, .name id => [id]
  | _, _ => []

mutual

def Expr.modified : Expr → List String
  | .name _ | .literal _ => []
  | .list elements | .create _ elements => Expr.modifiedInAll elements
  | .member object _ => object.modified
  | .unary op operand => op.moved operand ++ operand.modified
  | .index left right | .arithmetic _ left right | .logical _ left right
  | .comparison _ left right => left.modified ++ right.modified

def Expr.modifiedInAll : List Expr → List String
  | [] => []
  | first :: rest => first.modified ++ Expr.modifiedInAll rest

end

mutual

/-- The names that occur in a statement as the target of an assignment, the variable of an iteration
or a variable that is moved one step, the bodies of cases left out. -/
def Statement.modified : Statement → List String
  | .assign id value => id :: value.modified
  | .print value | .evaluate value => value.modified
  | .branch condition consequence none => condition.modified ++ Statement.modifiedInBlock consequence
  | .branch condition consequence (some alternative) =>
    condition.modified ++ Statement.modifiedInBlock consequence ++ Statement.modifiedInBlock alternative
  | .iterate id items body => id :: (items.modified ++ Statement.modifiedInBlock body)
  | .select scrutinee _ none => scrutinee.modified
  | .select scrutinee _ (some alternative) =>
    scrutinee.modified ++ Statement.modifiedInBlock alternative
  | .define _ _ => []

def Statement.modifiedInBlock : List Statement → List String
  | [] => []
  | first :: rest => first.modified ++ Statement.modifiedInBlock rest

end

-- Only the given names are bound anew, and no name and no record type is lost.
structure Context.Frame (names : List String) (context context' : Context) : Prop where
  same : ∀ id, id ∉ names → context'.environment.get? id = context.environment.get? id
  bound : ∀ id, (context.environment.get? id).isSome → (context'.environment.get? id).isSome
  defined : ∀ type fields, context.registry.fields? type = some fields →
    context'.registry.fields? type = some fields

namespace Context.Frame

variable {names names' : List String} {context context' context'' : Context}

theorem refl (names : List String) (context : Context) : context.Frame names context where
  same _ _ := rfl
  bound _ bound := bound
  defined _ _ defined := defined

theorem trans (first : context.Frame names context') (second : context'.Frame names context'') :
    context.Frame names context'' where
  same id other := (second.same id other).trans (first.same id other)
  bound id bound := second.bound id (first.bound id bound)
  defined type fields defined := second.defined type fields (first.defined type fields defined)

theorem mono (frame : context.Frame names context') (subset : names ⊆ names') :
    context.Frame names' context' :=
  { frame with same := fun id other => frame.same id fun member => other (subset member) }

end Context.Frame

section Primitives

variable {α β : Type} {names names' : List String}

def endContext : EStateM.Result Interrupt Context α → Context
  | .ok _ context | .error _ context => context

def Framed (names : List String) (computation : Eval α) : Prop :=
  ∀ context : Context, context.Frame names (endContext (computation context))

theorem Framed.bind {computation : Eval α} {next : α → Eval β} (first : Framed names computation)
    (second : ∀ result, Framed names (next result)) : Framed names (computation >>= next) := by
  intro context
  have here := first context
  simp only [Bind.bind, EStateM.bind]
  cases ran : computation context with
  | error interrupt context₁ =>
    rw [ran] at here
    exact here
  | ok result context₁ =>
    rw [ran] at here
    exact here.trans (second result context₁)

theorem Framed.mono {computation : Eval α} (framed : Framed names computation)
    (subset : names ⊆ names') : Framed names' computation :=
  fun context => (framed context).mono subset

theorem framed_pure (result : α) : Framed names (pure result : Eval α) :=
  .refl names

theorem framed_raise (fault : Fault) : Framed names (Eval.raise fault : Eval α) :=
  .refl names

theorem framed_get : Framed names (get : Eval Context) :=
  .refl names

theorem framed_lookup (id : String) : Framed names (Eval.lookup? id) :=
  .refl names

theorem framed_onHeap (computation : HeapM Task α) : Framed names (Eval.onHeap computation) := by
  intro context
  unfold Eval.onHeap
  simp only
  cases computation context.heap <;> exact ⟨fun _ _ => rfl, fun _ => id, fun _ _ => id⟩

theorem framed_display (fuel : Nat) (value : Value) : Framed names (Eval.display fuel value) := by
  intro context
  unfold Eval.display
  cases context.heap.display fuel value <;> exact .refl names context

theorem framed_print (text : String) : Framed names (Eval.print text) :=
  fun _ => ⟨fun _ _ => rfl, fun _ => id, fun _ _ => id⟩

theorem framed_assign {id : String} (member : id ∈ names) (ref : Ref) :
    Framed names (Eval.assign id ref) := by
  intro context
  change context.Frame names { context with environment := context.environment.set id ref }
  refine ⟨fun other outside => ?_, fun other bound => ?_, fun _ _ defined => defined⟩
  · have different : id ≠ other := by
      rintro rfl
      exact outside member
    rw [Environment.get?_set, if_neg different]
  · rw [Environment.get?_set]
    split
    · rfl
    · exact bound

theorem framed_define (type : String) (fields : List String) :
    Framed names (Eval.define type fields) := by
  intro context
  unfold Eval.define
  cases defined : context.registry.define type fields with
  | error fault => exact .refl names context
  | ok registry => exact ⟨fun _ _ => rfl, fun _ => id, Registry.extends_define defined⟩

theorem framed_reassign {id : String} (member : id ∈ names) (value : Value) :
    Framed names (Eval.reassign id value) := by
  unfold Eval.reassign
  refine framed_get.bind fun context => ?_
  split
  · exact (framed_onHeap _).bind (framed_assign member)
  · exact framed_raise _

-- All that a computation does to the bindings is undone.
theorem framed_restoring {computation : Eval α} (framed : Framed names computation) :
    Framed [] (do Eval.restoring (← get).environment computation) := by
  intro context
  have body := framed context
  change context.Frame [] (endContext (Eval.restoring context.environment computation context))
  unfold Eval.restoring
  generalize computation context = result at body
  cases result <;> exact ⟨fun _ _ => rfl, fun _ => id, body.defined⟩

end Primitives

section Expressions

variable {names : List String}

theorem framed_alloc (cell : Cell Task) : Framed names (Eval.alloc cell) :=
  framed_onHeap _

theorem framed_force (fuel : Nat) (ref : Ref) : Framed names (Eval.force fuel ref) :=
  framed_onHeap _

theorem framed_forceDeep (fuel : Nat) (ref : Ref) : Framed names (Eval.forceDeep fuel ref) :=
  framed_onHeap _

theorem framed_step (fuel : Nat) {op : UnaryOp} (moves : op = .increment ∨ op = .decrement)
    (operand : Expr) : Framed (op.moved operand) (Eval.step fuel op operand) := by
  cases operand with
  | name id =>
    have member : id ∈ op.moved (.name id) := by
      rcases moves with rfl | rfl <;> exact List.mem_singleton_self id
    simp only [Eval.step]
    refine (framed_lookup id).bind fun found => ?_
    cases found with
    | none => exact framed_raise _
    | some current =>
      refine (framed_force fuel current).bind fun value => ?_
      cases op.apply value with
      | error fault => exact framed_raise fault
      | ok updated => exact (framed_reassign member updated).bind fun _ => framed_alloc _
  | _ => exact framed_raise _

-- Both operands of a binary form may move variables.
theorem Framed.pair {left right : Expr} {first second : Eval Ref} (cell : Ref → Ref → Cell Task)
    (framed : Framed left.modified first) (framed' : Framed right.modified second) :
    Framed (left.modified ++ right.modified) (do
      let left ← first
      let right ← second
      Eval.alloc (cell left right)) :=
  (framed.mono (List.subset_append_left _ _)).bind fun _ =>
    (framed'.mono (List.subset_append_right _ _)).bind fun _ => framed_alloc _

mutual

theorem delay_framed (fuel : Nat) : ∀ expr : Expr, Framed expr.modified (expr.delay fuel)
  | .literal value => by
    simp only [Expr.delay]
    exact framed_alloc _
  | .name id => by
    simp only [Expr.delay]
    refine (framed_lookup id).bind fun found => ?_
    cases found with
    | none => exact framed_alloc _
    | some ref => exact framed_pure ref
  | .list elements => by
    simp only [Expr.delay, Expr.modified]
    exact (delayAll_framed fuel elements).bind fun _ => framed_alloc _
  | .create type arguments => by
    simp only [Expr.delay, Expr.modified]
    refine (delayAll_framed fuel arguments).bind fun refs => framed_get.bind fun context => ?_
    cases context.registry.fields? type <;> exact framed_alloc _
  | .member object field => by
    simp only [Expr.delay, Expr.modified]
    exact (delay_framed fuel object).bind fun _ => framed_alloc _
  | .unary op operand => by
    have suspended (plain : (Expr.unary op operand).delay fuel = (do
          let operand ← operand.delay fuel
          Eval.alloc (.pending [operand] (.unary op)))) :
        Framed (Expr.unary op operand).modified ((Expr.unary op operand).delay fuel) := by
      rw [plain, Expr.modified]
      refine .mono ?_ (List.subset_append_right _ _)
      exact (delay_framed fuel operand).bind fun _ => framed_alloc _
    cases op with
    | increment =>
      simp only [Expr.delay, Expr.modified]
      exact (framed_step fuel (.inl rfl) operand).mono (List.subset_append_left _ _)
    | decrement =>
      simp only [Expr.delay, Expr.modified]
      exact (framed_step fuel (.inr rfl) operand).mono (List.subset_append_left _ _)
    | _ => exact suspended (by rw [Expr.delay] <;> nofun)
  | .index left right | .arithmetic op left right | .logical op left right
  | .comparison op left right => by
    simp only [Expr.delay, Expr.modified]
    exact .pair _ (delay_framed fuel left) (delay_framed fuel right)

theorem delayAll_framed (fuel : Nat) : ∀ exprs : List Expr,
    Framed (Expr.modifiedInAll exprs) (Expr.delayAll fuel exprs)
  | [] => by
    simp only [Expr.delayAll]
    exact framed_pure []
  | first :: rest => by
    simp only [Expr.delayAll, Expr.modifiedInAll]
    refine ((delay_framed fuel first).mono (List.subset_append_left _ _)).bind fun ref => ?_
    refine ((delayAll_framed fuel rest).mono (List.subset_append_right _ _)).bind fun refs => ?_
    exact framed_pure _

end

end Expressions

section Statements

variable {names : List String}

theorem framed_assignAll (bindings : List (String × Value)) :
    Framed (bindings.map Prod.fst ++ names) (Eval.assignAll bindings) := by
  have each (rest : List (String × Value)) (subset : rest ⊆ bindings) :
      Framed (bindings.map Prod.fst ++ names) (Eval.assignAll rest) := by
    induction rest with
    | nil => exact framed_pure ()
    | cons binding rest ih =>
      have member : binding.1 ∈ bindings.map Prod.fst ++ names :=
        List.mem_append_left _ (List.mem_map_of_mem (subset List.mem_cons_self))
      refine (framed_alloc _).bind fun ref => (framed_assign member ref).bind fun _ => ?_
      exact ih fun other member => subset (List.mem_cons_of_mem _ member)
  exact each bindings (List.Subset.refl _)

theorem framed_unmatched (fuel : Nat) (value : Value) : Framed names (Eval.unmatched fuel value) := by
  unfold Eval.unmatched
  refine (framed_alloc _).bind fun ref => (framed_forceDeep fuel ref).bind fun value => ?_
  exact (framed_display fuel value).bind fun text => framed_raise _

theorem framed_forEach {id : String} (member : id ∈ names) {body : Eval (Option Ref)}
    (once : Framed names body) (elements : List Ref) (result : Option Ref) :
    Framed names (Eval.forEach id body elements result) := by
  induction elements generalizing result with
  | nil => exact framed_pure result
  | cons element rest ih =>
    refine (framed_alloc _).bind fun ref => (framed_assign member ref).bind fun _ => ?_
    exact once.bind ih

-- What is forced in front of a block.
theorem Framed.forced {α : Type} {expr : Expr} {next : Value → Eval α} (fuel : Nat)
    (subset : expr.modified ⊆ names) (framed : ∀ value, Framed names (next value)) :
    Framed names (do next (← Eval.force fuel (← expr.delay fuel))) :=
  ((delay_framed fuel expr).mono subset).bind fun ref => (framed_force fuel ref).bind framed

mutual

theorem exec_framed (fuel : Nat) : ∀ statement : Statement,
    Framed statement.modified (statement.exec fuel)
  | .assign id value => by
    simp only [Statement.exec, Statement.modified]
    refine ((delay_framed fuel value).mono (List.subset_cons_self _ _)).bind fun ref => ?_
    exact (framed_assign List.mem_cons_self ref).bind fun _ => framed_pure none
  | .print value => by
    simp only [Statement.exec, Statement.modified]
    refine (delay_framed fuel value).bind fun ref => (framed_forceDeep fuel ref).bind fun value => ?_
    refine (framed_display fuel value).bind fun text => (framed_print text).bind fun _ => ?_
    exact (framed_alloc _).bind fun ref => framed_pure _
  | .evaluate value => by
    simp only [Statement.exec, Statement.modified]
    exact (delay_framed fuel value).bind fun ref => framed_pure _
  | .branch condition consequence none => by
    simp only [Statement.exec, Statement.modified]
    refine .forced fuel (List.subset_append_left _ _) fun value => ?_
    split
    · exact (execBlock_framed fuel consequence none).mono (List.subset_append_right _ _)
    · exact framed_pure none
  | .branch condition consequence (some alternative) => by
    simp only [Statement.exec, Statement.modified, List.append_assoc]
    refine .forced fuel (List.subset_append_left _ _) fun value => ?_
    split
    · refine (execBlock_framed fuel consequence none).mono ?_
      exact List.subset_append_of_subset_right _ (List.subset_append_left _ _)
    · refine (execBlock_framed fuel alternative none).mono ?_
      exact List.subset_append_of_subset_right _ (List.subset_append_right _ _)
  | .iterate id items body => by
    simp only [Statement.exec, Statement.modified]
    refine .forced fuel (List.subset_cons_of_subset _ (List.subset_append_left _ _)) fun value => ?_
    cases value with
    | list elements =>
      refine framed_forEach List.mem_cons_self ?_ elements none
      refine (execBlock_framed fuel body none).mono ?_
      exact List.subset_cons_of_subset _ (List.subset_append_right _ _)
    | _ => exact framed_raise _
  | .select scrutinee cases none => by
    simp only [Statement.exec, Statement.modified]
    refine .forced fuel (List.Subset.refl _) fun value => ?_
    exact execCases_framed fuel cases (framed_unmatched fuel value)
  | .select scrutinee cases (some alternative) => by
    simp only [Statement.exec, Statement.modified]
    refine .forced fuel (List.subset_append_left _ _) fun value => execCases_framed fuel cases ?_
    exact (execBlock_framed fuel alternative none).mono (List.subset_append_right _ _)
  | .define type fields => by
    simp only [Statement.exec]
    exact (framed_define type fields).bind fun _ => framed_pure none

theorem execBlock_framed (fuel : Nat) : ∀ (statements : List Statement) (result : Option Ref),
    Framed (Statement.modifiedInBlock statements) (Statement.execBlock fuel statements result)
  | [], result => by
    simp only [Statement.execBlock]
    exact framed_pure result
  | first :: rest, result => by
    simp only [Statement.execBlock, Statement.modifiedInBlock]
    refine ((exec_framed fuel first).mono (List.subset_append_left _ _)).bind fun result => ?_
    exact (execBlock_framed fuel rest result).mono (List.subset_append_right _ _)

theorem execCases_framed (fuel : Nat) {names : List String} : ∀ (cases : List (Pattern × List Statement))
    {otherwise : Eval (Option Ref)} {value : Value}, Framed names otherwise →
    Framed names (Statement.execCases fuel value otherwise cases)
  | [], otherwise, value, fallback => by
    simp only [Statement.execCases]
    exact fallback
  | (pattern, body) :: rest, otherwise, value, fallback => by
    simp only [Statement.execCases]
    cases pattern.match? value with
    | none => exact execCases_framed fuel rest fallback
    | some bindings =>
      have run : Framed (bindings.map Prod.fst ++ Statement.modifiedInBlock body) (do
          Eval.assignAll bindings
          Statement.execBlock fuel body none) :=
        (framed_assignAll bindings).bind fun _ =>
          (execBlock_framed fuel body none).mono (List.subset_append_right _ _)
      exact (framed_restoring run).mono (List.nil_subset _)

end

theorem environment_execCases (fuel : Nat) {value : Value} {otherwise : Eval (Option Ref)}
    {cases : List (Pattern × List Statement)}
    (matched : ∃ case ∈ cases, (case.1.match? value).isSome) (context : Context) :
    (endContext (Statement.execCases fuel value otherwise cases context)).environment =
      context.environment := by
  induction cases with
  | nil => simp at matched
  | cons case rest ih =>
    obtain ⟨pattern, body⟩ := case
    simp only [Statement.execCases]
    cases found : pattern.match? value with
    | none => exact ih (by simpa [found] using matched)
    | some bindings =>
      change (endContext (Eval.restoring context.environment _ context)).environment = _
      unfold Eval.restoring
      cases Bind.bind (m := Eval) (Eval.assignAll bindings) _ context <;> rfl

/-- Whether or not a statement fails, the names that do not occur in it in a place that binds them
keep their cells, the bodies of cases not counted, and no name and no record type is lost. A selection
with a case that matches has the bindings from before its body in the end. -/
theorem exec_frame (fuel : Nat) (context : Context) :
    (∀ statement : Statement,
      context.Frame statement.modified (endContext (statement.exec fuel context))) ∧
      ∀ (scrutinee : Expr) (cases : List (Pattern × List Statement))
        (alternative : Option (List Statement)) (value : Value) (context₁ : Context),
        (do Eval.force fuel (← scrutinee.delay fuel) : Eval Value) context = .ok value context₁ →
        (∃ case ∈ cases, (case.1.match? value).isSome) →
        (endContext ((Statement.select scrutinee cases alternative).exec fuel context)).environment =
          context₁.environment := by
  refine ⟨fun statement => exec_framed fuel statement context, ?_⟩
  intro scrutinee cases alternative value context₁ forced matched
  have selects : ∃ otherwise : Value → Eval (Option Ref),
      (Statement.select scrutinee cases alternative).exec fuel = (do
        let value ← (do Eval.force fuel (← scrutinee.delay fuel) : Eval Value)
        Statement.execCases fuel value (otherwise value) cases) := by
    cases alternative with
    | none => exact ⟨Eval.unmatched fuel, by rw [Statement.exec, bind_assoc]⟩
    | some block => exact ⟨fun _ => Statement.execBlock fuel block none, by rw [Statement.exec, bind_assoc]⟩
  obtain ⟨otherwise, selects⟩ := selects
  rw [selects]
  simp only [Bind.bind, EStateM.bind] at forced ⊢
  rw [forced]
  exact environment_execCases fuel matched context₁

-- A selection on `a`, moved one step, with a body that binds `a` and `b` and then fails.
def failingSelection : Statement :=
  .select (.unary .increment (.name "a"))
    [(.binding "c", [.assign "a" (.literal (.integer 5)), .assign "b" (.name "c"),
      .evaluate (.unary .decrement (.name "d"))])] none

def oneVariable : Context where
  heap := { cells := #[.forced (.integer 1)] }
  environment := Environment.set {} "a" 0

theorem exec_frame_failingSelection :
    (∃ context, failingSelection.exec 9 oneVariable =
      .error (.fault (.undefinedVariable "d")) context) ∧
      (endContext (failingSelection.exec 9 oneVariable)).environment.get? "a" = some 1 ∧
      (endContext (failingSelection.exec 9 oneVariable)).environment.get? "b" = none := by
  obtain ⟨frame, restored⟩ := exec_frame 9 oneVariable
  refine ⟨⟨_, by rfl⟩, ?_, ?_⟩
  · rw [failingSelection, restored _ _ _ (.integer 2) _ rfl (by simp [Pattern.match?])]
    decide +kernel
  · rw [(frame failingSelection).same "b" (by decide)]
    decide +kernel

end Statements

end ByNeed
