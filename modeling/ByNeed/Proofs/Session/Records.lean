import ByNeed.Proofs.Heap.Conformity
import ByNeed.Proofs.Session.History

set_option autoImplicit false

-- A record is made long after the fields of its type were looked up, when more types may have been
-- defined. Types are never lost or changed, so what conformed once conforms for the rest of the session.
namespace ByNeed

def Context.Conforms (context : Context) : Prop :=
  context.heap.Conforms context.registry

namespace Eval

def Keeps {α : Type} (context : Context) (known : Registry → α → Prop) :
    EStateM.Result Interrupt Context α → Prop
  | .ok result context' =>
    context'.Conforms ∧ context.registry.Extends context'.registry ∧ known context'.registry result
  | .error _ context' => context'.Conforms ∧ context.registry.Extends context'.registry

def Upholds {α : Type} (registry : Registry) (known : Registry → α → Prop) (computation : Eval α) :
    Prop :=
  ∀ context : Context, context.Conforms → registry.Extends context.registry →
    Keeps context known (computation context)

def anything {α : Type} (_ : Registry) (_ : α) : Prop :=
  True

section Primitives

variable {α β : Type} {registry : Registry} {known : Registry → α → Prop}
  {known' : Registry → β → Prop} {computation : Eval α}

theorem Upholds.bind {next : α → Eval β} (first : Upholds registry known computation)
    (second : ∀ result registry', registry.Extends registry' → known registry' result →
      Upholds registry' known' (next result)) : Upholds registry known' (computation >>= next) := by
  intro context conforms defined
  have here := first context conforms defined
  simp only [Bind.bind, EStateM.bind]
  cases ran : computation context with
  | error interrupt context₁ =>
    rw [ran] at here
    exact here
  | ok result context₁ =>
    rw [ran] at here
    obtain ⟨conforms₁, kept, holds⟩ := here
    have later := second result context₁.registry (defined.trans kept) holds context₁ conforms₁
      (.refl _)
    simp only
    generalize next result context₁ = ending at later
    cases ending with
    | ok result context₂ => exact ⟨later.1, kept.trans later.2.1, later.2.2⟩
    | error interrupt context₂ => exact ⟨later.1, kept.trans later.2⟩

theorem upholds_pure {result : α} : Upholds registry anything (pure result : Eval α) :=
  fun _ conforms _ => ⟨conforms, .refl _, trivial⟩

theorem upholds_raise (fault : Fault) : Upholds registry known (raise fault : Eval α) :=
  fun _ conforms _ => ⟨conforms, .refl _⟩

theorem upholds_get : Upholds registry (fun registry' found => found.registry = registry') get :=
  fun _ conforms _ => ⟨conforms, .refl _, rfl⟩

theorem upholds_lookup (id : String) : Upholds registry anything (lookup? id) :=
  fun _ conforms _ => ⟨conforms, .refl _, trivial⟩

theorem upholds_assign (id : String) (ref : Ref) : Upholds registry anything (Eval.assign id ref) :=
  fun _ conforms _ => ⟨conforms, .refl _, trivial⟩

theorem upholds_print (text : String) : Upholds registry anything (print text) :=
  fun _ conforms _ => ⟨conforms, .refl _, trivial⟩

theorem upholds_display (fuel : Nat) (value : Value) :
    Upholds registry anything (display fuel value) := by
  intro context conforms _
  unfold display
  cases context.heap.display fuel value with
  | none => exact ⟨conforms, .refl _⟩
  | some text => exact ⟨conforms, .refl _, trivial⟩

theorem upholds_define (type : String) (fields : List String) :
    Upholds registry anything (define type fields) := by
  intro context conforms _
  unfold define
  cases defined : context.registry.define type fields with
  | error fault => exact ⟨conforms, .refl _⟩
  | ok registry' =>
    have later := Registry.extends_define defined
    exact ⟨conforms.mono later, later, trivial⟩

theorem upholds_restoring {bindings : Environment} (body : Upholds registry known computation) :
    Upholds registry known (restoring bindings computation) := by
  intro context conforms defined
  have here := body context conforms defined
  unfold restoring
  generalize computation context = ending at here
  cases ending <;> exact here

theorem upholds_onHeap {computation : HeapM Task α}
    (keeps : ∀ registry' heap, registry.Extends registry' → heap.Conforms registry' →
      Heap.Upholds (Cell.Conforms registry') (known registry') (computation heap)) :
    Upholds registry known (onHeap computation) := by
  intro context conforms defined
  have here := keeps context.registry context.heap defined conforms
  unfold onHeap
  simp only
  generalize computation context.heap = ending at here
  cases ending with
  | ok result heap => exact ⟨here.1, .refl _, here.2⟩
  | error interrupt heap => exact ⟨here, .refl _⟩

theorem upholds_force (fuel : Nat) (ref : Ref) : Upholds registry Value.Conforms (force fuel ref) :=
  upholds_onHeap fun _ _ _ conforms => Heap.force_upholds (Heap.conforms_robust _) fuel ref conforms

theorem upholds_forceDeep (fuel : Nat) (ref : Ref) :
    Upholds registry Value.Conforms (forceDeep fuel ref) :=
  upholds_onHeap fun _ _ _ conforms => Heap.forceDeep_upholds (Heap.conforms_robust _) fuel ref conforms

theorem upholds_alloc {cell : Cell Task} (proper : cell.Conforms registry) :
    Upholds registry anything (alloc cell) :=
  upholds_onHeap fun _ _ later conforms =>
    ⟨Heap.good_push (Heap.conforms_robust _) conforms (proper.mono later), trivial⟩

theorem upholds_alloc_forced {value : Value} (proper : value.Conforms registry) :
    Upholds registry anything (alloc (.forced value)) :=
  upholds_alloc proper

theorem upholds_reassign (id : String) {value : Value} (proper : value.Conforms registry) :
    Upholds registry anything (reassign id value) := by
  unfold reassign
  refine upholds_get.bind fun found registry₁ later _ => ?_
  split
  · refine (upholds_alloc_forced (proper.mono later)).bind fun ref _ _ _ => ?_
    exact upholds_assign id ref
  · exact upholds_raise _

end Primitives

section Expressions

variable {registry : Registry}

theorem upholds_suspend {inputs : List Ref} {task : Task} (bare : task.held = [])
    (makes : task.Makes registry) : Upholds registry anything (alloc (.pending inputs task)) :=
  upholds_alloc (Cell.conforms_pending bare makes)

theorem upholds_step (fuel : Nat) (op : UnaryOp) (operand : Expr) :
    Upholds registry anything (step fuel op operand) := by
  cases operand with
  | name id =>
    unfold step
    refine (upholds_lookup id).bind fun found _ _ _ => ?_
    cases found with
    | none => exact upholds_raise _
    | some current =>
      refine (upholds_force fuel current).bind fun value _ _ _ => ?_
      cases applied : op.apply value with
      | error fault => exact upholds_raise fault
      | ok updated =>
        have single := op.apply_single value updated applied
        refine (upholds_reassign id (Value.conforms_of_isSingle single)).bind fun _ _ _ _ => ?_
        exact upholds_alloc_forced (Value.conforms_of_isSingle single)
  | _ => exact upholds_raise _

-- Two operands are delayed, from left to right, and a task waits for them.
theorem Upholds.pair {first second : Eval Ref} {cell : Ref → Ref → Cell Task}
    (left : Upholds registry anything first) (right : ∀ registry, Upholds registry anything second)
    (proper : ∀ registry ref ref', (cell ref ref').Conforms registry) :
    Upholds registry anything (do alloc (cell (← first) (← second))) :=
  left.bind fun ref _ _ _ => (right _).bind fun ref' _ _ _ => upholds_alloc (proper _ ref ref')

mutual

theorem upholds_delay (fuel : Nat) : ∀ (expr : Expr) (registry : Registry),
    Upholds registry anything (expr.delay fuel)
  | .literal value, _ => by
    rw [Expr.delay]
    exact upholds_alloc_forced (Value.conforms_of_isSingle (by cases value <;> rfl))
  | .name id, _ => by
    rw [Expr.delay]
    refine (upholds_lookup id).bind fun found _ _ _ => ?_
    cases found with
    | none => exact upholds_suspend rfl trivial
    | some ref => exact upholds_pure
  | .list elements, registry => by
    rw [Expr.delay]
    refine (upholds_delayAll fuel elements registry).bind fun refs _ _ _ => ?_
    exact upholds_alloc_forced (Value.conforms_list refs)
  | .index collection position, registry => by
    rw [Expr.delay]
    refine (upholds_delay fuel collection registry).pair (upholds_delay fuel position) ?_
    exact fun _ _ _ => Cell.conforms_pending rfl trivial
  | .create type arguments, registry => by
    rw [Expr.delay]
    refine (upholds_delayAll fuel arguments registry).bind fun refs _ _ _ => ?_
    refine upholds_get.bind fun found registry₁ _ same => ?_
    cases defined : found.registry.fields? type with
    | none => exact upholds_suspend rfl trivial
    | some fields => exact upholds_suspend rfl (same ▸ defined)
  | .member object field, registry => by
    rw [Expr.delay]
    refine (upholds_delay fuel object registry).bind fun ref _ _ _ => ?_
    exact upholds_suspend rfl trivial
  | .unary op operand, registry => by
    have suspended : Upholds registry anything (do
        let operand ← operand.delay fuel
        alloc (.pending [operand] (.unary op))) :=
      (upholds_delay fuel operand registry).bind fun _ _ _ _ => upholds_suspend rfl trivial
    cases op with
    | increment =>
      rw [Expr.delay]
      exact upholds_step fuel .increment operand
    | decrement =>
      rw [Expr.delay]
      exact upholds_step fuel .decrement operand
    | plus | minus | negation => simpa only [Expr.delay] using suspended
  | .arithmetic op left right, registry => by
    rw [Expr.delay]
    refine (upholds_delay fuel left registry).pair (upholds_delay fuel right) ?_
    exact fun _ _ _ => Cell.conforms_pending rfl trivial
  | .logical op left right, registry => by
    rw [Expr.delay]
    refine (upholds_delay fuel left registry).pair (upholds_delay fuel right) ?_
    exact fun _ _ _ => Cell.conforms_pending rfl trivial
  | .comparison op left right, registry => by
    rw [Expr.delay]
    refine (upholds_delay fuel left registry).pair (upholds_delay fuel right) ?_
    exact fun _ _ _ => Cell.conforms_pending rfl trivial

theorem upholds_delayAll (fuel : Nat) : ∀ (exprs : List Expr) (registry : Registry),
    Upholds registry anything (Expr.delayAll fuel exprs)
  | [], _ => by
    rw [Expr.delayAll]
    exact upholds_pure
  | first :: rest, registry => by
    rw [Expr.delayAll]
    refine (upholds_delay fuel first registry).bind fun _ registry₁ _ _ => ?_
    exact (upholds_delayAll fuel rest registry₁).bind fun _ _ _ _ => upholds_pure

end

-- An expression is delayed and forced at once.
theorem Upholds.forced {α : Type} {known : Registry → α → Prop} {next : Value → Eval α} (fuel : Nat)
    (expr : Expr) (second : ∀ value registry', registry.Extends registry' → value.Conforms registry' →
      Upholds registry' known (next value)) :
    Upholds registry known (do next (← force fuel (← expr.delay fuel))) := by
  refine (upholds_delay fuel expr registry).bind fun ref registry₁ later _ => ?_
  refine (upholds_force fuel ref).bind fun value registry₂ later' conforms => ?_
  exact second value registry₂ (later.trans later') conforms

end Expressions

section Statements

variable {registry : Registry}

theorem upholds_assignAll (bindings : List (String × Value))
    (proper : ∀ binding ∈ bindings, binding.2.Conforms registry) :
    Upholds registry anything (assignAll bindings) := by
  induction bindings generalizing registry with
  | nil => exact upholds_pure
  | cons binding rest ih =>
    rw [List.forall_mem_cons] at proper
    refine (upholds_alloc_forced proper.1).bind fun ref _ later _ => ?_
    refine (upholds_assign binding.1 ref).bind fun _ _ later' _ => ?_
    exact ih fun other member => (proper.2 other member).mono (later.trans later')

theorem upholds_unmatched (fuel : Nat) {value : Value} (proper : value.Conforms registry) :
    Upholds registry anything (unmatched fuel value) := by
  unfold unmatched
  refine (upholds_alloc_forced proper).bind fun ref _ _ _ => ?_
  refine (upholds_forceDeep fuel ref).bind fun value _ _ _ => ?_
  exact (upholds_display fuel value).bind fun _ _ _ _ => upholds_raise _

theorem upholds_forEach (id : String) {body : Eval (Option Ref)}
    (once : ∀ registry, Upholds registry anything body) (elements : List Ref) (result : Option Ref) :
    Upholds registry anything (forEach id body elements result) := by
  induction elements generalizing registry result with
  | nil => exact upholds_pure
  | cons element rest ih =>
    have delegated : (Cell.delegated element : Cell Task).Conforms registry := trivial
    refine (upholds_alloc delegated).bind fun ref _ _ _ => ?_
    refine (upholds_assign id ref).bind fun _ _ _ _ => ?_
    exact (once _).bind fun result _ _ _ => ih result

mutual

theorem upholds_exec (fuel : Nat) : ∀ (statement : Statement) (registry : Registry),
    Upholds registry anything (statement.exec fuel)
  | .assign id value, registry => by
    rw [Statement.exec]
    refine (upholds_delay fuel value registry).bind fun ref _ _ _ => ?_
    exact (upholds_assign id ref).bind fun _ _ _ _ => upholds_pure
  | .print value, registry => by
    rw [Statement.exec]
    refine (upholds_delay fuel value registry).bind fun ref _ _ _ => ?_
    refine (upholds_forceDeep fuel ref).bind fun value _ _ proper => ?_
    refine (upholds_display fuel value).bind fun text _ later _ => ?_
    refine (upholds_print text).bind fun _ _ later' _ => ?_
    have proper' := proper.mono (later.trans later')
    exact (upholds_alloc_forced proper').bind fun _ _ _ _ => upholds_pure
  | .branch condition consequence none, registry => by
    rw [Statement.exec]
    refine .forced fuel condition fun value registry₁ _ _ => ?_
    split
    · exact upholds_execBlock fuel consequence none registry₁
    · exact upholds_pure
  | .branch condition consequence (some alternative), registry => by
    rw [Statement.exec]
    refine .forced fuel condition fun value registry₁ _ _ => ?_
    split
    · exact upholds_execBlock fuel consequence none registry₁
    · exact upholds_execBlock fuel alternative none registry₁
  | .iterate id items body, registry => by
    rw [Statement.exec]
    refine .forced fuel items fun value registry₁ _ _ => ?_
    cases value with
    | list elements => exact upholds_forEach id (upholds_execBlock fuel body none) elements none
    | _ => exact upholds_raise _
  | .select scrutinee cases none, registry => by
    rw [Statement.exec]
    refine .forced fuel scrutinee fun value registry₁ _ proper => ?_
    exact upholds_execCases fuel cases registry₁ proper (upholds_unmatched fuel proper)
  | .select scrutinee cases (some alternative), registry => by
    rw [Statement.exec]
    refine .forced fuel scrutinee fun value registry₁ _ proper => ?_
    have fallback := upholds_execBlock fuel alternative none registry₁
    exact upholds_execCases fuel cases registry₁ proper fallback
  | .define type fields, registry => by
    rw [Statement.exec]
    exact (upholds_define type fields).bind fun _ _ _ _ => upholds_pure
  | .evaluate value, registry => by
    rw [Statement.exec]
    exact (upholds_delay fuel value registry).bind fun _ _ _ _ => upholds_pure

theorem upholds_execBlock (fuel : Nat) : ∀ (statements : List Statement) (result : Option Ref)
    (registry : Registry), Upholds registry anything (Statement.execBlock fuel statements result)
  | [], _, _ => by
    rw [Statement.execBlock]
    exact upholds_pure
  | first :: rest, _, registry => by
    rw [Statement.execBlock]
    refine (upholds_exec fuel first registry).bind fun result registry₁ _ _ => ?_
    exact upholds_execBlock fuel rest result registry₁

theorem upholds_execCases (fuel : Nat) : ∀ (cases : List (Pattern × List Statement))
    {otherwise : Eval (Option Ref)} {value : Value} (registry : Registry), value.Conforms registry →
    Upholds registry anything otherwise →
    Upholds registry anything (Statement.execCases fuel value otherwise cases)
  | [], _, _, _, _, fallback => by
    rw [Statement.execCases]
    exact fallback
  | (pattern, body) :: rest, otherwise, value, registry, proper, fallback => by
    rw [Statement.execCases]
    cases matched : pattern.match? value with
    | none => exact upholds_execCases fuel rest registry proper fallback
    | some bindings =>
      refine upholds_get.bind fun found registry₁ later _ => upholds_restoring ?_
      have proper' : ∀ binding ∈ bindings, binding.2.Conforms registry₁ := by
        intro binding member
        rw [value_of_match? matched binding member]
        exact proper.mono later
      refine (upholds_assignAll bindings proper').bind fun _ registry₂ _ _ => ?_
      exact upholds_execBlock fuel body none registry₂

end

end Statements

theorem upholds_perform (fuel : Nat) (action : Action) (registry : Registry) :
    Upholds registry anything (action.perform fuel) := by
  cases action with
  | run program => exact upholds_execBlock fuel program.statements none registry
  | force ref => exact (upholds_force fuel ref).bind fun _ _ _ _ => upholds_pure
  | forceDeep ref => exact (upholds_forceDeep fuel ref).bind fun _ _ _ _ => upholds_pure

end Eval

namespace Session

-- A cell holds the value or its task has captured it, alone or somewhere in a record.
def Holds (session : Session) (value : Value) : Prop :=
  ∃ ref, ∃ held ∈ (session.context.heap.get ref).held, value.Within held

structure Conformity (session session' : Session) : Prop where
  registered : ∀ type fields, session.Holds (.record type fields) →
    session'.context.registry.fields? type = some (fields.map Prod.fst)
  -- The equality of two records of one type hangs on the values of their fields.
  parts : ∀ type left right, session.Holds (.record type left) → session.Holds (.record type right) →
    (Value.record type left).parts? (.record type right) =
      some (List.zipWith .values (left.map Prod.snd) (right.map Prod.snd))
  compared : ∀ type left right type' left' right',
    session.Holds (.record type left) → session.Holds (.record type right) →
    session.Holds (.record type' left') → session.Holds (.record type' right') →
    left.map Prod.snd = left'.map Prod.snd → right.map Prod.snd = right'.map Prod.snd →
    (∀ op, Task.compare op (.record type left) (.record type right) =
      Task.compare op (.record type' left') (.record type' right')) ∧
    ∀ fuel negated, HeapM.equality fuel negated (.record type left) (.record type right) =
      HeapM.equality fuel negated (.record type' left') (.record type' right')
  -- A declared field can be accessed, and the first one of its name is the one that is found.
  accessed : ∀ type fields declared name, session.Holds (.record type fields) →
    session'.context.registry.fields? type = some declared → name ∈ declared →
    ∃ value, (fields.map Prod.snd)[declared.idxOf name]? = some value ∧
      Task.run (.member name) [.record type fields] = .done value ∧
      ∀ heap : Heap Task, ∀ ref object, heap.get ref = .pending [object] (.member name) →
        heap.settled? object = some (.ok (.record type fields)) →
        ∃ heap', Eventually (fun fuel => Heap.force Task.run fuel ref) heap (.ok value heap')

variable {session session' : Session}

theorem conforms_empty : Context.Conforms (Session.context {}) := by
  intro ref
  rw [Heap.get_outside (Nat.zero_le ref)]
  trivial

theorem Step.conforms (step : Step session session') (conforms : session.context.Conforms) :
    session'.context.Conforms ∧ session.context.registry.Extends session'.context.registry := by
  cases step with
  | @act fuel action inside =>
    have kept := Eval.upholds_perform fuel action session.context.registry session.context conforms
      (.refl _)
    unfold after
    generalize action.perform fuel session.context = ending at kept
    cases ending with
    | ok result context => exact ⟨kept.1, kept.2.1⟩
    | error interrupt context => exact kept

theorem Steps.conforms (steps : Steps session session') (conforms : session.context.Conforms) :
    session'.context.Conforms ∧ session.context.registry.Extends session'.context.registry := by
  induction steps with
  | refl => exact ⟨conforms, .refl _⟩
  | tail _ step ih =>
    have later := step.conforms ih.1
    exact ⟨later.1, ih.2.trans later.2⟩

theorem Holds.conforms {value : Value} (holds : session.Holds value)
    (conforms : session.context.Conforms) : value.Conforms session.context.registry := by
  obtain ⟨ref, held, member, within⟩ := holds
  exact ((conforms ref).of_held held member).within within

/-- The records of a session conform to the record types that are defined, then and for the rest of
the session. -/
theorem records_conform (reachable : session.Reachable) (steps : Steps session session') :
    Conformity session session' := by
  have conforms := (Steps.conforms reachable conforms_empty).1
  have later := (steps.conforms conforms).2
  have known {value : Value} (holds : session.Holds value) := holds.conforms conforms
  have registered : ∀ type fields, session.Holds (.record type fields) →
      session'.context.registry.fields? type = some (fields.map Prod.fst) :=
    fun type fields holds => later type _ (known holds type fields .self)
  refine ⟨registered, ?_, ?_, ?_⟩
  · intro type left right first second
    exact parts?_record (known first) (known second)
  · intro type left right type' left' right' first second first' second' sameLeft sameRight
    have found := parts?_record (known first) (known second)
    have found' := parts?_record (known first') (known second')
    rw [← sameLeft, ← sameRight] at found'
    constructor
    · intro op
      cases op with
      | less | greater => rfl
      | equal | notEqual => exact comparePairs_record _ found found'
    · intro fuel negated
      simp only [HeapM.equality, comparePairs_record negated found found']
  · intro type fields declared name holds defined member
    cases (registered type fields holds).symm.trans defined
    obtain ⟨value, place, accessed⟩ := @run_member type name fields member
    refine ⟨value, place, accessed, ?_⟩
    intro heap ref object cell settled
    exact force_member cell settled accessed

-- A record type that is defined in the body of an iteration, and a record of it.
def points : Program where
  statements :=
    [.iterate "i" (.list [.literal (.boolean true)]) [.define "point" ["x", "y"]],
      .evaluate (.create "point" [.literal (.integer 1), .literal (.integer 2)])]

-- The record is made, in the cell that the program led to.
def pointed : Session :=
  (Session.after {} 9 (.run points)).after 9 (.force 5)

-- The type is to be defined once more, which fails.
def repointed : Session :=
  pointed.after 9 (.run ⟨[.define "point" ["z"]]⟩)

theorem records_conform_repointed :
    Reachable pointed ∧ Steps pointed repointed ∧
      pointed.Holds (.record "point" [("x", .integer 1), ("y", .integer 2)]) ∧
      repointed.context.registry.fields? "point" = some ["x", "y"] ∧
      Task.run (.member "y") [.record "point" [("x", .integer 1), ("y", .integer 2)]] =
        .done (.integer 2) := by
  have inside : (Action.force 5).Inside (Session.after {} 9 (.run points)).context.heap := by
    simp only [Action.Inside, Heap.Has]
    decide +kernel
  have ran : Steps {} (Session.after {} 9 (.run points)) := .single (.act trivial)
  have reachable : Reachable pointed := ran.tail (.act inside)
  have steps : Steps pointed repointed := .single (.act trivial)
  have cell : pointed.context.heap.get 5 =
      .forced (.record "point" [("x", .integer 1), ("y", .integer 2)]) := rfl
  have holds : pointed.Holds (.record "point" [("x", .integer 1), ("y", .integer 2)]) :=
    ⟨5, _, by rw [cell]; exact List.mem_singleton_self _, .self⟩
  have conformity := records_conform reachable steps
  have defined := conformity.registered _ _ holds
  obtain ⟨value, place, accessed, -⟩ := conformity.accessed _ _ _ "y" holds defined (by simp)
  obtain rfl : Value.integer 2 = value := Option.some.inj place
  exact ⟨reachable, steps, holds, defined, accessed⟩

end Session

end ByNeed
