import ByNeed.Proofs.Heap.Deep
import ByNeed.Proofs.Heap.Task
import ByNeed.Proofs.Strict.Evaluator

set_option autoImplicit false

-- A context represents a state if every name is bound to a cell that is promised the outcome to which the
-- state binds the name. Each primitive of the one machine keeps this while the other machine does the
-- corresponding thing. Cells made on the way, also while a cell is forced, add to what is promised.
namespace ByNeed

namespace Plan

variable {plan plan' : Plan Promise} {ref : Ref} {outcome : Complete} {value : Value} {tree : Tree}

def Denotes (plan : Plan Promise) (ref : Ref) (outcome : Complete) : Prop :=
  ∃ promise, plan.Promises ref promise ∧ promise.complete = outcome

def Stands (plan : Plan Promise) (value : Value) (tree : Tree) : Prop :=
  Reading.Knows plan value ∧ value.tree plan.meaning = tree

theorem Denotes.extend (denotes : plan.Denotes ref outcome) (extends' : plan.Extends plan') :
    plan'.Denotes ref outcome := by
  obtain ⟨promise, promises, complete⟩ := denotes
  exact ⟨promise, promises.extend extends', complete⟩

theorem Denotes.meaning (denotes : plan.Denotes ref outcome) : plan.meaning ref = outcome := by
  obtain ⟨promise, promises, complete⟩ := denotes
  exact promises.meaning.trans complete

theorem Denotes.has (denotes : plan.Denotes ref outcome) : plan.Has ref := by
  obtain ⟨promise, promises, _⟩ := denotes
  exact ⟨promise, promises⟩

theorem Stands.extend (stands : plan.Stands value tree) (extends' : plan.Extends plan') :
    plan'.Stands value tree :=
  ⟨stands.1.extend extends', (stands.1.tree extends').trans stands.2⟩

theorem map_meaning {refs : List Ref} {outcomes : List Complete} (all : List.Forall₂ plan.Denotes refs outcomes) :
    refs.map plan.meaning = outcomes := by
  induction all with
  | nil => rfl
  | cons first _ ih => rw [List.map_cons, first.meaning, ih]

theorem knows_list {refs : List Ref} {outcomes : List Complete} (all : List.Forall₂ plan.Denotes refs outcomes) :
    Reading.Knows plan (.list refs) := by
  unfold Reading.Knows
  simp only [Value.refs]
  induction all with
  | nil => nofun
  | cons first _ ih => exact List.forall_mem_cons.mpr ⟨first.has, ih⟩

def Leads (plan : Plan Promise) : Option Ref → Option Complete → Prop :=
  Option.Rel plan.Denotes

theorem Leads.extend {found : Option Ref} {outcome : Option Complete} (leads : plan.Leads found outcome)
    (extends' : plan.Extends plan') : plan'.Leads found outcome := by
  cases leads with
  | none => exact .none
  | some denotes => exact .some (denotes.extend extends')

theorem Stands.elements {refs : List Ref} (stands : plan.Stands (.list refs) tree) :
    tree = .list (refs.map plan.meaning) ∧ List.Forall₂ plan.Denotes refs (refs.map plan.meaning) := by
  refine ⟨stands.2.symm, ?_⟩
  rw [List.forall₂_map_right_iff, List.forall₂_same]
  intro ref member
  obtain ⟨promise, promises⟩ := stands.1 ref member
  exact ⟨promise, promises, promises.meaning.symm⟩

end Plan

theorem Environment.get?_set (environment : Environment) (id : String) (ref : Ref)
    (other : String) :
    (environment.set id ref).get? other = if id = other then some ref else environment.get? other := by
  simp [Environment.set, Environment.get?, Std.TreeMap.getElem?_insert]

-- The context and the state agree on everything that a program can find out.
structure Context.Represents (context : Context) (plan : Plan Promise) (state : Strict.State) : Prop where
  holds : Task.reading.terms.Holds plan context.heap
  total : plan.Total
  bindings : ∀ id, plan.Leads (context.environment.get? id) (state.bindings id)
  registry : context.registry = state.registry
  output : context.output = state.output

-- A computation on fuel leads, with enough of it, to what the other machine led to.
inductive Simulates {α β : Type} (context : Context) (plan : Plan Promise) (computation : Nat → Eval α)
    (related : Plan Promise → α → β → Prop) : EStateM.Result Fault Strict.State β → Prop
  | ok {result : α} {result' : β} {context' : Context} {plan' : Plan Promise} {state' : Strict.State}
    (run : Eventually computation context (.ok result context'))
    (represents : context'.Represents plan' state') (extends' : plan.Extends plan')
    (same : related plan' result result') : Simulates context plan computation related (.ok result' state')
  | error {fault : Fault} {context' : Context} {plan' : Plan Promise} {state' : Strict.State}
    (run : Eventually computation context (.error (.fault fault) context'))
    (represents : context'.Represents plan' state') (extends' : plan.Extends plan') :
    Simulates context plan computation related (.error fault state')

section

variable {α β γ δ : Type} {context : Context} {plan : Plan Promise} {state : Strict.State}
  {related : Plan Promise → α → β → Prop} {related' : Plan Promise → γ → δ → Prop}

theorem Simulates.bind {computation : Nat → Eval α} {next : Nat → α → Eval γ}
    {reference : Strict.Exec β} {next' : β → Strict.Exec δ}
    (first : Simulates context plan computation related (reference state))
    (second : ∀ result result' context' plan' state', context'.Represents plan' state' →
      plan.Extends plan' → related plan' result result' →
      Simulates context' plan' (fun fuel => next fuel result) related' (next' result' state')) :
    Simulates context plan (fun fuel => computation fuel >>= next fuel) related'
      ((reference >>= next') state) := by
  cases found : reference state with
  | ok result' state' =>
    have bound : (reference >>= next') state = next' result' state' := by
      simp only [Bind.bind, EStateM.bind, found]
    rw [found] at first
    rw [bound]
    cases first with
    | ok run represents extends' same =>
      have later := second _ _ _ _ _ represents extends' same
      generalize next' result' state' = outcome at later
      cases later with
      | ok run' represents' extends'' same' =>
        exact .ok (run.bind run') represents' (extends'.trans extends'') same'
      | error run' represents' extends'' =>
        exact .error (run.bind run') represents' (extends'.trans extends'')
  | error fault state' =>
    have bound : (reference >>= next') state = .error fault state' := by
      simp only [Bind.bind, EStateM.bind, found]
    rw [found] at first
    rw [bound]
    cases first with
    | error run represents extends' => exact .error run.bind_error represents extends'

theorem Simulates.pure {result : α} {result' : β} (represents : context.Represents plan state)
    (same : related plan result result') :
    Simulates context plan (fun _ => Pure.pure result) related
      ((Pure.pure result' : Strict.Exec β) state) :=
  .ok (eventually_of_forall fun _ => rfl) represents (.refl plan) same

theorem Simulates.raise (fault : Fault) (represents : context.Represents plan state) :
    Simulates context plan (fun _ => (Eval.raise fault : Eval α)) related
      ((throw fault : Strict.Exec β) state) :=
  .error (eventually_of_forall fun _ => rfl) represents (.refl plan)

-- A computation of one machine alone goes before the rest.
theorem Simulates.after {computation : Nat → Eval α} {next : Nat → α → Eval γ} {result : α}
    {context' : Context} {plan' : Plan Promise} {outcome : EStateM.Result Fault Strict.State δ}
    (run : Eventually computation context (.ok result context')) (extends' : plan.Extends plan')
    (later : Simulates context' plan' (fun fuel => next fuel result) related' outcome) :
    Simulates context plan (fun fuel => computation fuel >>= next fuel) related' outcome := by
  cases later with
  | ok run' represents' extends'' same =>
    exact .ok (run.bind run') represents' (extends'.trans extends'') same
  | error run' represents' extends'' =>
    exact .error (run.bind run') represents' (extends'.trans extends'')

theorem eventually_onHeap {computation : Nat → HeapM Task α} {heap' : Heap Task} {result : α}
    (run : Eventually computation context.heap (.ok result heap')) :
    Eventually (fun fuel => Eval.onHeap (computation fuel)) context
      (.ok result { context with heap := heap' }) := by
  obtain ⟨bound, run⟩ := run
  refine ⟨bound, fun fuel enough => ?_⟩
  simp only [Eval.onHeap, run fuel enough]

theorem eventually_onHeap_error {computation : Nat → HeapM Task α} {heap' : Heap Task}
    {interrupt : Interrupt} (run : Eventually computation context.heap (.error interrupt heap')) :
    Eventually (fun fuel => Eval.onHeap (computation fuel)) context
      (.error interrupt { context with heap := heap' }) := by
  obtain ⟨bound, run⟩ := run
  refine ⟨bound, fun fuel enough => ?_⟩
  simp only [Eval.onHeap, run fuel enough]

theorem Context.Represents.onHeap {plan' : Plan Promise} {heap' : Heap Task}
    (represents : context.Represents plan state)
    (grows : Task.reading.terms.Grows plan context.heap plan' heap') :
    Represents { context with heap := heap' } plan' state where
  holds := grows.holds
  total := represents.total.extend grows.extends'
  bindings id := (represents.bindings id).extend grows.extends'
  registry := represents.registry
  output := represents.output

theorem alloc_eventually (cell : Cell Task) :
    Eventually (fun _ => Eval.alloc cell) context
      (.ok context.heap.cells.size { context with heap := context.heap.push cell }) :=
  eventually_of_forall fun _ => rfl

-- The address of a new cell is the size of the plan, which is that of the heap.
theorem alloc_grows {cell : Cell Task} {outcome : Complete} (represents : context.Represents plan state)
    (idle : cell ≠ .running) (known : ∀ ref ∈ Task.reading.links cell, plan.Has ref)
    (same : Task.reading.outcome plan.meaning cell = outcome) :
    ∃ plan', Task.reading.terms.Grows plan context.heap plan' (context.heap.push cell) ∧
      plan'.Denotes context.heap.cells.size outcome := by
  obtain ⟨promise, keeps⟩ := Reading.exists_keeps idle known
  refine ⟨plan.push promise, represents.holds.push Task.describes.honoured keeps, promise, ?_, keeps.outcome.symm.trans same⟩
  rw [← represents.holds.size]
  exact plan.promises_push promise

theorem alloc_simulates {cell : Cell Task} {outcome : Complete}
    (represents : context.Represents plan state) (idle : cell ≠ .running)
    (known : ∀ ref ∈ Task.reading.links cell, plan.Has ref)
    (same : Task.reading.outcome plan.meaning cell = outcome) :
    Simulates context plan (fun _ => Eval.alloc cell) Plan.Denotes
      ((pure outcome : Strict.Exec Complete) state) := by
  obtain ⟨plan', grows, denotes⟩ := alloc_grows represents idle known same
  exact .ok (alloc_eventually cell) (represents.onHeap grows) grows.extends' denotes

theorem Plan.Stands.alloc {value : Value} {tree : Tree} (stands : plan.Stands value tree)
    (represents : context.Represents plan state) :
    ∃ plan', Task.reading.terms.Grows plan context.heap plan' (context.heap.push (.forced value)) ∧
      plan'.Denotes context.heap.cells.size (.ok tree) :=
  alloc_grows represents (by simp) stands.1 (congrArg Except.ok stands.2)

theorem force_simulates {ref : Ref} {outcome : Complete} (represents : context.Represents plan state)
    (denotes : plan.Denotes ref outcome) :
    Simulates context plan (fun fuel => Eval.force fuel ref) Plan.Stands
      (Strict.Exec.demand outcome state) := by
  obtain ⟨promise, promises, rfl⟩ := denotes
  obtain ⟨found, plan', heap', forced, grows, _, _, complete, knows⟩ :=
    Reading.force_eventually Task.describes represents.holds promises
  have represents' := represents.onHeap grows
  rw [← complete]
  cases found with
  | error fault => exact .error (eventually_onHeap_error forced) represents' grows.extends'
  | ok value => exact .ok (eventually_onHeap forced) represents' grows.extends' ⟨knows value rfl, rfl⟩

-- What follows may rely on all cells inside the value being settled.
theorem forceDeep_simulates {ref : Ref} {outcome : Complete} {next : Nat → Value → Eval γ}
    {next' : Tree → Strict.Exec δ} (represents : context.Represents plan state)
    (denotes : plan.Denotes ref outcome)
    (later : ∀ value tree context' plan', context'.Represents plan' state → plan.Extends plan' →
      plan'.Stands value tree → context'.heap.Full value →
      Simulates context' plan' (fun fuel => next fuel value) related' (next' tree state)) :
    Simulates context plan (fun fuel => Eval.forceDeep fuel ref >>= next fuel) related'
      ((Strict.Exec.demandDeep outcome >>= next') state) := by
  obtain ⟨promise, promises, rfl⟩ := denotes
  obtain ⟨found, plan', heap', ended, grows, _, forced⟩ :=
    Reading.forceDeep_eventually Task.describes represents.holds promises
  have represents' := represents.onHeap grows
  cases ended with
  | failed complete =>
    rw [complete]
    exact .error (eventually_onHeap_error forced).bind_error represents' grows.extends'
  | @deepFailed tree fault complete found =>
    have demanded : (Strict.Exec.demandDeep (.ok tree) >>= next') state = .error fault state := by
      simp [Strict.Exec.demandDeep, Strict.Exec.demand, Bind.bind, EStateM.bind, Pure.pure,
        EStateM.pure, found, throw, throwThe, MonadExceptOf.throw, EStateM.throw]
    rw [complete, demanded]
    exact .error (eventually_onHeap_error forced).bind_error represents' grows.extends'
  | @full value complete none knows _ full =>
    have demanded : (Strict.Exec.demandDeep (.ok (value.tree plan'.meaning)) >>= next') state =
        next' (value.tree plan'.meaning) state := by
      simp [Strict.Exec.demandDeep, Strict.Exec.demand, Bind.bind, EStateM.bind, Pure.pure,
        EStateM.pure, none]
    rw [complete, demanded]
    exact .after (eventually_onHeap forced) grows.extends'
      (later value _ _ plan' represents' grows.extends' ⟨knows, rfl⟩ full)

theorem display_eventually {value : Value} {tree : Tree} (represents : context.Represents plan state)
    (stands : plan.Stands value tree) (full : context.heap.Full value) :
    Eventually (fun fuel => Eval.display fuel value) context (.ok (tree.text false) context) := by
  have settled (ref : Ref) (held : Value) (known : context.heap.settled? ref = some (.ok held)) :
      plan.meaning ref = .ok (held.tree plan.meaning) := by
    have inside : ref < plan.size := by
      rw [represents.holds.size]
      exact Heap.inside_of_settled (by simp [Heap.isSettled, known])
    obtain ⟨promise, promises⟩ := represents.total ref inside
    rw [promises.meaning, ← Reading.keeps_ofOutcome (represents.holds.promised promises known)]
    rfl
  obtain ⟨bound, displayed⟩ := (full.writes settled false).display
  refine ⟨bound, fun fuel enough => ?_⟩
  simp only [Eval.display, displayed fuel enough, stands.2]

theorem Context.Represents.assign {ref : Ref} {outcome : Complete}
    (represents : context.Represents plan state) (id : String) (denotes : plan.Denotes ref outcome) :
    Represents { context with environment := context.environment.set id ref } plan
      { state with bindings := Function.update state.bindings id (some outcome) } := by
  refine ⟨represents.holds, represents.total, fun other => ?_, represents.registry, represents.output⟩
  by_cases same : id = other
  · subst same
    simp only [Environment.get?_set, if_true, Function.update_self]
    exact .some denotes
  · simpa [Environment.get?_set, same, Function.update_of_ne (Ne.symm same)] using represents.bindings other

theorem assign_simulates {ref : Ref} {outcome : Complete} (id : String)
    (represents : context.Represents plan state) (denotes : plan.Denotes ref outcome) :
    Simulates context plan (fun _ => Eval.assign id ref) (fun _ _ _ => True)
      (Strict.Exec.assign id outcome state) :=
  .ok (eventually_of_forall fun _ => rfl) (represents.assign id denotes) (.refl plan) trivial

theorem print_simulates (text : String) (represents : context.Represents plan state) :
    Simulates context plan (fun _ => Eval.print text) (fun _ _ _ => True)
      (Strict.Exec.print text state) :=
  .ok (eventually_of_forall fun _ => rfl)
    { represents with output := by simp [represents.output] } (.refl plan) trivial

theorem define_simulates (type : String) (fields : List String)
    (represents : context.Represents plan state) :
    Simulates context plan (fun _ => Eval.define type fields) (fun _ _ _ => True)
      (Strict.Exec.define type fields state) := by
  cases defined : state.registry.define type fields with
  | error fault =>
    simp only [Strict.Exec.define, defined]
    refine .error (eventually_of_forall fun _ => ?_) represents (.refl plan)
    simp only [Eval.define, represents.registry, defined]
  | ok registry =>
    simp only [Strict.Exec.define, defined]
    have run : Eventually (fun _ => Eval.define type fields) context
        (.ok () { context with registry := registry }) :=
      eventually_of_forall fun _ => by simp only [Eval.define, represents.registry, defined]
    exact .ok run { represents with registry := rfl } (.refl plan) trivial

theorem restoring_simulates {computation : Nat → Eval α} {reference : Strict.Exec β}
    (represents : context.Represents plan state)
    (body : Simulates context plan computation related (reference state)) :
    Simulates context plan (fun fuel => Eval.restoring context.environment (computation fuel)) related
      (Strict.Exec.restoring reference state) := by
  have restored {context' : Context} {plan' : Plan Promise} {state' : Strict.State}
      (represents' : context'.Represents plan' state') (extends' : plan.Extends plan') :
      Context.Represents { context' with environment := context.environment } plan'
        { state' with bindings := state.bindings } :=
    { represents' with bindings := fun id => (represents.bindings id).extend extends' }
  simp only [Strict.Exec.restoring]
  generalize reference state = outcome at body
  cases body with
  | ok run represents' extends' same =>
    obtain ⟨bound, run⟩ := run
    refine .ok ⟨bound, fun fuel enough => ?_⟩ (restored represents' extends') extends' same
    simp only [Eval.restoring, run fuel enough]
  | error run represents' extends' =>
    obtain ⟨bound, run⟩ := run
    refine .error ⟨bound, fun fuel enough => ?_⟩ (restored represents' extends') extends'
    simp only [Eval.restoring, run fuel enough]

end

end ByNeed
