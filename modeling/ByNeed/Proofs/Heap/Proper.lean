import ByNeed.Proofs.Heap.Deep
import ByNeed.Proofs.Heap.Invariant
import ByNeed.Proofs.Heap.Task

set_option autoImplicit false

-- Every suspended cell waits for as many cells as its task takes, and no cell has failed for depending on
-- itself. Together with what cells are promised this is kept, for any amount of fuel and wherever the fuel
-- runs out: what a cell needs ranks below it, so nothing that is forced is running.
namespace ByNeed

def Proper (outcome : Outcome) : Prop :=
  outcome ≠ .error .dependsOnItself

section Operators

theorem proper_ok (value : Value) : Proper (.ok value) := by
  simp [Proper]

theorem proper_mismatch (operation expected : String) (found : Value) :
    Proper (.error (mismatch operation expected found)) := by
  simp [Proper, mismatch]

theorem proper_checked (n : Int) : Proper (checked n) := by
  unfold checked
  split <;> simp [Proper]

theorem UnaryOp.apply_proper (op : UnaryOp) (operand : Value) : Proper (op.apply operand) := by
  have stepped (delta : Int) : Proper (op.step delta operand) := by
    cases operand with
    | integer n => exact proper_checked _
    | float x => exact proper_ok _
    | _ => exact proper_mismatch _ _ _
  cases op with
  | increment => exact stepped 1
  | decrement => exact stepped (-1)
  | minus =>
    cases operand with
    | integer n => exact proper_checked _
    | float x => exact proper_ok _
    | _ => exact proper_mismatch _ _ _
  | _ => cases operand <;> simp [Proper, apply, mismatch]

theorem asFloat_cases (operation : String) (value : Value) :
    (∃ x, asFloat operation value = .ok x) ∨
      asFloat operation value = .error (mismatch operation "number" value) := by
  cases value <;> simp [asFloat]

theorem proper_floats (operation : String) (left right : Value) {use : Float → Float → Outcome}
    (proper : ∀ x y, Proper (use x y)) :
    Proper (do use (← asFloat operation left) (← asFloat operation right)) := by
  rcases asFloat_cases operation left with ⟨x, first⟩ | first
  · rcases asFloat_cases operation right with ⟨y, second⟩ | second
    · simpa [first, second, bind, Except.bind] using proper x y
    · simpa [first, second, bind, Except.bind] using proper_mismatch operation "number" right
  · simpa [first, bind, Except.bind] using proper_mismatch operation "number" left

theorem ArithmeticOp.mixed_proper (op : ArithmeticOp) (exact : Int → Int → Int)
    (rounded : Float → Float → Float) (left right : Value) :
    Proper (op.mixed exact rounded left right) := by
  unfold mixed
  split
  · exact proper_checked _
  · exact proper_floats op.text left right fun x y => proper_ok _

theorem ArithmeticOp.apply_proper (op : ArithmeticOp) (left right : Value) :
    Proper (op.apply left right) := by
  cases op with
  | divide =>
    apply proper_floats divide.text left right
    intro x y
    split <;> simp [Proper, bind, Except.bind, throw, throwThe, MonadExceptOf.throw, pure, Except.pure]
  | modulo =>
    simp only [apply, remainder]
    repeat' split
    all_goals simp [Proper, mismatch]
  | _ => exact mixed_proper _ _ _ left right

theorem LogicalOp.apply_proper (op : LogicalOp) (left right : Value) :
    Proper (op.apply left right) := by
  unfold apply
  split <;> simp [Proper, mismatch]

theorem ordered_proper (operation : String) (onIntegers : Int64 → Int64 → Bool)
    (onFloats : Float → Float → Bool) (left right : Value) :
    Proper (ordered operation onIntegers onFloats left right) := by
  unfold ordered
  repeat' split
  all_goals simp [Proper, mismatch]

end Operators

def Task.arity? : Task → Option Nat
  | .fail _ | .equality _ _ => some 0
  | .member _ | .unary _ | .shortCircuit _ _ | .logical _ _ => some 1
  | .index | .arithmetic _ | .comparison _ => some 2
  | .create _ _ => none

def Cell.Proper : Cell Task → Prop
  | .pending inputs task =>
    (∀ count ∈ task.arity?, inputs.length = count) ∧ task ≠ .fail .dependsOnItself
  | .failed fault => fault ≠ .dependsOnItself
  | .running => False
  | .delegated _ | .forced _ => True

section Tasks

theorem Cell.ofOutcome_proper {outcome : Outcome} : (Cell.ofOutcome outcome).Proper ↔ ByNeed.Proper outcome := by
  cases outcome <;> simp [Cell.ofOutcome, Cell.Proper, ByNeed.Proper]

theorem Step.ofOutcome_good {outcome : Outcome} (proper : Proper outcome) :
    (Step.ofOutcome outcome).Good Cell.Proper := by
  have cell := Cell.ofOutcome_proper.mpr proper
  cases outcome <;> exact cell

namespace Task

theorem select_good (collection position : Value) : (select collection position).Good Cell.Proper := by
  unfold select
  split
  · unfold element
    simp only
    split <;> simp [Step.Good, Cell.Proper]
  · simp [Step.Good, Cell.Proper, mismatch]
  · simp [Step.Good, Cell.Proper, mismatch]

theorem build_good (type : String) (fields : List String) (values : List Value) :
    (build type fields values).Good Cell.Proper := by
  unfold build
  split <;> simp [Step.Good, Cell.Proper]

theorem field_good (name : String) (object : Value) : (field name object).Good Cell.Proper := by
  unfold field
  split
  · split <;> simp [Step.Good, Cell.Proper]
  · simp [Step.Good, Cell.Proper, mismatch]

theorem shortCut_good (op : LogicalOp) (right : Ref) (left : Value) :
    (shortCut op right left).Good Cell.Proper := by
  unfold shortCut
  split
  · split <;> simp [Step.Good, Fresh.cell, Cell.Proper, arity?]
  · simp [Step.Good, Cell.Proper, mismatch]

theorem comparePairs_good (negated : Bool) (pairs : List Pair) :
    (comparePairs negated pairs).Good Cell.Proper := by
  unfold comparePairs
  split
  · exact trivial
  · refine Step.good_need fun _ _ => Step.good_need fun _ _ => ?_
    simp [Step.Good, Cell.Proper, arity?]
  · split <;> simp [Step.Good, Cell.Proper, arity?]

theorem compare_good (op : ComparisonOp) (left right : Value) : (compare op left right).Good Cell.Proper := by
  cases op with
  | less => exact Step.ofOutcome_good (ordered_proper _ _ _ left right)
  | greater => exact Step.ofOutcome_good (ordered_proper _ _ _ left right)
  | equal => exact comparePairs_good false [.values left right]
  | notEqual => exact comparePairs_good true [.values left right]

theorem run_good {task : Task} {values : List Value}
    (arity : ∀ count ∈ task.arity?, values.length = count) (other : task ≠ .fail .dependsOnItself) :
    (run task values).Good Cell.Proper := by
  -- With the right number of values, the last equation of `run` is out of reach.
  cases task with
  | fail fault =>
    obtain rfl := List.length_eq_zero_iff.mp (arity 0 rfl)
    intro same
    exact other (by rw [same])
  | index =>
    obtain ⟨collection, position, rfl⟩ := List.length_eq_two.mp (arity 2 rfl)
    exact select_good collection position
  | create type fields => exact build_good type fields values
  | member name =>
    obtain ⟨object, rfl⟩ := List.length_eq_one_iff.mp (arity 1 rfl)
    exact field_good name object
  | unary op =>
    obtain ⟨operand, rfl⟩ := List.length_eq_one_iff.mp (arity 1 rfl)
    exact Step.ofOutcome_good (op.apply_proper operand)
  | arithmetic op =>
    obtain ⟨left, right, rfl⟩ := List.length_eq_two.mp (arity 2 rfl)
    exact Step.ofOutcome_good (op.apply_proper left right)
  | shortCircuit op right =>
    obtain ⟨left, rfl⟩ := List.length_eq_one_iff.mp (arity 1 rfl)
    exact shortCut_good op right left
  | logical op left =>
    obtain ⟨right, rfl⟩ := List.length_eq_one_iff.mp (arity 1 rfl)
    exact Step.ofOutcome_good (op.apply_proper left right)
  | comparison op =>
    obtain ⟨left, right, rfl⟩ := List.length_eq_two.mp (arity 2 rfl)
    exact compare_good op left right
  | equality negated pairs =>
    obtain rfl := List.length_eq_zero_iff.mp (arity 0 rfl)
    exact comparePairs_good negated pairs

def terms : Terms Task Promise :=
  reading.terms.restrict Cell.Proper

theorem honoured : terms.Honoured run :=
  describes.honoured.restrict fun proper counted _ =>
    run_good (fun count known => counted.trans (proper.1 count known)) proper.2

end Task

end Tasks

namespace Heap

variable {heap : Heap Task} {plan : Plan Promise} {ref : Ref} {promise : Promise}

/-- What a computation on a heap leads to in which all promises are kept: a result of some kind, a fault
that is not the one of a cell depending on itself, or the end of the fuel. -/
inductive Sane {α : Type} (plan : Plan Promise) (heap : Heap Task) (known : Plan Promise → α → Prop) :
    EStateM.Result Interrupt (Heap Task) α → Prop
  | ok {result : α} {plan' : Plan Promise} {heap' : Heap Task} (grows : Task.terms.Grows plan heap plan' heap')
    (holds : known plan' result) : Sane plan heap known (.ok result heap')
  | error {interrupt : Interrupt} {plan' : Plan Promise} {heap' : Heap Task}
    (grows : Task.terms.Grows plan heap plan' heap') (other : interrupt ≠ .fault .dependsOnItself) :
    Sane plan heap known (.error interrupt heap')

theorem Sane.bind {α β : Type} {known : Plan Promise → α → Prop} {known' : Plan Promise → β → Prop}
    {computation : HeapM Task α} {next : α → HeapM Task β} (first : Sane plan heap known (computation heap))
    (second : ∀ result plan' heap', Task.terms.Grows plan heap plan' heap' → known plan' result →
      Sane plan' heap' known' (next result heap')) :
    Sane plan heap known' ((computation >>= next) heap) := by
  simp only [Bind.bind, EStateM.bind]
  generalize computation heap = ending at first
  cases first with
  | error grows other => exact .error grows other
  | @ok result plan₁ heap₁ grows holds =>
    have later := second result plan₁ heap₁ grows holds
    simp only
    generalize next result heap₁ = ending at later
    cases later with
    | ok grows' holds' => exact .ok (grows.trans grows') holds'
    | error grows' other => exact .error (grows.trans grows') other

theorem force_sane (fuel : Nat) (holds : Task.terms.Holds plan heap) (promises : plan.Promises ref promise) :
    Sane plan heap Reading.Knows (force Task.run fuel ref heap) := by
  have ends := holds.force_ends Task.honoured promises fuel
  generalize force Task.run fuel ref heap = result at ends
  cases ends with
  | exhausted grows => exact .error grows (by simp)
  | @outcome outcome _ _ grows _ _ keeps =>
    cases outcome with
    | ok value => exact .ok grows keeps.1.knows
    | error fault => exact .error grows fun same => keeps.2 (Interrupt.fault.inj same)

theorem forceEach_sane (fuel : Nat) (refs : List Ref) (found : List Value) (holds : Task.terms.Holds plan heap)
    (each : Reading.Knows plan (.list refs)) (knows : ∀ value ∈ found, Reading.Knows plan value) :
    Sane plan heap (fun plan' values => ∀ value ∈ values, Reading.Knows plan' value)
      (forceEach Task.run fuel refs found heap) := by
  induction refs generalizing plan heap found with
  | nil => exact .ok (.refl holds) knows
  | cons ref rest ih =>
    obtain ⟨promise, promises⟩ := each ref List.mem_cons_self
    apply (force_sane fuel holds promises).bind
    intro value plan₁ heap₁ grows held
    have others : Reading.Knows plan (.list rest) := fun other member => each other (List.mem_cons_of_mem ref member)
    exact ih (value :: found) grows.holds (others.extend grows.extends')
      (List.forall_mem_cons.mpr ⟨held, fun other member => (knows other member).extend grows.extends'⟩)

theorem deepen_sane (limit fuel : Nat) (stack : List Value) (holds : Task.terms.Holds plan heap)
    (knows : ∀ value ∈ stack, Reading.Knows plan value) :
    Sane plan heap (fun _ _ => True) (deepen Task.run limit fuel stack heap) := by
  induction fuel generalizing plan heap stack with
  | zero => exact .error (.refl holds) (by simp)
  | succ fuel ih =>
    match stack with
    | [] => exact .ok (.refl holds) trivial
    | .list elements :: rest =>
      obtain ⟨here, others⟩ := List.forall_mem_cons.mp knows
      apply (forceEach_sane limit elements rest holds here others).bind
      intro values plan₁ heap₁ grows held
      exact ih values grows.holds held
    | .record type fields :: rest =>
      obtain ⟨here, others⟩ := List.forall_mem_cons.mp knows
      exact ih _ holds (List.forall_mem_append.mpr ⟨Reading.knows_fields here, others⟩)
    | .integer _ :: rest | .float _ :: rest | .string _ :: rest | .boolean _ :: rest =>
      exact ih rest holds fun value member => knows value (List.mem_cons_of_mem _ member)

theorem forceDeep_sane (fuel : Nat) (holds : Task.terms.Holds plan heap) (promises : plan.Promises ref promise) :
    Sane plan heap Reading.Knows (forceDeep Task.run fuel ref heap) := by
  apply (force_sane fuel holds promises).bind
  intro value plan₁ heap₁ grows knows
  apply (deepen_sane fuel fuel [value] grows.holds (by simpa using knows)).bind
  intro _ plan₂ heap₂ grows' _
  exact .ok (.refl grows'.holds) (knows.extend grows'.extends')

end Heap

end ByNeed
