import ByNeed.Proofs.Heap.Deep
import ByNeed.Proofs.Heap.Known
import ByNeed.Proofs.Heap.Lockstep

set_option autoImplicit false

-- Forcing finds no value that could not be told from the heap before. The proof goes back over the turns of
-- the loop. What a turn does to its own cell is undone by what the task of that cell gives, and a cell that was
-- made since is needed by no older cell but the one that was handed over to it.
namespace ByNeed

namespace Step

/-- What the steps of tasks look like: a new cell ends at once when its turn comes, its maker hands over to
it, and the fault of a cell that is forced is passed on. -/
inductive Plain : Step Task → Prop
  | done (value : Value) : Plain (.done value)
  | fail (fault : Fault) : Plain (.fail fault)
  | defer (target : Ref) : Plain (.defer target)
  | alloc {input : Ref} {task : Task} (ends : ∀ value, ∃ outcome, Task.run task [value] = .ofOutcome outcome) :
    Plain (.alloc (.pending [input] task) .defer)
  | demand {target : Ref} {next : Outcome → Step Task} (passes : ∀ fault, next (.error fault) = .fail fault)
    (later : ∀ value, Plain (next (.ok value))) : Plain (.demand target next)
  | become (task : Task) : Plain (.become task)

theorem plain_ofOutcome (outcome : Outcome) : (ofOutcome outcome).Plain := by
  cases outcome with
  | ok value => exact .done value
  | error fault => exact .fail fault

theorem plain_need (target : Ref) {use : Value → Step Task} (later : ∀ value, (use value).Plain) :
    (need target use).Plain :=
  .demand (fun _ => rfl) later

end Step

namespace Task

theorem comparePairs_plain (negated : Bool) (pairs : List Pair) : (comparePairs negated pairs).Plain := by
  match pairs with
  | [] => exact .done _
  | .cells left right :: rest => exact Step.plain_need left fun _ => Step.plain_need right fun _ => .become _
  | .values left right :: rest =>
    simp only [comparePairs]
    cases left.parts? right with
    | some parts => exact .become _
    | none => exact .done _

theorem shortCut_plain (op : LogicalOp) (right : Ref) (left : Value) : (shortCut op right left).Plain := by
  cases left with
  | boolean left =>
    simp only [shortCut]
    split
    · exact .done _
    · exact .alloc fun value => ⟨_, rfl⟩
  | _ => exact .fail _

theorem select_plain (collection position : Value) : (select collection position).Plain := by
  unfold select
  split
  · unfold element
    dsimp only
    split
    · exact .defer _
    · exact .fail _
  all_goals exact .fail _

theorem build_plain (type : String) (fields : List String) (values : List Value) : (build type fields values).Plain := by
  unfold build
  split
  · exact .done _
  · exact .fail _

theorem field_plain (name : String) (object : Value) : (field name object).Plain := by
  unfold field
  split
  · split
    · exact .done _
    · exact .fail _
  · exact .fail _

theorem compare_plain (op : ComparisonOp) (left right : Value) : (compare op left right).Plain := by
  cases op with
  | less | greater => exact Step.plain_ofOutcome _
  | equal => exact comparePairs_plain false [.values left right]
  | notEqual => exact comparePairs_plain true [.values left right]

theorem run_plain (task : Task) (values : List Value) : (run task values).Plain := by
  cases task with
  | fail fault => cases values <;> exact .fail _
  | create type fields => exact build_plain type fields values
  | index =>
    rcases values with _ | ⟨collection, _ | ⟨position, _ | _⟩⟩
    case cons.cons.nil => exact select_plain collection position
    all_goals exact .fail _
  | member name =>
    rcases values with _ | ⟨object, _ | _⟩
    case cons.nil => exact field_plain name object
    all_goals exact .fail _
  | unary op | logical op =>
    rcases values with _ | ⟨operand, _ | _⟩
    case cons.nil => exact Step.plain_ofOutcome _
    all_goals exact .fail _
  | arithmetic op =>
    rcases values with _ | ⟨left, _ | ⟨right, _ | _⟩⟩
    case cons.cons.nil => exact Step.plain_ofOutcome _
    all_goals exact .fail _
  | shortCircuit op right =>
    rcases values with _ | ⟨left, _ | _⟩
    case cons.nil => exact shortCut_plain op right left
    all_goals exact .fail _
  | comparison op =>
    rcases values with _ | ⟨left, _ | ⟨right, _ | _⟩⟩
    case cons.cons.nil => exact compare_plain op left right
    all_goals exact .fail _
  | equality negated pairs =>
    cases values with
    | nil => exact comparePairs_plain negated pairs
    | cons => exact .fail _

end Task

section Within

variable {same : Ref → Ref → Prop} {known known' : Ref → Value → Prop} {value : Value}

theorem forall₂_within (each : ∀ ref value, same ref ref → known ref value → known' ref value ∧ value.Paired same value)
    {refs : List Ref} {values : List Value} (inside : List.Forall₂ same refs refs) (found : List.Forall₂ known refs values) :
    List.Forall₂ known' refs values ∧ List.Forall₂ (Value.Paired same) values values := by
  induction found with
  | nil => exact ⟨.nil, .nil⟩
  | cons first _ ih =>
    cases inside with
    | cons here others =>
      obtain ⟨knows, paired⟩ := each _ _ here first
      obtain ⟨rest, rest'⟩ := ih others
      exact ⟨.cons knows rest, .cons paired rest'⟩

-- A step that is paired with itself asks for addresses only that are paired with themselves.
theorem Step.Gives.within
    (each : ∀ ref value, same ref ref → known ref value → known' ref value ∧ value.Paired same value)
    {step : Step Task} (gives : step.Gives known known value) (steps : step.Paired same step) :
    step.Gives known' known' value ∧ value.Paired same value := by
  induction gives with
  | done =>
    cases steps with
    | done values => exact ⟨.done _, values⟩
  | defer knows =>
    cases steps with
    | defer targets =>
      obtain ⟨knows', paired⟩ := each _ _ targets knows
      exact ⟨.defer knows', paired⟩
  | alloc knows ends =>
    cases steps with
    | alloc origins =>
      cases origins with
      | pending inputs tasks =>
        cases inputs with
        | cons input =>
          obtain ⟨knows', paired⟩ := each _ _ input knows
          have ran := Task.run_paired tasks (.cons paired .nil)
          rw [ends] at ran
          cases ran with
          | done values => exact ⟨.alloc knows' ends, values⟩
  | demand knows _ ih =>
    cases steps with
    | demand targets later =>
      obtain ⟨knows', paired⟩ := each _ _ targets knows
      obtain ⟨gives, values⟩ := ih (later same _ _ le_rfl (.forced paired))
      exact ⟨.demand knows' gives, values⟩
  | become _ ih =>
    cases steps with
    | become tasks =>
      obtain ⟨gives, values⟩ := ih (Task.run_paired tasks .nil)
      exact ⟨.become gives, values⟩

theorem Cell.Gives.within
    (each : ∀ ref value, same ref ref → known ref value → known' ref value ∧ value.Paired same value)
    {cell : Cell Task} (gives : cell.Gives known known value) (cells : cell.Paired same cell) :
    cell.Gives known' known' value ∧ value.Paired same value := by
  cases gives with
  | forced =>
    cases cells with
    | forced values => exact ⟨.forced value, values⟩
  | delegated knows =>
    cases cells with
    | delegated targets =>
      obtain ⟨knows', paired⟩ := each _ _ targets knows
      exact ⟨.delegated knows', paired⟩
  | pending inputs later =>
    cases cells with
    | pending inside tasks =>
      obtain ⟨inputs', values⟩ := forall₂_within each inside inputs
      obtain ⟨later', paired⟩ := later.within each (Task.run_paired tasks values)
      exact ⟨.pending inputs' later', paired⟩

end Within

namespace Heap

def here (heap : Heap Task) (ref ref' : Nat) : Prop :=
  ref = ref' ∧ ref < heap.cells.size

-- All addresses in the heap are inside it.
def Enclosed (heap : Heap Task) : Prop :=
  Paired heap.here heap heap

def Inward (heap : Heap Task) (given : Ref → Value → Prop) : Prop :=
  ∀ ref value, given ref value → value.Paired heap.here value

variable {heap heap' heap'' heap₁ : Heap Task} {given : Ref → Value → Prop} {ref : Ref} {value : Value} {cell : Cell Task}

theorem here_mono (size : heap.cells.size ≤ heap'.cells.size) : heap.here ≤ heap'.here :=
  fun _ _ same => ⟨same.1, Nat.lt_of_lt_of_le same.2 size⟩

theorem Inward.mono (inward : heap.Inward given) (size : heap.cells.size ≤ heap'.cells.size) : heap'.Inward given :=
  fun ref value outer => (inward ref value outer).mono (here_mono size)

theorem Whole.enclosed (whole : heap.Whole) : heap.Enclosed where
  inside same := same.1 ▸ ⟨same.2, same.2⟩
  unique same same' := by
    rw [same.1, same'.1]
  cells {ref ref'} same := by
    rw [same.1]
    exact Cell.paired_self _ fun other member => ⟨rfl, whole ref' other member⟩

theorem Lockstep.here_eq {count : Nat} (lockstep : Lockstep heap.here heap heap count heap' heap') :
    widen heap.here heap.cells.size heap.cells.size count = heap'.here := by
  funext ref ref'
  apply propext
  have size := lockstep.size
  constructor
  · rintro (⟨same, inside⟩ | ⟨place, less, rfl, rfl⟩)
    · exact ⟨same, by omega⟩
    · exact ⟨rfl, by omega⟩
  · rintro ⟨rfl, inside⟩
    by_cases old : ref < heap.cells.size
    · exact .inl ⟨rfl, old⟩
    · exact .inr ⟨ref - heap.cells.size, by omega, by omega, by omega⟩

theorem Lockstep.enclosed {count : Nat} (lockstep : Lockstep heap.here heap heap count heap' heap') : heap'.Enclosed := by
  have paired := lockstep.paired
  rw [lockstep.here_eq] at paired
  exact paired

-- Cells that were there before do not lead to cells that were made since.
theorem Enclosed.within (enclosed : heap.Enclosed) (inward : heap.Inward given)
    (kept : ∀ ref, ref < heap.cells.size → heap'.get ref = heap.get ref) {depth : Nat} (inside : ref < heap.cells.size)
    (computes : heap'.Computes given depth ref value) :
    heap.Computes given depth ref value ∧ value.Paired heap.here value := by
  induction depth generalizing ref value with
  | zero => exact computes.elim
  | succ depth ih =>
    rcases computes with ⟨running, outer⟩ | gives
    · rw [kept ref inside] at running
      exact ⟨.inl ⟨running, outer⟩, inward ref value outer⟩
    · rw [kept ref inside] at gives
      obtain ⟨gives, paired⟩ := gives.within (fun other inner same => ih same.2) (enclosed.cells ⟨rfl, inside⟩)
      exact ⟨.inr gives, paired⟩

theorem Enclosed.knows_paired (enclosed : heap.Enclosed) (inward : heap.Inward given) (inside : ref < heap.cells.size)
    (knows : heap.Knows given ref value) : value.Paired heap.here value := by
  obtain ⟨depth, computes⟩ := knows
  exact (enclosed.within inward (fun _ _ => rfl) inside computes).2

-- What the later heap knows of the cells that were there before, the earlier one knows too.
structure Recalls (heap heap' : Heap Task) : Prop where
  size : heap.cells.size ≤ heap'.cells.size
  enclosed : heap'.Enclosed
  knows : ∀ {given : Ref → Value → Prop} {ref : Ref} {value : Value}, heap.Inward given → ref < heap.cells.size →
    heap'.Knows given ref value → heap.Knows given ref value

theorem Recalls.refl (enclosed : heap.Enclosed) : heap.Recalls heap :=
  ⟨Nat.le_refl _, enclosed, fun _ _ knows => knows⟩

theorem Recalls.trans (first : heap.Recalls heap') (second : heap'.Recalls heap'') : heap.Recalls heap'' where
  size := Nat.le_trans first.size second.size
  enclosed := second.enclosed
  knows inward inside knows := first.knows inward inside
    (second.knows (inward.mono first.size) (Nat.lt_of_lt_of_le inside first.size) knows)

theorem Enclosed.push (enclosed : heap.Enclosed) (cells : cell.Paired heap.here cell) : heap.Recalls (heap.push cell) where
  size := by simp
  enclosed := (Paired.push enclosed cells).enclosed
  knows {_ ref _} inward inside knows := by
    obtain ⟨depth, computes⟩ := knows
    exact ⟨depth, (enclosed.within inward (fun ref inside => get_push_of_lt heap cell inside) inside computes).1⟩

-- The two heaps differ in one cell, and what there is in its place is known in the other heap.
theorem computes_replaced {given' : Ref → Value → Prop}
    (kept : ∀ other, ref ≠ other → heap'.get other = heap.get other)
    (same : ∀ other value, ref ≠ other → given other value → given' other value)
    (here : ∀ depth value, heap'.Computes given depth ≤ heap.Knows given' →
      heap'.Computes given (depth + 1) ref value → heap.Knows given' ref value) (depth : Nat) :
    heap'.Computes given depth ≤ heap.Knows given' := by
  induction depth with
  | zero => exact fun _ _ computes => computes.elim
  | succ depth ih =>
    intro other value computes
    by_cases ours : ref = other
    · subst ours
      exact here depth value ih computes
    · rcases computes with ⟨running, outer⟩ | gives
      · rw [kept other ours] at running
        exact ⟨1, .inl ⟨running, same other value ours outer⟩⟩
      · rw [kept other ours] at gives
        exact knows_of_gives (gives.mono ih ih)

theorem Enclosed.set (enclosed : heap.Enclosed) (inside : ref < heap.cells.size) (cells : cell.Paired heap.here cell)
    (other : cell ≠ .running)
    (gives : ∀ given value, cell.Gives (heap.Knows given) (heap.Knows given) value →
      (heap.get ref).Gives (heap.Knows given) (heap.Knows given) value) : heap.Recalls (heap.set ref cell) where
  size := by simp
  enclosed := (Paired.set enclosed ⟨rfl, inside⟩ cells).enclosed
  knows {given _ _} _ _ knows := by
    obtain ⟨depth, computes⟩ := knows
    refine computes_replaced (fun other different => get_set_of_ne heap cell different) (fun _ _ _ outer => outer)
      (fun depth value ih found => ?_) depth _ _ computes
    rcases found with ⟨running, _⟩ | found
    · rw [get_set_self heap cell inside] at running
      exact absurd running other
    · rw [get_set_self heap cell inside] at found
      exact knows_of_gives (gives given value (found.mono ih ih))

theorem forall₂_of_values {inputs : List Ref} {values : List Value} (got : heap.values inputs = .ok values) :
    List.Forall₂ (fun input value => heap.settled? input = some (.ok value)) inputs values := by
  induction inputs generalizing values with
  | nil =>
    cases got
    exact .nil
  | cons input rest ih =>
    simp only [Heap.values, List.mapM_cons, bind, Except.bind, pure, Except.pure] at got ih
    cases known : heap.settled? input with
    | none => simp [known] at got
    | some outcome =>
      cases outcome with
      | error fault => simp [known] at got
      | ok value =>
        cases others : rest.mapM fun input => (heap.settled? input).getD (.error .dependsOnItself) with
        | error fault => simp [known, others] at got
        | ok found =>
          simp only [known, others, Option.getD_some, Except.ok.injEq] at got
          subst got
          exact .cons known (ih others)

structure PerformRecalls (step : Step Task) (heap : Heap Task) (cell : Cell Task) (heap' : Heap Task) : Prop where
  recalls : heap.Recalls heap'
  cells : cell.Paired heap'.here cell
  gives : ∀ {given : Ref → Value → Prop} {value : Value}, heap.Inward given →
    cell.Gives (heap'.Knows given) (heap'.Knows given) value → step.Gives (heap.Knows given) (heap.Knows given) value

theorem PerformRecalls.end (enclosed : heap.Enclosed) {step : Step Task} (cells : cell.Paired heap.here cell)
    (gives : ∀ known value, cell.Gives known known value → step.Gives known known value) :
    PerformRecalls step heap cell heap :=
  ⟨.refl enclosed, cells, fun _ found => gives _ _ found⟩

-- The new cell is settled by its one input, and that is an older cell.
theorem performRecalls_alloc (enclosed : heap.Enclosed) {input : Ref} {task : Task}
    (ends : ∀ value, ∃ outcome, Task.run task [value] = .ofOutcome outcome)
    (origins : (Cell.pending [input] task).Paired heap.here (.pending [input] task)) :
    PerformRecalls (.alloc (.pending [input] task) .defer) heap (.delegated heap.cells.size)
      (heap.push (.pending [input] task)) := by
  have recalls := enclosed.push origins
  refine ⟨recalls, .delegated ⟨rfl, by simp⟩, fun {given value} inward gives => ?_⟩
  cases gives with
  | delegated knows =>
    obtain ⟨depth, computes⟩ := knows
    cases depth with
    | zero => exact computes.elim
    | succ depth =>
      rw [Computes, get_push_size] at computes
      rcases computes with ⟨⟨⟩, _⟩ | found
      cases found with
      | pending each later =>
        cases each with
        | @cons _ inner _ _ first others =>
          cases others
          cases origins with
          | pending inside =>
            obtain ⟨outcome, ended⟩ := ends inner
            rw [ended] at later
            cases outcome with
            | error fault => cases later
            | ok =>
              cases later
              cases inside with
              | cons here => exact .alloc (recalls.knows inward here.2 ⟨depth, first⟩) ended

theorem Recalls.settled_paired {outcome : Outcome} (recalls : heap.Recalls heap') (inside : ref < heap.cells.size)
    (known : heap'.settled? ref = some outcome) : (Cell.ofOutcome outcome).Paired heap'.here (.ofOutcome outcome) := by
  rw [← get_of_settled? known]
  exact recalls.enclosed.cells ⟨rfl, Nat.lt_of_lt_of_le inside recalls.size⟩

-- What is asked for after the forcing was there before it, since the step has no other addresses.
theorem performRecalls_demand (enclosed : heap.Enclosed) {next : Outcome → Step Task} {inner : Value}
    (steps : (Step.demand ref next).Paired heap.here (.demand ref next)) (first : heap.Recalls heap₁)
    (known : heap₁.settled? ref = some (.ok inner)) (second : PerformRecalls (next (.ok inner)) heap₁ cell heap') :
    PerformRecalls (.demand ref next) heap cell heap' := by
  refine ⟨first.trans second.recalls, second.cells, fun {given value} inward gives => ?_⟩
  cases steps with
  | demand targets later =>
    have knows := first.knows inward targets.2 (knows_of_settled known)
    have values := enclosed.knows_paired inward targets.2 knows
    have rest := second.gives (inward.mono first.size) gives
    refine .demand knows (rest.within (fun other found same knows' => ?_) (later _ _ _ le_rfl (.forced values))).1
    have older := first.knows inward same.2 knows'
    exact ⟨older, enclosed.knows_paired inward same.2 older⟩

theorem Performed.recalls {nested : Ref → HeapM Task Value}
    (forces : ∀ {heap heap' : Heap Task} {ref : Ref} {outcome : Outcome}, heap.Enclosed → ref < heap.cells.size →
      nested ref heap = HeapM.ofOutcome outcome heap' → heap.Recalls heap' ∧
        ∀ value, outcome = .ok value → heap'.settled? ref = some (.ok value))
    {step : Step Task} (performed : Performed Task.run nested step heap (.ok cell heap')) (enclosed : heap.Enclosed)
    (plain : step.Plain) (steps : step.Paired heap.here step) : PerformRecalls step heap cell heap' := by
  generalize ended : EStateM.Result.ok cell heap' = result at performed
  induction performed with
  | done =>
    cases ended
    cases steps with
    | done values =>
      refine .end enclosed (.forced values) fun _ _ gives => ?_
      cases gives
      exact .done _
  | fail =>
    cases ended
    refine .end enclosed (.failed _) fun _ _ gives => ?_
    cases gives
  | defer =>
    cases ended
    cases steps with
    | defer targets =>
      refine .end enclosed (.delegated targets) fun _ _ gives => ?_
      cases gives with
      | delegated knows => exact .defer knows
  | alloc later =>
    cases plain with
    | alloc ends =>
      cases steps with
      | alloc origins =>
        subst ended
        cases later
        exact performRecalls_alloc enclosed ends origins
  | @demand target next heap heap₁ outcome _ forced later ih =>
    cases plain with
    | demand passes plain' =>
      cases steps with
      | demand targets steps' =>
        obtain ⟨first, settled⟩ := forces enclosed targets.2 forced
        cases outcome with
        | error fault =>
          rw [passes fault] at later
          subst ended
          cases later
          refine ⟨first, .failed fault, fun _ gives => ?_⟩
          cases gives
        | ok inner =>
          have known := settled inner rfl
          have paired := first.settled_paired targets.2 known
          have second := ih first.enclosed (plain' inner) (steps' _ _ _ (here_mono first.size) paired) ended
          exact performRecalls_demand enclosed (.demand targets steps') first known second
  | become _ ih =>
    cases steps with
    | become tasks =>
      obtain ⟨recalls, cells, gives⟩ := ih enclosed (Task.run_plain _ _) (Task.run_paired tasks .nil) ended
      exact ⟨recalls, cells, fun inward found => .become (gives inward found)⟩
  | unforced | exhausted => cases ended

def filling (heap : Heap Task) (given : Ref → Value → Prop) (ref other : Ref) (value : Value) : Prop :=
  ref ≠ other ∧ given other value ∨ ref = other ∧ heap.Knows given ref value

@[simp] theorem here_resume (heap : Heap Task) (ref : Ref) : (heap.resume ref).here = heap.here := by
  funext other other'
  simp [here]

theorem Enclosed.filling_inward (enclosed : heap.Enclosed) (inward : heap.Inward given) (inside : ref < heap.cells.size) :
    (heap.resume ref).Inward (heap.filling given ref) := by
  rintro other value (⟨_, outer⟩ | ⟨_, knows⟩)
  · simpa using inward other value outer
  · simpa using enclosed.knows_paired inward inside knows

theorem knows_resume_le (inside : ref < heap.cells.size) :
    (heap.resume ref).Knows (heap.filling given ref) ≤ heap.Knows given := by
  intro other value ⟨depth, computes⟩
  refine computes_replaced (fun other different => get_resume_of_ne heap different) ?_ ?_ depth other value computes
  · rintro other value different (⟨_, outer⟩ | ⟨same, _⟩)
    · exact outer
    · exact absurd same different
  · rintro depth value _ (⟨_, ⟨different, _⟩ | ⟨_, knows⟩⟩ | gives)
    · exact absurd rfl different
    · exact knows
    · rw [get_resume heap inside, if_pos rfl] at gives
      cases gives

-- While the task of a cell is performed, what that cell comes to is taken from the heap before.
theorem Enclosed.perform (enclosed : heap.Enclosed) {inputs : List Ref} {task : Task} {values : List Value}
    (found : heap.get ref = .pending inputs task) (got : heap.values inputs = .ok values)
    (inner : PerformRecalls (Task.run task values) (heap.resume ref) cell heap₁)
    (running : heap₁.get ref = .running) (other : cell ≠ .running) : heap.Recalls (heap₁.set ref cell) := by
  have inside : ref < heap.cells.size := inside_of_get_ne (by simp [found])
  have size := inner.recalls.size
  rw [size_resume] at size
  have inside₁ := Nat.lt_of_lt_of_le inside size
  refine ⟨by simpa using size, (Paired.set inner.recalls.enclosed ⟨rfl, inside₁⟩ inner.cells).enclosed,
    fun {given third result} inward inside' knows => ?_⟩
  have inward' := enclosed.filling_inward inward inside
  have before := @knows_resume_le heap given ref inside
  have after (depth : Nat) : (heap₁.set ref cell).Computes given depth ≤ heap₁.Knows (heap.filling given ref) := by
    refine computes_replaced (fun other different => get_set_of_ne heap₁ cell different)
      (fun other value different outer => .inl ⟨different, outer⟩) ?_ depth
    rintro depth value ih (⟨ran, _⟩ | gives)
    · rw [get_set_self heap₁ cell inside₁] at ran
      exact absurd ran other
    · rw [get_set_self heap₁ cell inside₁] at gives
      have step := (inner.gives inward' (gives.mono ih ih)).mono before before
      have supplied : List.Forall₂ (heap.Knows given) inputs values :=
        (forall₂_of_values got).imp fun input value known => knows_of_settled known
      have knows : heap.Knows given ref value := knows_of_gives (found ▸ .pending supplied step)
      exact ⟨1, .inl ⟨running, .inr ⟨rfl, knows⟩⟩⟩
  obtain ⟨depth, computes⟩ := knows
  exact before third result (inner.recalls.knows inward' (by simpa using inside') (after depth third result computes))

theorem returns_drive {fuel : Nat} {outcome : Outcome}
    (forced : force Task.run fuel ref heap = HeapM.ofOutcome outcome heap') :
    Returns (drive Task.run fuel [ref] heap) heap' := by
  simp only [force, Bind.bind, EStateM.bind] at forced
  cases drove : drive Task.run fuel [ref] heap with
  | ok _ heap₁ =>
    rw [drove] at forced
    have returns : Returns (read ref heap₁) heap' := by
      cases outcome with
      | ok value => exact .ok value forced
      | error fault => exact .fault fault forced
    rw [returns_read returns]
    exact .ok () rfl
  | error interrupt heap₁ =>
    rw [drove] at forced
    cases outcome with
    | ok => cases forced
    | error fault =>
      cases forced
      exact .fault fault rfl

theorem Enclosed.awaits_inside (enclosed : heap.Enclosed) (inside : ref < heap.cells.size) :
    ∀ other ∈ (heap.get ref).awaits, other < heap.cells.size := by
  have cells := enclosed.cells ⟨rfl, inside⟩
  generalize heap.get ref = cell at cells
  intro other member
  cases cells with
  | pending each => exact (List.forall₂_same.mp each other member).2
  | delegated targets =>
    cases List.mem_singleton.mp member
    exact targets.2
  | running | forced | failed => cases member

theorem Enclosed.run_paired (enclosed : heap.Enclosed) (inside : ref < heap.cells.size) {inputs : List Ref} {task : Task}
    {values : List Value} (found : heap.get ref = .pending inputs task) (got : heap.values inputs = .ok values) :
    (Task.run task values).Paired heap.here (Task.run task values) := by
  have cells := enclosed.cells ⟨rfl, inside⟩
  rw [found] at cells
  cases cells with
  | pending each tasks =>
    rcases Paired.values enclosed each with ⟨fault, failed, _⟩ | ⟨values₁, values₂, first, second, supplied⟩
    · rw [got] at failed
      cases failed
    · rw [got] at first second
      cases first
      cases second
      exact Task.run_paired tasks supplied

theorem drive_recalls (fuel : Nat) (stack : List Ref) (enclosed : heap.Enclosed)
    (inside : ∀ ref ∈ stack, ref < heap.cells.size) (returns : Returns (drive Task.run fuel stack heap) heap') :
    heap.Recalls heap' := by
  induction fuel generalizing stack heap heap' with
  | zero => exact absurd returns not_returns_exhausted
  | succ fuel ih =>
    have forces {heap heap' : Heap Task} {ref : Ref} {outcome : Outcome} (enclosed : heap.Enclosed)
        (inside : ref < heap.cells.size) (forced : force Task.run fuel ref heap = HeapM.ofOutcome outcome heap') :
        heap.Recalls heap' ∧ ∀ value, outcome = .ok value → heap'.settled? ref = some (.ok value) := by
      exact ⟨ih [ref] enclosed (by simpa using inside) (returns_drive forced), fun value ended =>
        settled_of_force (ended ▸ forced)⟩
    have later {heap₁ : Heap Task} {top : Ref} {rest : List Ref} (first : heap.Recalls heap₁)
        (inside : ∀ ref ∈ top :: rest, ref < heap.cells.size)
        (returns : Returns (drive Task.run fuel (top :: rest) heap₁) heap') : heap.Recalls heap' :=
      first.trans (ih _ first.enclosed (fun ref member => Nat.lt_of_lt_of_le (inside ref member) first.size) returns)
    have turned := drive_turned Task.run fuel stack heap
    generalize drive Task.run (fuel + 1) stack heap = result at turned returns
    cases turned with
    | empty =>
      rw [returns_ok returns]
      exact .refl enclosed
    | settled => exact ih _ enclosed (fun ref member => inside ref (List.mem_cons_of_mem _ member)) returns
    | running =>
      rcases returns with ⟨_, ⟨⟩⟩ | ⟨_, ⟨⟩⟩
      exact .refl enclosed
    | waits waits =>
      have awaited := enclosed.awaits_inside (inside _ List.mem_cons_self) _ waits.awaited
      exact ih _ enclosed (List.forall_mem_cons.mpr ⟨awaited, inside⟩) returns
    | @copied top target rest _ outcome found known =>
      have here := inside top List.mem_cons_self
      have beyond := enclosed.awaits_inside here target (by simp [found, Cell.awaits])
      have cells := enclosed.cells ⟨rfl, beyond⟩
      rw [get_of_settled? known] at cells
      refine later (enclosed.set here cells (Cell.ofOutcome_ne_running outcome) fun given value gives => ?_) inside returns
      rw [Cell.gives_ofOutcome gives] at known
      exact found ▸ .delegated (knows_of_settled known)
    | @failed top rest inputs _ task fault found ready failed =>
      refine later (enclosed.set (inside top List.mem_cons_self) (.failed fault) (by simp) fun given value gives => ?_)
        inside returns
      cases gives
    | @performed top rest inputs _ heap₁ task values cell found ready got performed =>
      have here := inside top List.mem_cons_self
      have resumed : (heap.resume top).Enclosed := (Paired.resume enclosed ⟨rfl, here⟩).enclosed
      obtain ⟨progress, other, _⟩ := performed.progress fun _ _ _ => force_progress
      have running : heap₁.Runs top := (progress.runs top).mpr ⟨by simpa using here, by simp [get_resume heap here]⟩
      have inner := performed.recalls forces resumed (Task.run_plain task values) (by
        rw [here_resume]
        exact enclosed.run_paired here found got)
      exact later (enclosed.perform found got inner running.2 other) inside returns
    | unperformed => exact absurd returns not_returns_exhausted

theorem Whole.knows (whole : heap.Whole) (yields : Yields Task.run heap ref (.ok value)) : heap.Knows ⊥ ref value := by
  have inside := yields.inside
  obtain ⟨heap', fuel, forced⟩ := yields
  have forced : force Task.run fuel ref heap = HeapM.ofOutcome (.ok value) heap' := forced fuel (Nat.le_refl _)
  have recalls := drive_recalls fuel [ref] whole.enclosed (by simpa using inside) (returns_drive forced)
  exact recalls.knows (fun _ _ outer => outer.elim) inside (knows_of_settled (settled_of_force forced))

end Heap

end ByNeed
