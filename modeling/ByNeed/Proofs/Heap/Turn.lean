import ByNeed.Heap.Force
import ByNeed.Proofs.Fuel
import Mathlib

set_option autoImplicit false

namespace ByNeed

variable {τ : Type}

-- The cells without whose outcomes a cell cannot be settled.
def Cell.awaits : Cell τ → List Ref
  | .pending inputs _ => inputs
  | .delegated target => [target]
  | _ => []

namespace Cell

theorem settled?_ofOutcome (outcome : Outcome) : (ofOutcome outcome : Cell τ).settled? = some outcome := by
  cases outcome <;> rfl

theorem eq_ofOutcome {cell : Cell τ} {outcome : Outcome} (settled : cell.settled? = some outcome) :
    cell = .ofOutcome outcome := by
  cases cell <;> cases settled <;> rfl

theorem ofOutcome_ne_running (outcome : Outcome) : (ofOutcome outcome : Cell τ) ≠ .running := by
  cases outcome <;> simp [ofOutcome]

end Cell

theorem Fresh.cell_ne_running (origin : Fresh τ) : origin.cell ≠ .running := by
  cases origin <;> simp [cell]

namespace Heap

section Cells

variable {heap : Heap τ} {ref : Ref}

theorem get_set (heap : Heap τ) {ref : Ref} (cell : Cell τ) (inside : ref < heap.cells.size)
    (other : Ref) : (heap.set ref cell).get other = if ref = other then cell else heap.get other := by
  by_cases same : ref = other
  · subst same
    simp [get_set_self heap cell inside]
  · simp [same, get_set_of_ne heap cell same]

@[simp] theorem size_resume (heap : Heap τ) (ref : Ref) :
    (heap.resume ref).cells.size = heap.cells.size := by
  simp [resume]

theorem get_resume (heap : Heap τ) (inside : ref < heap.cells.size) (other : Ref) :
    (heap.resume ref).get other = if ref = other then .running else heap.get other :=
  get_set heap .running inside other

theorem get_resume_of_ne (heap : Heap τ) {other : Ref} (different : ref ≠ other) :
    (heap.resume ref).get other = heap.get other :=
  get_set_of_ne heap .running different

theorem inside_of_get_ne (found : heap.get ref ≠ .running) : ref < heap.cells.size := by
  by_contra outside
  exact found (get_outside (Nat.le_of_not_lt outside))

theorem inside_of_settled (settled : heap.isSettled ref = true) : ref < heap.cells.size := by
  apply inside_of_get_ne
  intro running
  simp [isSettled, settled?, running, Cell.settled?] at settled

theorem get_of_settled? {outcome : Outcome} (known : heap.settled? ref = some outcome) :
    heap.get ref = .ofOutcome outcome :=
  Cell.eq_ofOutcome known

theorem settled?_set_ofOutcome (inside : ref < heap.cells.size) (outcome : Outcome) :
    (heap.set ref (.ofOutcome outcome)).settled? ref = some outcome := by
  rw [settled?, get_set_self heap _ inside, Cell.settled?_ofOutcome]

end Cells

section Perform

variable {behaviour : Behaviour τ} {nested : Ref → HeapM τ Value}

inductive Performed (behaviour : Behaviour τ) (nested : Ref → HeapM τ Value) :
    Step τ → Heap τ → EStateM.Result Interrupt (Heap τ) (Cell τ) → Prop
  | done (value : Value) (heap : Heap τ) :
    Performed behaviour nested (.done value) heap (.ok (.forced value) heap)
  | fail (fault : Fault) (heap : Heap τ) :
    Performed behaviour nested (.fail fault) heap (.ok (.failed fault) heap)
  | defer (target : Ref) (heap : Heap τ) :
    Performed behaviour nested (.defer target) heap (.ok (.delegated target) heap)
  | alloc {origin : Fresh τ} {next : Ref → Step τ} {heap : Heap τ}
    {result : EStateM.Result Interrupt (Heap τ) (Cell τ)}
    (later : Performed behaviour nested (next heap.cells.size) (heap.push origin.cell) result) :
    Performed behaviour nested (.alloc origin next) heap result
  | demand {target : Ref} {next : Outcome → Step τ} {heap heap₁ : Heap τ} {outcome : Outcome}
    {result : EStateM.Result Interrupt (Heap τ) (Cell τ)}
    (forced : nested target heap = HeapM.ofOutcome outcome heap₁)
    (later : Performed behaviour nested (next outcome) heap₁ result) :
    Performed behaviour nested (.demand target next) heap result
  | become {task : τ} {heap : Heap τ} {result : EStateM.Result Interrupt (Heap τ) (Cell τ)}
    (later : Performed behaviour nested (behaviour task []) heap result) :
    Performed behaviour nested (.become task) heap result
  | unforced {target : Ref} {next : Outcome → Step τ} {heap heap₁ : Heap τ}
    (forced : nested target heap = .error .exhausted heap₁) :
    Performed behaviour nested (.demand target next) heap (.error .exhausted heap₁)
  | exhausted (step : Step τ) (heap : Heap τ) :
    Performed behaviour nested step heap (.error .exhausted heap)

theorem perform_performed (fuel : Nat) (step : Step τ) (heap : Heap τ) :
    Performed behaviour nested step heap (perform behaviour nested fuel step heap) := by
  induction fuel generalizing step heap with
  | zero =>
    cases step with
    | done value => exact .done value heap
    | fail fault => exact .fail fault heap
    | defer target => exact .defer target heap
    | alloc | demand | become => exact .exhausted _ heap
  | succ fuel ih =>
    cases step with
    | done value => exact .done value heap
    | fail fault => exact .fail fault heap
    | defer target => exact .defer target heap
    | alloc origin next => exact .alloc (ih _ _)
    | become task => exact .become (ih _ _)
    | demand target next =>
      rw [perform]
      cases forced : nested target heap with
      | ok value heap₁ =>
        have forced' : nested target heap = HeapM.ofOutcome (.ok value) heap₁ := forced
        exact .demand forced' (ih _ _)
      | error interrupt heap₁ =>
        cases interrupt with
        | fault fault =>
          have forced' : nested target heap = HeapM.ofOutcome (.error fault) heap₁ := forced
          exact .demand forced' (ih _ _)
        | exhausted => exact .unforced forced

theorem Performed.exhausted_of_error {step : Step τ} {heap heap' : Heap τ} {interrupt : Interrupt}
    (performed : Performed behaviour nested step heap (.error interrupt heap')) :
    interrupt = .exhausted := by
  generalize ended : EStateM.Result.error interrupt heap' = result at performed
  induction performed with
  | done | fail | defer => cases ended
  | alloc _ ih | demand _ _ ih | become _ ih => exact ih ended
  | unforced | exhausted =>
    cases ended
    rfl

end Perform

section Turns

variable {behaviour : Behaviour τ} {heap heap' : Heap τ} {ref other : Ref} {fuel : Nat}

def Waits (heap : Heap τ) (ref other : Ref) : Prop :=
  (heap.get ref).awaits.find? (fun awaited => !heap.isSettled awaited) = some other

theorem Waits.idle (waits : heap.Waits ref other) :
    heap.get ref ≠ .running ∧ heap.isSettled ref = false := by
  unfold Waits at waits
  cases found : heap.get ref <;> simp_all [Cell.awaits, isSettled, settled?, Cell.settled?]

theorem Waits.unsettled (waits : heap.Waits ref other) : heap.isSettled other = false := by
  simpa using List.find?_some waits

theorem Waits.awaited (waits : heap.Waits ref other) : other ∈ (heap.get ref).awaits :=
  List.mem_of_find?_eq_some waits

inductive Turned (behaviour : Behaviour τ) (fuel : Nat) :
    List Ref → Heap τ → EStateM.Result Interrupt (Heap τ) Unit → Prop
  | empty (heap : Heap τ) : Turned behaviour fuel [] heap (.ok () heap)
  | settled {top : Ref} {rest : List Ref} {heap : Heap τ} {outcome : Outcome}
    (known : heap.settled? top = some outcome) :
    Turned behaviour fuel (top :: rest) heap (drive behaviour fuel rest heap)
  | running {top : Ref} {rest : List Ref} {heap : Heap τ} (found : heap.get top = .running) :
    Turned behaviour fuel (top :: rest) heap (.error (.fault .dependsOnItself) heap)
  | waits {top other : Ref} {rest : List Ref} {heap : Heap τ} (waits : heap.Waits top other) :
    Turned behaviour fuel (top :: rest) heap (drive behaviour fuel (other :: top :: rest) heap)
  | copied {top target : Ref} {rest : List Ref} {heap : Heap τ} {outcome : Outcome}
    (found : heap.get top = .delegated target) (known : heap.settled? target = some outcome) :
    Turned behaviour fuel (top :: rest) heap
      (drive behaviour fuel (top :: rest) (heap.set top (.ofOutcome outcome)))
  | failed {top : Ref} {rest inputs : List Ref} {heap : Heap τ} {task : τ} {fault : Fault}
    (found : heap.get top = .pending inputs task)
    (ready : ∀ input ∈ inputs, heap.isSettled input = true)
    (failed : heap.values inputs = .error fault) :
    Turned behaviour fuel (top :: rest) heap
      (drive behaviour fuel (top :: rest) (heap.set top (.failed fault)))
  | performed {top : Ref} {rest inputs : List Ref} {heap heap₁ : Heap τ} {task : τ}
    {values : List Value} {cell : Cell τ} (found : heap.get top = .pending inputs task)
    (ready : ∀ input ∈ inputs, heap.isSettled input = true)
    (got : heap.values inputs = .ok values)
    (performed : Performed behaviour (force behaviour fuel) (behaviour task values) (heap.resume top)
      (.ok cell heap₁)) :
    Turned behaviour fuel (top :: rest) heap (drive behaviour fuel (top :: rest) (heap₁.set top cell))
  | unperformed {top : Ref} {rest inputs : List Ref} {heap heap₁ : Heap τ} {task : τ}
    {values : List Value} (found : heap.get top = .pending inputs task)
    (ready : ∀ input ∈ inputs, heap.isSettled input = true)
    (got : heap.values inputs = .ok values)
    (performed : Performed behaviour (force behaviour fuel) (behaviour task values) (heap.resume top)
      (.error .exhausted heap₁)) :
    Turned behaviour fuel (top :: rest) heap (.error .exhausted (heap₁.set top (.pending inputs task)))

theorem drive_turned (behaviour : Behaviour τ) (fuel : Nat) (stack : List Ref) (heap : Heap τ) :
    Turned behaviour fuel stack heap (drive behaviour (fuel + 1) stack heap) := by
  cases stack with
  | nil => exact .empty heap
  | cons top rest =>
    rw [drive]
    cases found : heap.get top with
    | forced value =>
      have known : heap.settled? top = some (.ok value) := by simp [settled?, found, Cell.settled?]
      exact .settled known
    | failed fault =>
      have known : heap.settled? top = some (.error fault) := by simp [settled?, found, Cell.settled?]
      exact .settled known
    | running => exact .running found
    | delegated target =>
      simp only
      cases known : heap.settled? target with
      | some outcome => exact .copied found known
      | none =>
        have waits : heap.Waits top target := by simp [Waits, found, Cell.awaits, isSettled, known]
        exact .waits waits
    | pending inputs task =>
      simp only
      cases opened : inputs.find? fun input => !heap.isSettled input with
      | some input =>
        have waits : heap.Waits top input := by simpa [Waits, found, Cell.awaits] using opened
        exact .waits waits
      | none =>
        have ready : ∀ input ∈ inputs, heap.isSettled input = true := by simpa using opened
        cases got : heap.values inputs with
        | error fault => exact .failed found ready got
        | ok values =>
          simp only
          have performed := @perform_performed τ behaviour (force behaviour fuel) fuel
            (behaviour task values) (heap.resume top)
          unfold force at performed
          split
          · next cell heap₁ ran =>
            rw [ran] at performed
            exact .performed found ready got performed
          · next interrupt heap₁ ran =>
            rw [ran] at performed
            cases performed.exhausted_of_error
            exact .unperformed found ready got performed

end Turns

section Moves

variable {behaviour : Behaviour τ} {heap heap' heap'' : Heap τ} {ref : Ref}
  {stack stack' stack'' rest : List Ref}

def Moves (behaviour : Behaviour τ) (stack : List Ref) (heap : Heap τ) (stack' : List Ref)
    (heap' : Heap τ) : Prop :=
  ∃ turns bound, ∀ fuel, bound ≤ fuel →
    drive behaviour (fuel + turns) stack heap = drive behaviour fuel stack' heap'

def Performs (behaviour : Behaviour τ) (step : Step τ) (heap : Heap τ)
    (result : EStateM.Result Interrupt (Heap τ) (Cell τ)) : Prop :=
  ∃ bound, ∀ limit fuel, bound ≤ limit → bound ≤ fuel →
    perform behaviour (force behaviour limit) fuel step heap = result

theorem Moves.refl (stack : List Ref) (heap : Heap τ) : Moves behaviour stack heap stack heap :=
  ⟨0, 0, fun _ _ => rfl⟩

theorem Moves.trans (first : Moves behaviour stack heap stack' heap')
    (second : Moves behaviour stack' heap' stack'' heap'') :
    Moves behaviour stack heap stack'' heap'' := by
  obtain ⟨turns, bound, first⟩ := first
  obtain ⟨turns', bound', second⟩ := second
  refine ⟨turns' + turns, max bound bound', fun fuel enough => ?_⟩
  rw [← Nat.add_assoc, first (fuel + turns') (by omega), second fuel (by omega)]

theorem Moves.eventually {result : EStateM.Result Interrupt (Heap τ) Unit}
    (moves : Moves behaviour stack heap stack' heap')
    (later : Eventually (fun fuel => drive behaviour fuel stack') heap' result) :
    Eventually (fun fuel => drive behaviour fuel stack) heap result := by
  obtain ⟨turns, bound, moves⟩ := moves
  obtain ⟨bound', later⟩ := later
  refine ⟨max bound bound' + turns, fun fuel enough => ?_⟩
  obtain ⟨spare, rfl⟩ : ∃ spare, fuel = spare + turns := ⟨fuel - turns, by omega⟩
  exact (moves spare (by omega)).trans (later spare (by omega))

theorem Moves.drains (moves : Moves behaviour [ref] heap [] heap') :
    Eventually (fun fuel => drive behaviour fuel [ref]) heap (.ok () heap') := by
  refine moves.eventually ⟨1, fun fuel enough => ?_⟩
  obtain ⟨spare, rfl⟩ : ∃ spare, fuel = spare + 1 := ⟨fuel - 1, by omega⟩
  rfl

theorem Moves.force {outcome : Outcome} (moves : Moves behaviour [ref] heap [] heap')
    (known : heap'.settled? ref = some outcome) :
    Eventually (fun fuel => force behaviour fuel ref) heap (HeapM.ofOutcome outcome heap') := by
  refine moves.drains.bind (eventually_of_forall fun _ => ?_)
  simp only [read, known, Option.getD_some]

-- Forcing the cell with enough fuel leads to the outcome.
def Yields (behaviour : Behaviour τ) (heap : Heap τ) (ref : Ref) (outcome : Outcome) : Prop :=
  ∃ heap', Eventually (fun fuel => force behaviour fuel ref) heap (HeapM.ofOutcome outcome heap')

theorem forced_unique {outcome outcome' : Outcome}
    (forced : Eventually (fun fuel => force behaviour fuel ref) heap (HeapM.ofOutcome outcome heap'))
    (forced' : Eventually (fun fuel => force behaviour fuel ref) heap (HeapM.ofOutcome outcome' heap'')) :
    outcome = outcome' ∧ heap' = heap'' := by
  have same := forced.unique forced'
  cases outcome <;> cases outcome' <;> cases same <;> exact ⟨rfl, rfl⟩

theorem Yields.unique {outcome outcome' : Outcome} (yields : Yields behaviour heap ref outcome)
    (yields' : Yields behaviour heap ref outcome') : outcome = outcome' := by
  obtain ⟨_, forced⟩ := yields
  obtain ⟨_, forced'⟩ := yields'
  exact (forced_unique forced forced').1

theorem moves_turn (same : ∀ fuel, drive behaviour (fuel + 1) stack heap =
    drive behaviour fuel stack' heap') : Moves behaviour stack heap stack' heap' :=
  ⟨1, 0, fun fuel _ => same fuel⟩

theorem moves_pop (known : heap.isSettled ref = true) :
    Moves behaviour (ref :: rest) heap rest heap := by
  refine moves_turn fun fuel => ?_
  rw [drive]
  cases found : heap.get ref <;> simp_all [isSettled, settled?, Cell.settled?]

theorem drive_running (found : heap.get ref = .running) :
    Eventually (fun fuel => drive behaviour fuel (ref :: rest)) heap
      (.error (.fault .dependsOnItself) heap) := by
  refine ⟨1, fun fuel enough => ?_⟩
  obtain ⟨spare, rfl⟩ : ∃ spare, fuel = spare + 1 := ⟨fuel - 1, by omega⟩
  simp only [drive, found]

theorem Yields.inside {value : Value} (yields : Yields behaviour heap ref (.ok value)) : ref < heap.cells.size := by
  obtain ⟨heap', forced⟩ := yields
  apply inside_of_get_ne
  intro running
  have failed : Eventually (fun fuel => force behaviour fuel ref) heap (.error (.fault .dependsOnItself) heap) :=
    (drive_running running).bind_error
  cases forced.unique failed

-- The cell awaited is put on top.
theorem moves_push {other : Ref} (waits : heap.Waits ref other) :
    Moves behaviour (ref :: rest) heap (other :: ref :: rest) heap := by
  refine moves_turn fun fuel => ?_
  have unsettled : heap.settled? other = none := by simpa [isSettled] using waits.unsettled
  unfold Waits at waits
  rw [drive]
  cases found : heap.get ref with
  | pending inputs task =>
    rw [found] at waits
    simp only [Cell.awaits] at waits
    simp only [waits]
  | delegated target =>
    rw [found] at waits
    have awaited := List.mem_of_find?_eq_some waits
    rw [Cell.awaits, List.mem_singleton] at awaited
    subst awaited
    simp only [unsettled]
  | _ => simp [found, Cell.awaits] at waits

theorem moves_copy {target : Ref} {outcome : Outcome} (found : heap.get ref = .delegated target)
    (known : heap.settled? target = some outcome) :
    Moves behaviour (ref :: rest) heap (ref :: rest) (heap.set ref (.ofOutcome outcome)) := by
  refine moves_turn fun fuel => ?_
  rw [drive]
  simp only [found, known]

section Pending

variable {inputs : List Ref} {task : τ} (found : heap.get ref = .pending inputs task)
  (ready : ∀ input ∈ inputs, heap.isSettled input = true)
include found ready

theorem moves_fail {fault : Fault} (failed : heap.values inputs = .error fault) :
    Moves behaviour (ref :: rest) heap (ref :: rest) (heap.set ref (.failed fault)) := by
  have none : inputs.find? (fun input => !heap.isSettled input) = none := by simpa using ready
  refine moves_turn fun fuel => ?_
  rw [drive]
  simp only [found, none, failed]

theorem moves_perform {values : List Value} {cell : Cell τ} (got : heap.values inputs = .ok values)
    (performs : Performs behaviour (behaviour task values) (heap.resume ref) (.ok cell heap')) :
    Moves behaviour (ref :: rest) heap (ref :: rest) (heap'.set ref cell) := by
  have none : inputs.find? (fun input => !heap.isSettled input) = none := by simpa using ready
  obtain ⟨bound, performs⟩ := performs
  refine ⟨1, bound, fun fuel enough => ?_⟩
  have ran := performs fuel fuel enough enough
  unfold force at ran
  rw [drive]
  simp only [found, none, got, ran]

end Pending

variable {result : EStateM.Result Interrupt (Heap τ) (Cell τ)}

theorem performs_done (value : Value) (heap : Heap τ) :
    Performs behaviour (.done value) heap (.ok (.forced value) heap) :=
  ⟨0, fun _ fuel _ _ => by cases fuel <;> rfl⟩

theorem performs_fail (fault : Fault) (heap : Heap τ) :
    Performs behaviour (.fail fault) heap (.ok (.failed fault) heap) :=
  ⟨0, fun _ fuel _ _ => by cases fuel <;> rfl⟩

theorem performs_defer (target : Ref) (heap : Heap τ) :
    Performs behaviour (.defer target) heap (.ok (.delegated target) heap) :=
  ⟨0, fun _ fuel _ _ => by cases fuel <;> rfl⟩

-- One action, and then what is left to do with one unit of fuel less.
theorem Performs.after {step next : Step τ} (later : Performs behaviour next heap' result) (least : Nat)
    (first : ∀ limit fuel, least ≤ limit → perform behaviour (Heap.force behaviour limit) (fuel + 1) step heap =
      perform behaviour (Heap.force behaviour limit) fuel next heap') :
    Performs behaviour step heap result := by
  obtain ⟨bound, later⟩ := later
  refine ⟨max least bound + 1, fun limit fuel enough enough' => ?_⟩
  obtain ⟨spare, rfl⟩ : ∃ spare, fuel = spare + 1 := ⟨fuel - 1, by omega⟩
  rw [first limit spare (by omega)]
  exact later limit spare (by omega) (by omega)

theorem performs_alloc {origin : Fresh τ} {next : Ref → Step τ}
    (later : Performs behaviour (next heap.cells.size) (heap.push origin.cell) result) :
    Performs behaviour (.alloc origin next) heap result :=
  later.after 0 fun _ _ _ => rfl

theorem performs_become {task : τ} (later : Performs behaviour (behaviour task []) heap result) :
    Performs behaviour (.become task) heap result :=
  later.after 0 fun _ _ _ => rfl

theorem performs_demand {target : Ref} {next : Outcome → Step τ} {outcome : Outcome}
    (forced : Eventually (fun fuel => Heap.force behaviour fuel target) heap (HeapM.ofOutcome outcome heap'))
    (later : Performs behaviour (next outcome) heap' result) :
    Performs behaviour (.demand target next) heap result := by
  obtain ⟨least, forced⟩ := forced
  refine later.after least fun limit fuel enough => ?_
  have forced : Heap.force behaviour limit target heap = HeapM.ofOutcome outcome heap' := forced limit enough
  rw [perform, forced]
  cases outcome <;> rfl

end Moves

section Fuel

variable {behaviour : Behaviour τ} {heap heap' : Heap τ} {fuel more : Nat}

def Finished {α : Type} (result : EStateM.Result Interrupt (Heap τ) α) : Prop :=
  ∀ heap, result ≠ .error .exhausted heap

theorem perform_more {nested nested' : Ref → HeapM τ Value} {step : Step τ}
    (keeps : ∀ ref heap, Finished (nested ref heap) → nested' ref heap = nested ref heap) (enough : fuel ≤ more)
    (finished : Finished (perform behaviour nested fuel step heap)) :
    perform behaviour nested' more step heap = perform behaviour nested fuel step heap := by
  induction fuel generalizing more step heap with
  | zero =>
    cases step with
    | done | fail | defer => cases more <;> rfl
    | alloc | demand | become => exact absurd rfl (finished heap)
  | succ fuel ih =>
    obtain ⟨spare, rfl⟩ : ∃ spare, more = spare + 1 := ⟨more - 1, by omega⟩
    have enough : fuel ≤ spare := by omega
    cases step with
    | done | fail | defer => rfl
    | alloc origin next => exact ih enough finished
    | become task => exact ih enough finished
    | demand target next =>
      rw [perform] at finished
      rw [perform, perform]
      cases forced : nested target heap with
      | ok value heap₁ =>
        have kept := keeps target heap (by simp [Finished, forced])
        simp only [forced] at finished kept ⊢
        rw [kept]
        exact ih enough finished
      | error interrupt heap₁ =>
        cases interrupt with
        | exhausted =>
          rw [forced] at finished
          exact absurd rfl (finished heap₁)
        | fault fault =>
          have kept := keeps target heap (by simp [Finished, forced])
          simp only [forced] at finished kept ⊢
          rw [kept]
          exact ih enough finished

theorem finished_bind {α β : Type} {computation : HeapM τ α} {next : α → HeapM τ β}
    (finished : Finished ((computation >>= next) heap)) : Finished (computation heap) := by
  intro heap₁ ran
  refine finished heap₁ ?_
  simp only [Bind.bind, EStateM.bind, ran]

theorem drive_more (stack : List Ref) (enough : fuel ≤ more) (finished : Finished (drive behaviour fuel stack heap)) :
    drive behaviour more stack heap = drive behaviour fuel stack heap := by
  induction fuel generalizing more stack heap with
  | zero => exact absurd rfl (finished heap)
  | succ fuel ih =>
    obtain ⟨spare, rfl⟩ : ∃ spare, more = spare + 1 := ⟨more - 1, by omega⟩
    have enough : fuel ≤ spare := by omega
    cases stack with
    | nil => rfl
    | cons top rest =>
      rw [drive] at finished
      rw [drive, drive]
      cases found : heap.get top with
      | forced | failed =>
        simp only [found] at finished ⊢
        exact ih rest enough finished
      | running => rfl
      | delegated target =>
        simp only [found] at finished ⊢
        split
        · next known =>
          simp only [known] at finished
          exact ih _ enough finished
        · next unknown =>
          simp only [unknown] at finished
          exact ih _ enough finished
      | pending inputs task =>
        simp only [found] at finished ⊢
        split
        · next missing =>
          simp only [missing] at finished
          exact ih _ enough finished
        · next ready =>
          simp only [ready] at finished
          split
          · next failed =>
            simp only [failed] at finished
            exact ih _ enough finished
          · next values got =>
            simp only [got] at finished
            have nested (ref : Ref) (heap : Heap τ) (finished : Finished (force behaviour fuel ref heap)) :
                force behaviour spare ref heap = force behaviour fuel ref heap := by
              simp only [force, Bind.bind, EStateM.bind]
              rw [ih [ref] enough (finished_bind finished)]
            unfold force at nested
            cases ran : perform behaviour (force behaviour fuel) fuel (behaviour task values) (heap.resume top) with
            | error interrupt heap₁ =>
              have performed := @perform_performed τ behaviour (force behaviour fuel) fuel (behaviour task values)
                (heap.resume top)
              rw [ran] at performed
              cases performed.exhausted_of_error
              unfold force at ran
              simp only [ran] at finished
              exact absurd rfl (finished _)
            | ok cell heap₁ =>
              unfold force at ran
              simp only [ran] at finished ⊢
              rw [perform_more nested enough (by simp [Finished, ran]), ran]
              exact ih _ enough finished

theorem force_more {ref : Ref} (enough : fuel ≤ more) (finished : Finished (force behaviour fuel ref heap)) :
    force behaviour more ref heap = force behaviour fuel ref heap := by
  simp only [force, Bind.bind, EStateM.bind]
  rw [drive_more [ref] enough (finished_bind finished)]

theorem force_eventually_of_ran {ref : Ref} {outcome : Outcome}
    (ran : force behaviour fuel ref heap = HeapM.ofOutcome outcome heap') :
    Eventually (fun fuel => force behaviour fuel ref) heap (HeapM.ofOutcome outcome heap') := by
  refine ⟨fuel, fun more enough => ?_⟩
  rw [← ran]
  refine force_more enough fun heap₁ exhausted => ?_
  rw [ran] at exhausted
  cases outcome <;> cases exhausted

theorem performs_of_ran {limit : Nat} {step : Step τ} {cell : Cell τ}
    (ran : perform behaviour (force behaviour limit) fuel step heap = .ok cell heap') :
    Performs behaviour step heap (.ok cell heap') := by
  refine ⟨max limit fuel, fun limit' fuel' enough enough' => ?_⟩
  rw [← ran]
  exact perform_more (fun ref heap => force_more (by omega)) (by omega) (by simp [Finished, ran])

end Fuel

end Heap

end ByNeed
