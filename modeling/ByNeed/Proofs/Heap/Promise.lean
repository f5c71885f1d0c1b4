import ByNeed.Proofs.Heap.Memo

set_option autoImplicit false

-- For each cell that may be forced there is a promise: what it will come to, and a rank. A cell needs
-- only cells of lower rank, so no force comes back to a cell whose task is being performed, and every
-- force ends. The rank is given when the cell is made and need not follow the order in which cells are
-- made: a cell made while a task is performed ranks below the cell of that task.
namespace ByNeed

variable {τ π : Type}

structure Plan (π : Type) where
  size : Nat
  promise : Ref → Option π

namespace Plan

variable {plan plan' plan'' : Plan π} {ref : Ref} {promise promise' : π}

def Promises (plan : Plan π) (ref : Ref) (promise : π) : Prop :=
  ref < plan.size ∧ plan.promise ref = some promise

def push (plan : Plan π) (promise : π) : Plan π where
  size := plan.size + 1
  promise ref := if ref = plan.size then some promise else plan.promise ref

def Has (plan : Plan π) (ref : Ref) : Prop :=
  ∃ promise, plan.Promises ref promise

def Total (plan : Plan π) : Prop :=
  ∀ ref, ref < plan.size → plan.Has ref

structure Extends (plan plan' : Plan π) : Prop where
  size : plan.size ≤ plan'.size
  promise : ∀ ref, ref < plan.size → plan'.promise ref = plan.promise ref
  made : ∀ ref, plan.size ≤ ref → ref < plan'.size → plan'.Has ref

theorem Promises.unique (promises : plan.Promises ref promise) (promises' : plan.Promises ref promise') :
    promise = promise' :=
  Option.some.inj (promises.2.symm.trans promises'.2)

theorem Extends.refl (plan : Plan π) : plan.Extends plan :=
  ⟨Nat.le_refl _, fun _ _ => rfl, fun _ outside inside => absurd inside (Nat.not_lt_of_le outside)⟩

theorem Promises.extend (promises : plan.Promises ref promise) (extends' : plan.Extends plan') :
    plan'.Promises ref promise :=
  ⟨Nat.lt_of_lt_of_le promises.1 extends'.size, (extends'.promise ref promises.1).trans promises.2⟩

theorem Extends.trans (first : plan.Extends plan') (second : plan'.Extends plan'') :
    plan.Extends plan'' where
  size := Nat.le_trans first.size second.size
  promise ref inside :=
    (second.promise ref (Nat.lt_of_lt_of_le inside first.size)).trans (first.promise ref inside)
  made ref outside inside := by
    by_cases earlier : ref < plan'.size
    · obtain ⟨promise, promises⟩ := first.made ref outside earlier
      exact ⟨promise, promises.extend second⟩
    · exact second.made ref (Nat.le_of_not_lt earlier) inside

theorem Promises.restrict (promises : plan'.Promises ref promise) (extends' : plan.Extends plan')
    (inside : ref < plan.size) : plan.Promises ref promise :=
  ⟨inside, (extends'.promise ref inside).symm.trans promises.2⟩

theorem Has.extend (has : plan.Has ref) (extends' : plan.Extends plan') : plan'.Has ref := by
  obtain ⟨promise, promises⟩ := has
  exact ⟨promise, promises.extend extends'⟩

theorem Total.extend (total : plan.Total) (extends' : plan.Extends plan') : plan'.Total := by
  intro ref inside
  by_cases earlier : ref < plan.size
  · exact (total ref earlier).extend extends'
  · exact extends'.made ref (Nat.le_of_not_lt earlier) inside

theorem promises_push (plan : Plan π) (promise : π) : (plan.push promise).Promises plan.size promise :=
  ⟨Nat.lt_succ_self _, by simp [push]⟩

theorem extends_push (plan : Plan π) (promise : π) : plan.Extends (plan.push promise) where
  size := Nat.le_succ _
  promise ref inside := by simp [push, Nat.ne_of_lt inside]
  made ref outside inside := by
    rw [Nat.le_antisymm (Nat.le_of_lt_succ inside) outside]
    exact ⟨promise, plan.promises_push promise⟩

end Plan

def Heap.Finishes (heap heap' : Heap τ) : Prop :=
  ∀ ref, ref < heap.cells.size → heap'.get ref = heap.get ref ∨ heap'.isSettled ref = true

theorem Heap.Finishes.refl (heap : Heap τ) : heap.Finishes heap :=
  fun _ _ => .inl rfl

theorem Heap.Finishes.trans {heap heap' heap'' : Heap τ} (first : heap.Finishes heap')
    (second : heap'.Finishes heap'') (size : heap.cells.size ≤ heap'.cells.size)
    (settled : ∀ ref, heap'.isSettled ref = true → heap''.isSettled ref = true) : heap.Finishes heap'' := by
  intro ref inside
  rcases first ref inside with same | done
  · rw [← same]
    exact second ref (Nat.lt_of_lt_of_le inside size)
  · exact .inr (settled ref done)

/-- A kind of promise: its rank, and which cells are good for it while other cells are good for theirs. -/
structure Terms (τ π : Type) where
  rank : π → Nat
  Keeps : Plan π → π → Cell τ → Prop

namespace Terms

def Under (terms : Terms τ π) (plan : Plan π) (bound : Nat) (ref : Ref) : Prop :=
  ∃ promise, plan.Promises ref promise ∧ terms.rank promise < bound

/-- A step of a task leaves its cell good for its promise, and so are the cells it makes. Of a cell that
it forces it may rely on what that cell was promised. -/
inductive Realizes (terms : Terms τ π) (behaviour : Behaviour τ) (own : π) : Plan π → Step τ → Prop
  | done {plan : Plan π} {value : Value} (keeps : terms.Keeps plan own (.forced value)) :
    Realizes terms behaviour own plan (.done value)
  | fail {plan : Plan π} {fault : Fault} (keeps : terms.Keeps plan own (.failed fault)) :
    Realizes terms behaviour own plan (.fail fault)
  | defer {plan : Plan π} {target : Ref} (keeps : terms.Keeps plan own (.delegated target)) :
    Realizes terms behaviour own plan (.defer target)
  | alloc {plan : Plan π} {origin : Fresh τ} {next : Ref → Step τ} {promise : π}
    (lower : terms.rank promise < terms.rank own) (keeps : terms.Keeps plan promise origin.cell)
    (later : Realizes terms behaviour own (plan.push promise) (next plan.size)) :
    Realizes terms behaviour own plan (.alloc origin next)
  | demand {plan : Plan π} {target : Ref} {next : Outcome → Step τ} {promise : π}
    (promises : plan.Promises target promise) (lower : terms.rank promise < terms.rank own)
    (later : ∀ plan' outcome, plan.Extends plan' → terms.Keeps plan' promise (.ofOutcome outcome) →
      Realizes terms behaviour own plan' (next outcome)) :
    Realizes terms behaviour own plan (.demand target next)
  | become {plan : Plan π} {task : τ} (later : Realizes terms behaviour own plan (behaviour task [])) :
    Realizes terms behaviour own plan (.become task)

def Supplies (terms : Terms τ π) (plan : Plan π) (inputs : List Ref) (outcomes : Ref → Outcome) : Prop :=
  ∀ input ∈ inputs, ∀ promise, plan.Promises input promise →
    terms.Keeps plan promise (.ofOutcome (outcomes input))

/-- A cell that is good for its promise needs cells of lower rank only, and stays good for it whatever
it comes to from there. -/
structure Honoured (terms : Terms τ π) (behaviour : Behaviour τ) : Prop where
  idle : ∀ {plan : Plan π} {promise : π}, ¬ terms.Keeps plan promise .running
  extend : ∀ {plan plan' : Plan π} {promise : π} {cell : Cell τ}, terms.Keeps plan promise cell →
    plan.Extends plan' → terms.Keeps plan' promise cell
  awaited : ∀ {plan : Plan π} {promise : π} {cell : Cell τ}, terms.Keeps plan promise cell →
    ∀ other ∈ cell.awaits, terms.Under plan (terms.rank promise) other
  delegated : ∀ {plan : Plan π} {promise promise' : π} {target : Ref} {outcome : Outcome},
    terms.Keeps plan promise (.delegated target) → plan.Promises target promise' →
    terms.Keeps plan promise' (.ofOutcome outcome) → terms.Keeps plan promise (.ofOutcome outcome)
  failed : ∀ {plan : Plan π} {promise : π} {inputs : List Ref} {task : τ} {outcomes : Ref → Outcome}
    {fault : Fault}, terms.Keeps plan promise (.pending inputs task) → terms.Supplies plan inputs outcomes →
    inputs.mapM outcomes = .error fault → terms.Keeps plan promise (.failed fault)
  performed : ∀ {plan : Plan π} {promise : π} {inputs : List Ref} {task : τ} {outcomes : Ref → Outcome}
    {values : List Value}, terms.Keeps plan promise (.pending inputs task) →
    terms.Supplies plan inputs outcomes → inputs.mapM outcomes = .ok values →
    terms.Realizes behaviour promise plan (behaviour task values)

structure Follows (terms : Terms τ π) (bound : Nat) (plan : Plan π) (heap : Heap τ) : Prop where
  size : plan.size = heap.cells.size
  keeps : ∀ {ref : Ref} {promise : π}, plan.Promises ref promise → terms.rank promise < bound →
    terms.Keeps plan promise (heap.get ref)

/-- All that happens to a heap happens to cells of lower rank than the bound, and new cells are such. -/
structure Advances (terms : Terms τ π) (bound : Nat) (plan : Plan π) (heap : Heap τ) (plan' : Plan π)
    (heap' : Heap τ) : Prop where
  extends' : plan.Extends plan'
  follows : terms.Follows bound plan' heap'
  fresh : ∀ {ref : Ref} {promise : π}, plan'.Promises ref promise → plan.size ≤ ref →
    terms.rank promise < bound
  frame : ∀ ref, ref < plan.size → (∀ promise, plan.Promises ref promise → bound ≤ terms.rank promise) →
    heap'.get ref = heap.get ref
  settled : ∀ ref, heap.isSettled ref = true → heap'.get ref = heap.get ref

variable {terms : Terms τ π} {bound : Nat} {plan plan' plan'' : Plan π} {heap heap' heap'' : Heap τ}
  {ref : Ref} {promise : π} {cell : Cell τ}

theorem Under.extend (under : terms.Under plan bound ref) (extends' : plan.Extends plan') :
    terms.Under plan' bound ref := by
  obtain ⟨promise, promises, lower⟩ := under
  exact ⟨promise, promises.extend extends', lower⟩

theorem Under.mono {bound' : Nat} (under : terms.Under plan bound ref) (wider : bound ≤ bound') :
    terms.Under plan bound' ref := by
  obtain ⟨promise, promises, lower⟩ := under
  exact ⟨promise, promises, Nat.lt_of_lt_of_le lower wider⟩

theorem Follows.mono {bound' : Nat} (follows : terms.Follows bound plan heap) (narrower : bound' ≤ bound) :
    terms.Follows bound' plan heap where
  size := follows.size
  keeps promises lower := follows.keeps promises (Nat.lt_of_lt_of_le lower narrower)

namespace Advances

theorem refl (follows : terms.Follows bound plan heap) : terms.Advances bound plan heap plan heap where
  extends' := .refl plan
  follows := follows
  fresh promises outside := absurd promises.1 (Nat.not_lt_of_le outside)
  frame _ _ _ := rfl
  settled _ _ := rfl

theorem isSettled (advances : terms.Advances bound plan heap plan' heap')
    (known : heap.isSettled ref = true) : heap'.isSettled ref = true := by
  simpa [Heap.isSettled, Heap.settled?, advances.settled ref known] using known

theorem size (advances : terms.Advances bound plan heap plan' heap') (size : plan.size = heap.cells.size) :
    heap.cells.size ≤ heap'.cells.size := by
  rw [← size, ← advances.follows.size]
  exact advances.extends'.size

theorem trans (first : terms.Advances bound plan heap plan' heap')
    (second : terms.Advances bound plan' heap' plan'' heap'') :
    terms.Advances bound plan heap plan'' heap'' where
  extends' := first.extends'.trans second.extends'
  follows := second.follows
  fresh {ref promise} promises outside := by
    by_cases inside : ref < plan'.size
    · exact first.fresh (promises.restrict second.extends' inside) outside
    · exact second.fresh promises (Nat.le_of_not_lt inside)
  frame ref inside higher := by
    have inside' := Nat.lt_of_lt_of_le inside first.extends'.size
    have higher' (promise : π) (promises : plan'.Promises ref promise) : bound ≤ terms.rank promise :=
      higher promise (promises.restrict first.extends' inside)
    rw [second.frame ref inside' higher', first.frame ref inside higher]
  settled ref known := (second.settled ref (first.isSettled known)).trans (first.settled ref known)

theorem set (follows : terms.Follows bound plan heap) (unsettled : heap.isSettled ref = false)
    (promises : plan.Promises ref promise) (lower : terms.rank promise < bound) (keeps : terms.Keeps plan promise cell) :
    terms.Advances bound plan heap plan (heap.set ref cell) where
  extends' := .refl plan
  fresh promises outside := absurd promises.1 (Nat.not_lt_of_le outside)
  follows.size := by simp [follows.size]
  follows.keeps {other promise'} promises' lower' := by
    rw [Heap.get_set heap cell (follows.size ▸ promises.1)]
    split
    · next same =>
      subst same
      cases promises.unique promises'
      exact keeps
    · exact follows.keeps promises' lower'
  frame other inside higher := by
    apply Heap.get_set_of_ne
    rintro rfl
    exact absurd lower (Nat.not_lt_of_le (higher promise promises))
  settled other known := by
    apply Heap.get_set_of_ne
    rintro rfl
    simp [unsettled] at known

theorem push {behaviour : Behaviour τ} (honoured : terms.Honoured behaviour)
    (follows : terms.Follows bound plan heap) (lower : terms.rank promise < bound)
    (keeps : terms.Keeps plan promise cell) :
    terms.Advances bound plan heap (plan.push promise) (heap.push cell) where
  extends' := plan.extends_push promise
  fresh {ref promise'} promises outside := by
    have last : ref = plan.size := Nat.le_antisymm (Nat.le_of_lt_succ promises.1) outside
    subst last
    cases promises.unique (plan.promises_push promise)
    exact lower
  follows.size := by simp [Plan.push, follows.size]
  follows.keeps {ref promise'} promises lower' := by
    by_cases inside : ref < plan.size
    · rw [Heap.get_push_of_lt heap cell (follows.size ▸ inside)]
      exact honoured.extend (follows.keeps (promises.restrict (plan.extends_push promise) inside) lower')
        (plan.extends_push promise)
    · have last : ref = plan.size := Nat.le_antisymm (Nat.le_of_lt_succ promises.1) (Nat.le_of_not_lt inside)
      subst last
      cases promises.unique (plan.promises_push promise)
      rw [follows.size, Heap.get_push_size]
      exact honoured.extend keeps (plan.extends_push promise)
  frame ref inside _ := Heap.get_push_of_lt heap cell (follows.size ▸ inside)
  settled ref known := Heap.get_push_of_lt heap cell (Heap.inside_of_settled known)

-- A task was performed. While its cell ran, only cells of lower rank than that cell were touched.
theorem perform {behaviour : Behaviour τ} (honoured : terms.Honoured behaviour)
    (follows : terms.Follows bound plan heap) (unsettled : heap.isSettled ref = false)
    (promises : plan.Promises ref promise) (lower : terms.rank promise < bound)
    (inner : terms.Advances (terms.rank promise) plan (heap.resume ref) plan' heap')
    (keeps : terms.Keeps plan' promise cell) :
    terms.Advances bound plan heap plan' (heap'.set ref cell) := by
  have inside : ref < heap'.cells.size := by
    rw [← inner.follows.size]
    exact (promises.extend inner.extends').1
  have same (other : Ref) (different : ref ≠ other) (here : other < plan.size)
      (higher : ∀ promise', plan.Promises other promise' → terms.rank promise ≤ terms.rank promise') :
      (heap'.set ref cell).get other = heap.get other := by
    rw [Heap.get_set_of_ne _ _ different, inner.frame other here higher, Heap.get_resume_of_ne _ different]
  refine ⟨inner.extends', ⟨by simp [inner.follows.size], fun {other promise'} promises' lower' => ?_⟩,
    fun promises' outside => Nat.lt_trans (inner.fresh promises' outside) lower,
    fun other here higher => ?_, fun other known => ?_⟩
  · by_cases ours : ref = other
    · subst ours
      cases (promises.extend inner.extends').unique promises'
      rw [Heap.get_set_self _ _ inside]
      exact keeps
    · by_cases below : terms.rank promise' < terms.rank promise
      · rw [Heap.get_set_of_ne _ _ ours]
        exact inner.follows.keeps promises' below
      · have here : other < plan.size := by
          by_contra outside
          exact below (inner.fresh promises' (Nat.le_of_not_lt outside))
        have promises₀ := promises'.restrict inner.extends' here
        rw [same other ours here fun promise₁ promises₁ => by
          rw [promises₁.unique promises₀]
          exact Nat.le_of_not_lt below]
        exact honoured.extend (follows.keeps promises₀ lower') inner.extends'
  · refine same other ?_ here fun promise' promises' =>
      Nat.le_of_lt (Nat.lt_of_lt_of_le lower (higher promise' promises'))
    rintro rfl
    exact absurd lower (Nat.not_lt_of_le (higher promise promises))
  · have different : ref ≠ other := by
      rintro rfl
      simp [unsettled] at known
    have kept := Heap.get_resume_of_ne heap different
    rw [Heap.get_set_of_ne _ _ different, inner.settled other, kept]
    simpa [Heap.isSettled, Heap.settled?, kept] using known

end Advances

inductive Forces (terms : Terms τ π) (bound : Nat) (plan : Plan π) (heap : Heap τ) (ref : Ref) :
    EStateM.Result Interrupt (Heap τ) Value → Prop
  | outcome {outcome : Outcome} {plan' : Plan π} {heap' : Heap τ}
    (advances : terms.Advances bound plan heap plan' heap') (finishes : heap.Finishes heap')
    (known : heap'.settled? ref = some outcome) :
    Forces terms bound plan heap ref (HeapM.ofOutcome outcome heap')
  | exhausted {plan' : Plan π} {heap' : Heap τ} (advances : terms.Advances bound plan heap plan' heap') :
    Forces terms bound plan heap ref (.error .exhausted heap')

inductive Performs (terms : Terms τ π) (own : π) (plan : Plan π) (heap : Heap τ) :
    EStateM.Result Interrupt (Heap τ) (Cell τ) → Prop
  | cell {cell : Cell τ} {plan' : Plan π} {heap' : Heap τ}
    (advances : terms.Advances (terms.rank own) plan heap plan' heap') (finishes : heap.Finishes heap')
    (keeps : terms.Keeps plan' own cell) : Performs terms own plan heap (.ok cell heap')
  | exhausted {plan' : Plan π} {heap' : Heap τ}
    (advances : terms.Advances (terms.rank own) plan heap plan' heap') :
    Performs terms own plan heap (.error .exhausted heap')

inductive Drives (terms : Terms τ π) (bound : Nat) (plan : Plan π) (heap : Heap τ) :
    EStateM.Result Interrupt (Heap τ) Unit → Prop
  | done {plan' : Plan π} {heap' : Heap τ} (advances : terms.Advances bound plan heap plan' heap')
    (finishes : heap.Finishes heap') : Drives terms bound plan heap (.ok () heap')
  | exhausted {plan' : Plan π} {heap' : Heap τ} (advances : terms.Advances bound plan heap plan' heap') :
    Drives terms bound plan heap (.error .exhausted heap')

theorem Follows.promised {outcome : Outcome} (follows : terms.Follows bound plan heap)
    (promises : plan.Promises ref promise) (lower : terms.rank promise < bound)
    (known : heap.settled? ref = some outcome) : terms.Keeps plan promise (.ofOutcome outcome) :=
  Heap.get_of_settled? known ▸ follows.keeps promises lower

theorem Forces.of_outcome {outcome : Outcome}
    (forces : terms.Forces bound plan heap ref (HeapM.ofOutcome outcome heap')) :
    ∃ plan', terms.Advances bound plan heap plan' heap' ∧ heap.Finishes heap' ∧
      heap'.settled? ref = some outcome := by
  generalize ended : HeapM.ofOutcome outcome heap' = result at forces
  cases forces with
  | exhausted => cases outcome <;> cases ended
  | @outcome outcome' plan' _ advances finishes known =>
    cases outcome <;> cases outcome' <;> cases ended <;> exact ⟨plan', advances, finishes, known⟩

theorem Forces.of_exhausted (forces : terms.Forces bound plan heap ref (.error .exhausted heap')) :
    ∃ plan', terms.Advances bound plan heap plan' heap' := by
  generalize ended : EStateM.Result.error Interrupt.exhausted heap' = result at forces
  cases forces with
  | @exhausted plan' _ advances =>
    cases ended
    exact ⟨plan', advances⟩
  | @outcome outcome => cases outcome <;> cases ended

theorem Performs.after {own : π} {result : EStateM.Result Interrupt (Heap τ) (Cell τ)}
    (later : terms.Performs own plan' heap' result)
    (first : terms.Advances (terms.rank own) plan heap plan' heap') (finishes : heap.Finishes heap')
    (size : plan.size = heap.cells.size) : terms.Performs own plan heap result := by
  cases later with
  | cell advances finishes' keeps =>
    exact .cell (first.trans advances)
      (finishes.trans finishes' (first.size size) fun _ => advances.isSettled) keeps
  | exhausted advances => exact .exhausted (first.trans advances)

theorem Follows.resume (follows : terms.Follows bound plan heap) (promises : plan.Promises ref promise)
    (lower : terms.rank promise < bound) : terms.Follows (terms.rank promise) plan (heap.resume ref) where
  size := by simp [follows.size]
  keeps {other promise'} promises' lower' := by
    rw [Heap.get_resume_of_ne]
    · exact follows.keeps promises' (Nat.lt_trans lower' lower)
    · rintro rfl
      cases promises.unique promises'
      exact absurd lower' (Nat.lt_irrefl _)

-- The cell on top has changed, and the loop goes on until it is settled.
theorem Drives.after {top : Ref} {result : EStateM.Result Interrupt (Heap τ) Unit}
    (later : terms.Drives bound plan' heap' result) (settles : ∀ heap'', result = .ok () heap'' →
      heap''.isSettled top = true) (size : plan.size = heap.cells.size)
    (advances : terms.Advances bound plan heap plan' heap')
    (finishes : ∀ ref, ref < heap.cells.size → top ≠ ref →
      heap'.get ref = heap.get ref ∨ heap'.isSettled ref = true) :
    terms.Drives bound plan heap result := by
  cases later with
  | exhausted advances' => exact .exhausted (advances.trans advances')
  | done advances' finishes' =>
    refine .done (advances.trans advances') fun ref inside => ?_
    by_cases same : top = ref
    · exact .inr (same ▸ settles _ rfl)
    · rcases finishes ref inside same with kept | done
      · rw [← kept]
        exact finishes' ref (Nat.lt_of_lt_of_le inside (advances.size size))
      · exact .inr (advances'.isSettled done)

theorem Drives.forces {behaviour : Behaviour τ} {fuel : Nat}
    (drives : terms.Drives bound plan heap (Heap.drive behaviour fuel [ref] heap)) :
    terms.Forces bound plan heap ref (Heap.force behaviour fuel ref heap) := by
  simp only [Heap.force, Bind.bind, EStateM.bind]
  cases drove : Heap.drive behaviour fuel [ref] heap with
  | error interrupt heap₁ =>
    rw [drove] at drives
    cases drives with
    | exhausted advances => exact .exhausted advances
  | ok _ heap₁ =>
    rw [drove] at drives
    cases drives with
    | done advances finishes =>
      have settled := Heap.drive_settles fuel [ref] drove ref List.mem_cons_self
      obtain ⟨outcome, known⟩ := Option.isSome_iff_exists.mp settled
      simp only [Heap.read, known, Option.getD_some]
      exact .outcome advances finishes known

section Running

variable {behaviour : Behaviour τ} (honoured : terms.Honoured behaviour)
include honoured

theorem Follows.supplies {inputs : List Ref} {task : τ} (follows : terms.Follows bound plan heap)
    (keeps : terms.Keeps plan promise (.pending inputs task)) (lower : terms.rank promise < bound)
    (ready : ∀ input ∈ inputs, heap.isSettled input = true) :
    terms.Supplies plan inputs fun ref => (heap.settled? ref).getD (.error .dependsOnItself) := by
  intro input member promise' promises
  obtain ⟨outcome, known⟩ := Option.isSome_iff_exists.mp (ready input member)
  obtain ⟨promise'', promises', lower'⟩ := honoured.awaited keeps input member
  cases promises.unique promises'
  simp only [known, Option.getD_some]
  exact follows.promised promises (Nat.lt_trans lower' lower) known

-- A step goes on from any heap that follows the plan it has got to.
theorem Realizes.performs {own : π} {step : Step τ} {nested : Ref → HeapM τ Value}
    (forces : ∀ bound plan heap ref, terms.Follows bound plan heap → terms.Under plan bound ref →
      terms.Forces bound plan heap ref (nested ref heap))
    (realizes : terms.Realizes behaviour own plan step) (follows : terms.Follows (terms.rank own) plan heap)
    {result : EStateM.Result Interrupt (Heap τ) (Cell τ)}
    (performed : Heap.Performed behaviour nested step heap result) : terms.Performs own plan heap result := by
  induction performed generalizing plan with
  | done | fail | defer =>
    cases realizes with | _ keeps => exact .cell (.refl follows) (.refl _) keeps
  | exhausted => exact .exhausted (.refl follows)
  | @alloc origin _ heap _ _ ih =>
    cases realizes with
    | alloc lower keeps later =>
      have first := Advances.push honoured follows lower keeps
      have finishes : heap.Finishes (heap.push origin.cell) := fun ref inside => .inl (Heap.get_push_of_lt heap _ inside)
      rw [follows.size] at later
      exact (ih later first.follows).after first finishes follows.size
  | @demand target _ heap heap₁ outcome _ forced _ ih =>
    cases realizes with
    | demand promises lower later =>
      have first := forces _ plan heap target follows ⟨_, promises, lower⟩
      rw [forced] at first
      obtain ⟨plan₁, advances, finishes, known⟩ := first.of_outcome
      have keeps := advances.follows.promised (promises.extend advances.extends') lower known
      exact (ih (later plan₁ outcome advances.extends' keeps) advances.follows).after advances finishes
        follows.size
  | become _ ih =>
    cases realizes with
    | become later => exact ih later follows
  | @unforced target _ heap heap₁ forced =>
    cases realizes with
    | demand promises lower later =>
      have first := forces _ plan heap target follows ⟨_, promises, lower⟩
      rw [forced] at first
      obtain ⟨plan₁, advances⟩ := first.of_exhausted
      exact .exhausted advances

theorem drive_follows (fuel : Nat) (stack : List Ref) (follows : terms.Follows bound plan heap)
    (under : ∀ ref ∈ stack, terms.Under plan bound ref) :
    terms.Drives bound plan heap (Heap.drive behaviour fuel stack heap) := by
  induction fuel generalizing stack bound plan heap with
  | zero => exact .exhausted (.refl follows)
  | succ fuel ih =>
    have changed {plan₁ : Plan π} {heap₁ : Heap τ} {top : Ref} (isTop : top ∈ stack)
        (advances : terms.Advances bound plan heap plan₁ heap₁)
        (finishes : ∀ ref, ref < heap.cells.size → top ≠ ref →
          heap₁.get ref = heap.get ref ∨ heap₁.isSettled ref = true) :
        terms.Drives bound plan heap (Heap.drive behaviour fuel stack heap₁) :=
      (ih stack advances.follows fun ref member => (under ref member).extend advances.extends').after
        (fun _ drove => Heap.drive_settles fuel stack drove top isTop) follows.size advances finishes
    have forces (bound : Nat) (plan : Plan π) (heap : Heap τ) (ref : Ref)
        (follows : terms.Follows bound plan heap) (under : terms.Under plan bound ref) :
        terms.Forces bound plan heap ref (Heap.force behaviour fuel ref heap) :=
      (ih [ref] follows (by simpa using under)).forces
    have turned := Heap.drive_turned behaviour fuel stack heap
    generalize Heap.drive behaviour (fuel + 1) stack heap = result at turned
    cases turned with
    | empty => exact .done (.refl follows) (.refl heap)
    | settled => exact ih _ follows fun ref member => under ref (List.mem_cons_of_mem _ member)
    | @running top _ _ found =>
      obtain ⟨promise, promises, lower⟩ := under top List.mem_cons_self
      exact absurd (found ▸ follows.keeps promises lower) honoured.idle
    | @waits top other rest _ waits =>
      obtain ⟨promise, promises, lower⟩ := under top List.mem_cons_self
      have below := honoured.awaited (follows.keeps promises lower) other waits.awaited
      exact ih _ follows (List.forall_mem_cons.mpr ⟨below.mono (Nat.le_of_lt lower), under⟩)
    | @copied top target _ _ outcome found known =>
      obtain ⟨promise, promises, lower⟩ := under top List.mem_cons_self
      have keeps := follows.keeps promises lower
      obtain ⟨promise', promises', lower'⟩ := honoured.awaited keeps target (by simp [found, Cell.awaits])
      rw [found] at keeps
      have copied := honoured.delegated keeps promises'
        (follows.promised promises' (Nat.lt_trans lower' lower) known)
      exact changed List.mem_cons_self (.set follows (Heap.not_settled found rfl) promises lower copied)
        fun ref _ different => .inl (Heap.get_set_of_ne heap _ different)
    | @failed top _ inputs _ task fault found ready failed =>
      obtain ⟨promise, promises, lower⟩ := under top List.mem_cons_self
      have keeps := follows.keeps promises lower
      rw [found] at keeps
      exact changed List.mem_cons_self
        (.set follows (Heap.not_settled found rfl) promises lower
          (honoured.failed keeps (follows.supplies honoured keeps lower ready) failed))
        fun ref _ different => .inl (Heap.get_set_of_ne heap _ different)
    | @performed top _ inputs _ heap₁ task values cell found ready got performed =>
      obtain ⟨promise, promises, lower⟩ := under top List.mem_cons_self
      have keeps := follows.keeps promises lower
      rw [found] at keeps
      have realizes := honoured.performed keeps (follows.supplies honoured keeps lower ready) got
      cases realizes.performs honoured forces (follows.resume promises lower) performed with
      | cell advances finishes keeps' =>
        refine changed List.mem_cons_self
          (.perform honoured follows (Heap.not_settled found rfl) promises lower advances keeps') ?_
        intro ref inside different
        have kept := finishes ref (by simpa using inside)
        rw [Heap.get_resume_of_ne _ different] at kept
        simpa [Heap.isSettled, Heap.settled?, Heap.get_set_of_ne _ _ different] using kept
    | @unperformed top _ inputs _ heap₁ task values found ready got performed =>
      obtain ⟨promise, promises, lower⟩ := under top List.mem_cons_self
      have keeps := follows.keeps promises lower
      rw [found] at keeps
      have realizes := honoured.performed keeps (follows.supplies honoured keeps lower ready) got
      cases realizes.performs honoured forces (follows.resume promises lower) performed with
      | exhausted advances =>
        exact .exhausted (.perform honoured follows (Heap.not_settled found rfl) promises lower advances
          (honoured.extend keeps advances.extends'))

theorem force_follows (fuel : Nat) (follows : terms.Follows bound plan heap)
    (under : terms.Under plan bound ref) :
    terms.Forces bound plan heap ref (Heap.force behaviour fuel ref heap) :=
  (drive_follows honoured fuel [ref] follows (by simpa using under)).forces

theorem Realizes.advances {own : π} {step : Step τ} (realizes : terms.Realizes behaviour own plan step)
    (follows : terms.Follows (terms.rank own) plan heap) {fuel : Nat}
    (ran : Heap.perform behaviour (Heap.force behaviour fuel) fuel step heap = .ok cell heap') :
    ∃ plan', terms.Advances (terms.rank own) plan heap plan' heap' ∧ heap.Finishes heap' ∧
      terms.Keeps plan' own cell := by
  have performed := @Heap.perform_performed τ behaviour (Heap.force behaviour fuel) fuel step heap
  rw [ran] at performed
  cases realizes.performs honoured (fun _ _ _ _ => force_follows honoured fuel) follows performed with
  | cell advances finishes keeps => exact ⟨_, advances, finishes, keeps⟩

end Running

end Terms

end ByNeed
