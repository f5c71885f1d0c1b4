import ByNeed.Proofs.Heap.Deep
import ByNeed.Proofs.Heap.Task

set_option autoImplicit false

-- Exploring a cell forces it and every cell in its value, and every cell in their values. A fault of an inner
-- cell is part of what is found and ends nothing. What is found is what the cell is promised.
namespace ByNeed

mutual

def Value.explore (look : Ref → HeapM Task Complete) : Value → HeapM Task Tree
  | .integer value => return .integer value
  | .float value => return .float value
  | .string text => return .string text
  | .boolean value => return .boolean value
  | .list elements => return .list (← elements.mapM look)
  | .record type fields => return .record type (← Value.exploreFields look fields)

def Value.exploreFields (look : Ref → HeapM Task Complete) :
    List (String × Value) → HeapM Task (List (String × Tree))
  | [] => return []
  | (name, value) :: rest => do
    let tree ← value.explore look
    return (name, tree) :: (← Value.exploreFields look rest)

end

namespace Heap

def explore : Nat → Ref → HeapM Task Complete
  | 0, _ => throw .exhausted
  | fuel + 1, ref => do
    match ← HeapM.outcome (force Task.run (fuel + 1) ref) with
    | .ok value => return .ok (← value.explore (explore fuel))
    | .error fault => return .error fault

def Finds (plan : Plan Promise) (look : Nat → Ref → HeapM Task Complete) (ref : Ref) : Prop :=
  ∀ plan' heap', Task.reading.terms.Holds plan' heap' → plan.Extends plan' →
    ∃ plan'' heap'', Task.reading.terms.Holds plan'' heap'' ∧ plan.Extends plan'' ∧
      Eventually (fun fuel => look fuel ref) heap' (.ok (plan.meaning ref) heap'')

variable {plan plan' : Plan Promise} {heap heap' : Heap Task} {look : Nat → Ref → HeapM Task Complete}

theorem mapM_finds {refs : List Ref} (finds : ∀ ref ∈ refs, Finds plan look ref)
    (holds : Task.reading.terms.Holds plan' heap') (extends' : plan.Extends plan') :
    ∃ plan'' heap'', Task.reading.terms.Holds plan'' heap'' ∧ plan.Extends plan'' ∧
      Eventually (fun fuel => refs.mapM (look fuel)) heap' (.ok (refs.map plan.meaning) heap'') := by
  induction refs generalizing plan' heap' with
  | nil => exact ⟨plan', heap', holds, extends', eventually_of_forall fun _ => rfl⟩
  | cons ref rest ih =>
    obtain ⟨plan₁, heap₁, holds₁, extends₁, first⟩ := finds ref List.mem_cons_self plan' heap' holds extends'
    obtain ⟨plan₂, heap₂, holds₂, extends₂, others⟩ :=
      ih (fun other member => finds other (List.mem_cons_of_mem _ member)) holds₁ extends₁
    refine ⟨plan₂, heap₂, holds₂, extends₂, ?_⟩
    simp only [List.mapM_cons]
    exact first.bind (others.bind (eventually_of_forall fun _ => rfl))

mutual

theorem explore_finds : ∀ (value : Value) {plan' : Plan Promise} {heap' : Heap Task},
    (∀ ref ∈ value.refs, Finds plan look ref) → Task.reading.terms.Holds plan' heap' → plan.Extends plan' →
    ∃ plan'' heap'', Task.reading.terms.Holds plan'' heap'' ∧ plan.Extends plan'' ∧
      Eventually (fun fuel => value.explore (look fuel)) heap' (.ok (value.tree plan.meaning) heap'')
  | .integer _, plan', heap', _, holds, extends' | .float _, plan', heap', _, holds, extends'
  | .string _, plan', heap', _, holds, extends' | .boolean _, plan', heap', _, holds, extends' =>
    ⟨plan', heap', holds, extends', eventually_of_forall fun _ => by rw [Value.explore, Value.tree]; rfl⟩
  | .list elements, plan', heap', finds, holds, extends' => by
    obtain ⟨plan₁, heap₁, holds₁, extends₁, found⟩ := mapM_finds finds holds extends'
    refine ⟨plan₁, heap₁, holds₁, extends₁, ?_⟩
    simp only [Value.explore, Value.tree]
    exact found.bind (eventually_of_forall fun _ => rfl)
  | .record type fields, plan', heap', finds, holds, extends' => by
    obtain ⟨plan₁, heap₁, holds₁, extends₁, found⟩ := exploreFields_finds fields finds holds extends'
    refine ⟨plan₁, heap₁, holds₁, extends₁, ?_⟩
    simp only [Value.explore, Value.tree]
    exact found.bind (eventually_of_forall fun _ => rfl)

theorem exploreFields_finds : ∀ (fields : List (String × Value)) {plan' : Plan Promise} {heap' : Heap Task},
    (∀ ref ∈ Value.refsOfFields fields, Finds plan look ref) →
    Task.reading.terms.Holds plan' heap' → plan.Extends plan' →
    ∃ plan'' heap'', Task.reading.terms.Holds plan'' heap'' ∧ plan.Extends plan'' ∧
      Eventually (fun fuel => Value.exploreFields (look fuel) fields) heap'
        (.ok (Value.treesOfFields plan.meaning fields) heap'')
  | [], plan', heap', _, holds, extends' =>
    ⟨plan', heap', holds, extends', eventually_of_forall fun _ => by
      rw [Value.exploreFields, Value.treesOfFields]; rfl⟩
  | (name, value) :: rest, plan', heap', finds, holds, extends' => by
    simp only [Value.refsOfFields, List.mem_append] at finds
    obtain ⟨plan₁, heap₁, holds₁, extends₁, first⟩ :=
      explore_finds value (fun ref member => finds ref (.inl member)) holds extends'
    obtain ⟨plan₂, heap₂, holds₂, extends₂, others⟩ :=
      exploreFields_finds rest (fun ref member => finds ref (.inr member)) holds₁ extends₁
    refine ⟨plan₂, heap₂, holds₂, extends₂, ?_⟩
    simp only [Value.exploreFields, Value.treesOfFields]
    exact first.bind (others.bind (eventually_of_forall fun _ => rfl))

end

theorem outcome_eventually {computation : Nat → HeapM Task Value} {outcome : Outcome}
    (ran : Eventually computation heap (HeapM.ofOutcome outcome heap')) :
    Eventually (fun fuel => HeapM.outcome (computation fuel)) heap (.ok outcome heap') := by
  obtain ⟨bound, ran⟩ := ran
  refine ⟨bound, fun fuel enough => ?_⟩
  simp only [HeapM.outcome, ran fuel enough]
  cases outcome <;> rfl

theorem explore_eventually {ref : Ref} {promise : Promise} (holds : Task.reading.terms.Holds plan heap)
    (promises : plan.Promises ref promise) :
    ∃ plan' heap', Task.reading.terms.Holds plan' heap' ∧ plan.Extends plan' ∧
      Eventually (fun fuel => explore fuel ref) heap (.ok promise.complete heap') := by
  -- The cells in the value of a settled cell rank below it, so the induction is on the rank.
  induction size : promise.rank using Nat.strongRecOn generalizing plan heap ref promise with
  | ind rank ih =>
    subst size
    obtain ⟨outcome, plan₁, heap₁, forced, grows, _, _, keeps⟩ := holds.force Task.describes.honoured promises
    have complete := Reading.keeps_ofOutcome keeps
    have later {result : EStateM.Result Interrupt (Heap Task) Complete}
        (rest : Eventually (fun fuel => match outcome with
          | .ok value => do return .ok (← value.explore (explore fuel))
          | .error fault => (return .error fault : HeapM Task Complete)) heap₁ result) :
        Eventually (fun fuel => explore fuel ref) heap result := by
      obtain ⟨bound, first⟩ := outcome_eventually forced
      obtain ⟨bound', rest⟩ := rest
      refine ⟨max bound bound' + 1, fun fuel enough => ?_⟩
      obtain ⟨fuel, rfl⟩ : ∃ n, fuel = n + 1 := ⟨fuel - 1, by omega⟩
      have one := first (fuel + 1) (by omega)
      have other := rest fuel (by omega)
      simp only [explore, Bind.bind, EStateM.bind, one]
      cases outcome <;> exact other
    rw [← complete]
    cases outcome with
    | error fault => exact ⟨plan₁, heap₁, grows.holds, grows.extends', later (eventually_of_forall fun _ => rfl)⟩
    | ok value =>
      have finds : ∀ other ∈ value.refs, Finds plan₁ explore other := by
        intro other member plan₂ heap₂ holds₂ extends₂
        obtain ⟨inner, promises', below⟩ := keeps.lower other member
        obtain ⟨plan₃, heap₃, holds₃, extends₃, found⟩ := ih inner.rank below holds₂ (promises'.extend extends₂) rfl
        rw [← promises'.meaning] at found
        exact ⟨plan₃, heap₃, holds₃, extends₂.trans extends₃, found⟩
      obtain ⟨plan₂, heap₂, holds₂, extends₂, found⟩ := explore_finds value finds grows.holds (.refl plan₁)
      exact ⟨plan₂, heap₂, holds₂, grows.extends'.trans extends₂,
        later (found.bind (eventually_of_forall fun _ => rfl))⟩

end Heap

end ByNeed
