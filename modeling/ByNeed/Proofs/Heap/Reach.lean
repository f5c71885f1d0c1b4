import ByNeed.Proofs.Heap.Deep

set_option autoImplicit false

-- Deep forcing fails only for a cell that it reaches, and it reaches every cell inside the value.
namespace ByNeed

namespace Tree

variable {tree inner : Tree} {fault : Fault}

end Tree

namespace Value

variable {meaning : Ref → Complete} {value : Value} {ref : Ref} {fault : Fault}

end Value

variable {τ : Type} {behaviour : Behaviour τ}

/-- The cell is inside the value, or inside the value that forcing such a cell leads to, and so on. The
last heap is the one in which all cells on the way to it are forced, one after the other; some of them
may have been made by forcing others. -/
inductive Heap.Reaches (behaviour : Behaviour τ) : Heap τ → Value → Heap τ → Ref → Prop
  | held {heap : Heap τ} {value : Value} {ref : Ref} (member : ref ∈ value.refs) :
    Reaches behaviour heap value heap ref
  | inside {heap heap₁ heap₂ : Heap τ} {value inner : Value} {ref other : Ref} (member : ref ∈ value.refs)
    (forced : Eventually (fun fuel => Heap.force behaviour fuel ref) heap (.ok inner heap₁))
    (reaches : Reaches behaviour heap₁ inner heap₂ other) : Reaches behaviour heap value heap₂ other

namespace Reading

variable {reading : Reading τ} {plan : Plan Promise} {heap heap' : Heap τ} {value : Value} {ref other : Ref}
  {promise : Promise}

structure DeepEnds (behaviour : Behaviour τ) (heap : Heap τ) (ref : Ref) (outcome : Outcome) (heap' : Heap τ) :
    Prop where
  full : ∀ value, outcome = .ok value → heap'.settled? ref = some (.ok value) ∧ heap'.Full value ∧
    ∃ heap₁, Eventually (fun fuel => Heap.force behaviour fuel ref) heap (.ok value heap₁) ∧
      ∀ heap₂ other, Heap.Reaches behaviour heap₁ value heap₂ other →
        ∃ inner, Heap.Yields behaviour heap₂ other (.ok inner)
  faulty : ∀ fault, outcome = .error fault → Heap.Yields behaviour heap ref (.error fault) ∨
    ∃ value heap₁ heap₂ other, Eventually (fun fuel => Heap.force behaviour fuel ref) heap (.ok value heap₁) ∧
      Heap.Reaches behaviour heap₁ value heap₂ other ∧ Heap.Yields behaviour heap₂ other (.error fault)
  finishes : heap.Finishes heap'
  settled : ∀ other, heap.isSettled other = true → heap'.get other = heap.get other

section

variable (describes : reading.Describes behaviour)
include describes

end

variable {outcome : Outcome}

theorem DeepEnds.ok_iff (ends : DeepEnds behaviour heap ref outcome heap') :
    outcome = .ok value ↔ ∃ heap₁,
      Eventually (fun fuel => Heap.force behaviour fuel ref) heap (.ok value heap₁) ∧
      ∀ heap₂ other, Heap.Reaches behaviour heap₁ value heap₂ other →
        ∃ inner, Heap.Yields behaviour heap₂ other (.ok inner) := by
  constructor
  · exact fun is => (ends.full value is).2.2
  · rintro ⟨heap₁, forced, each⟩
    have forced : Eventually (fun fuel => Heap.force behaviour fuel ref) heap
      (HeapM.ofOutcome (.ok value) heap₁) := forced
    cases outcome with
    | ok value' =>
      obtain ⟨_, _, heap₂, forced', _⟩ := ends.full value' rfl
      exact Heap.Yields.unique ⟨heap₂, forced'⟩ ⟨heap₁, forced⟩
    | error fault =>
      rcases ends.faulty fault rfl with failed | ⟨value', heap₂, heap₃, other, forced', reaches, failed⟩
      · exact failed.unique ⟨heap₁, forced⟩
      · have forced' : Eventually (fun fuel => Heap.force behaviour fuel ref) heap
          (HeapM.ofOutcome (.ok value') heap₂) := forced'
        obtain ⟨same, rfl⟩ := Heap.forced_unique forced' forced
        cases same
        obtain ⟨inner, succeeds⟩ := each heap₃ other reaches
        cases failed.unique succeeds

end Reading

end ByNeed
