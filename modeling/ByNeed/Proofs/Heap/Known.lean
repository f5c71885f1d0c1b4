import ByNeed.Eval.Task
import ByNeed.Proofs.Heap.Invariant

set_option autoImplicit false

-- The value of a cell can be told from the heap alone: where the value of another cell is needed it is told
-- in the same way, as often as it is needed, and no cell is changed or made.
namespace ByNeed

/-- The value that a step comes to, by what is known of other cells. A new cell lies below the one whose
task makes it, so the cell that it waits for has to lie deeper. -/
inductive Step.Gives (known deeper : Ref → Value → Prop) : Step Task → Value → Prop
  | done (value : Value) : Gives known deeper (.done value) value
  | defer {target : Ref} {value : Value} (knows : known target value) : Gives known deeper (.defer target) value
  | alloc {input : Ref} {task : Task} {inner value : Value} (knows : deeper input inner)
    (ends : Task.run task [inner] = .done value) : Gives known deeper (.alloc (.pending [input] task) .defer) value
  | demand {target : Ref} {next : Outcome → Step Task} {inner value : Value} (knows : known target inner)
    (later : Gives known deeper (next (.ok inner)) value) : Gives known deeper (.demand target next) value
  | become {task : Task} {value : Value} (later : Gives known deeper (Task.run task []) value) :
    Gives known deeper (.become task) value

inductive Cell.Gives (known deeper : Ref → Value → Prop) : Cell Task → Value → Prop
  | forced (value : Value) : Gives known deeper (.forced value) value
  | delegated {target : Ref} {value : Value} (knows : known target value) :
    Gives known deeper (.delegated target) value
  | pending {inputs : List Ref} {task : Task} {values : List Value} {value : Value}
    (each : List.Forall₂ known inputs values) (later : (Task.run task values).Gives known deeper value) :
    Gives known deeper (.pending inputs task) value

section Gives

variable {known known' deeper deeper' : Ref → Value → Prop} {step : Step Task} {cell : Cell Task} {value value' : Value}

theorem Step.Gives.mono (gives : step.Gives known deeper value) (wider : known ≤ known') (wider' : deeper ≤ deeper') :
    step.Gives known' deeper' value := by
  induction gives with
  | done value => exact .done value
  | defer knows => exact .defer (wider _ _ knows)
  | alloc knows ends => exact .alloc (wider' _ _ knows) ends
  | demand knows _ ih => exact .demand (wider _ _ knows) ih
  | become _ ih => exact .become ih

theorem Cell.Gives.mono (gives : cell.Gives known deeper value) (wider : known ≤ known') (wider' : deeper ≤ deeper') :
    cell.Gives known' deeper' value := by
  cases gives with
  | forced => exact .forced value
  | delegated knows => exact .delegated (wider _ _ knows)
  | pending each later => exact .pending (each.imp wider) (later.mono wider wider')

theorem Step.Gives.unique (single : Relator.RightUnique known) (gives : step.Gives known known value)
    (gives' : step.Gives known known value') : value = value' := by
  induction gives with
  | done => cases gives'; rfl
  | defer knows =>
    cases gives' with
    | defer knows' => exact single knows knows'
  | alloc knows ends =>
    cases gives' with
    | alloc knows' ends' =>
      cases single knows knows'
      rw [ends] at ends'
      cases ends'
      rfl
  | demand knows _ ih =>
    cases gives' with
    | demand knows' later =>
      cases single knows knows'
      exact ih later
  | become _ ih =>
    cases gives' with
    | become later => exact ih later

theorem Cell.Gives.unique (single : Relator.RightUnique known) (gives : cell.Gives known known value)
    (gives' : cell.Gives known known value') : value = value' := by
  cases gives with
  | forced => cases gives'; rfl
  | delegated knows =>
    cases gives' with
    | delegated knows' => exact single knows knows'
  | pending each later =>
    cases gives' with
    | pending each' later' =>
      cases single.forall₂ each each'
      exact later.unique single later'

theorem Cell.gives_ofOutcome {outcome : Outcome} (gives : (Cell.ofOutcome outcome).Gives known deeper value) :
    outcome = .ok value := by
  cases outcome with
  | ok => cases gives; rfl
  | error => cases gives

end Gives

namespace Heap

/-- The value told from the heap in so many rounds of looking up. What a running cell comes to cannot be
told from it and has to be given. -/
def Computes (heap : Heap Task) (given : Ref → Value → Prop) : Nat → Ref → Value → Prop
  | 0, _, _ => False
  | depth + 1, ref, value => (heap.get ref = .running ∧ given ref value) ∨
    (heap.get ref).Gives (heap.Computes given depth) (heap.Computes given depth) value

def Knows (heap : Heap Task) (given : Ref → Value → Prop) (ref : Ref) (value : Value) : Prop :=
  ∃ depth, heap.Computes given depth ref value

variable {heap : Heap Task} {given : Ref → Value → Prop} {ref : Ref} {value : Value}

theorem computes_mono {depth depth' : Nat} (le : depth ≤ depth') : heap.Computes given depth ≤ heap.Computes given depth' := by
  induction depth generalizing depth' with
  | zero => exact fun _ _ computes => computes.elim
  | succ depth ih =>
    obtain ⟨more, rfl⟩ : ∃ more, depth' = more + 1 := ⟨depth' - 1, by omega⟩
    have inner := ih (Nat.le_of_succ_le_succ le)
    rintro ref value (outer | gives)
    · exact .inl outer
    · exact .inr (gives.mono inner inner)

theorem computes_unique (single : Relator.RightUnique given) (depth : Nat) :
    Relator.RightUnique (heap.Computes given depth) := by
  induction depth with
  | zero => exact fun _ _ _ computes => computes.elim
  | succ depth ih =>
    rintro ref value value' (⟨running, outer⟩ | gives) (⟨running', outer'⟩ | gives')
    · exact single outer outer'
    · rw [running] at gives'
      cases gives'
    · rw [running'] at gives
      cases gives
    · exact gives.unique ih gives'

theorem knows_unique (single : Relator.RightUnique given) : Relator.RightUnique (heap.Knows given) := by
  rintro ref value value' ⟨depth, computes⟩ ⟨depth', computes'⟩
  exact computes_unique single (max depth depth') (computes_mono (Nat.le_max_left _ _) _ _ computes)
    (computes_mono (Nat.le_max_right _ _) _ _ computes')

theorem forall₂_bounded {refs : List Ref} {values : List Value} (each : List.Forall₂ (heap.Knows given) refs values) :
    ∃ depth, List.Forall₂ (heap.Computes given depth) refs values := by
  induction each with
  | nil => exact ⟨0, .nil⟩
  | cons first _ ih =>
    obtain ⟨depth, computes⟩ := first
    obtain ⟨depth', others⟩ := ih
    exact ⟨max depth depth', .cons (computes_mono (Nat.le_max_left _ _) _ _ computes)
      (others.imp (computes_mono (Nat.le_max_right _ _)))⟩

-- Only finitely many lookups are made.
theorem gives_bounded {step : Step Task} (gives : step.Gives (heap.Knows given) (heap.Knows given) value) :
    ∃ depth, step.Gives (heap.Computes given depth) (heap.Computes given depth) value := by
  induction gives with
  | done value => exact ⟨0, .done value⟩
  | defer knows =>
    obtain ⟨depth, computes⟩ := knows
    exact ⟨depth, .defer computes⟩
  | alloc knows ends =>
    obtain ⟨depth, computes⟩ := knows
    exact ⟨depth, .alloc computes ends⟩
  | demand knows _ ih =>
    obtain ⟨depth, computes⟩ := knows
    obtain ⟨depth', later⟩ := ih
    have wider := @computes_mono heap given _ _ (Nat.le_max_right depth depth')
    exact ⟨max depth depth', .demand (computes_mono (Nat.le_max_left _ _) _ _ computes) (later.mono wider wider)⟩
  | become _ ih =>
    obtain ⟨depth, later⟩ := ih
    exact ⟨depth, .become later⟩

theorem knows_of_gives (gives : (heap.get ref).Gives (heap.Knows given) (heap.Knows given) value) :
    heap.Knows given ref value := by
  suffices found : ∃ depth, (heap.get ref).Gives (heap.Computes given depth) (heap.Computes given depth) value by
    obtain ⟨depth, found⟩ := found
    exact ⟨depth + 1, .inr found⟩
  generalize heap.get ref = cell at gives
  cases gives with
  | forced => exact ⟨0, .forced value⟩
  | delegated knows =>
    obtain ⟨depth, computes⟩ := knows
    exact ⟨depth, .delegated computes⟩
  | pending each later =>
    obtain ⟨depth, inputs⟩ := forall₂_bounded each
    obtain ⟨depth', later⟩ := gives_bounded later
    have wider := @computes_mono heap given _ _ (Nat.le_max_right depth depth')
    exact ⟨max depth depth', .pending (inputs.imp (computes_mono (Nat.le_max_left _ _))) (later.mono wider wider)⟩

theorem knows_of_settled (known : heap.settled? ref = some (.ok value)) : heap.Knows given ref value := by
  apply knows_of_gives
  rw [get_of_settled? known]
  exact .forced value

theorem inside_of_knows (knows : heap.Knows ⊥ ref value) : ref < heap.cells.size := by
  obtain ⟨depth, computes⟩ := knows
  apply inside_of_get_ne
  intro running
  cases depth with
  | zero => exact computes
  | succ depth =>
    rcases computes with ⟨_, outer⟩ | gives
    · exact outer
    · rw [running] at gives
      cases gives

end Heap

structure Exact where
  value : Value
  rank : Nat

namespace Exact

def Known (plan : Plan Exact) (bound : Nat) (ref : Ref) (value : Value) : Prop :=
  ∃ rank < bound, plan.Promises ref ⟨value, rank⟩

def terms : Terms Task Exact where
  rank := rank
  Keeps plan promise cell := cell.Gives (Known plan promise.rank) (Known plan (promise.rank - 1)) promise.value

variable {plan plan' : Plan Exact} {bound : Nat} {ref : Ref} {value : Value} {own : Exact}

theorem Known.extend (known : Known plan bound ref value) (extends' : plan.Extends plan') :
    Known plan' bound ref value := by
  obtain ⟨rank, lower, promises⟩ := known
  exact ⟨rank, lower, promises.extend extends'⟩

-- The cell that is made gets the rank right below that of its maker.
theorem realizes {step : Step Task} (gives : step.Gives (Known plan own.rank) (Known plan (own.rank - 1)) own.value)
    (extends' : plan.Extends plan') : terms.Realizes Task.run own plan' step := by
  generalize result : own.value = value at gives
  induction gives generalizing plan' with
  | done value =>
    subst result
    exact .done (.forced _)
  | defer knows =>
    subst result
    exact .defer (.delegated (knows.extend extends'))
  | @alloc input task inner value knows ends =>
    subst result
    obtain ⟨rank, lower, promises⟩ := knows.extend extends'
    let promise : Exact := ⟨own.value, own.rank - 1⟩
    have below : terms.rank promise < terms.rank own := Nat.sub_one_lt_of_lt (Nat.lt_of_lt_of_le lower (Nat.sub_le _ _))
    have keeps : terms.Keeps plan' promise (.pending [input] task) :=
      .pending (.cons ⟨rank, lower, promises⟩ .nil) (ends ▸ .done own.value)
    exact .alloc below keeps (.defer (.delegated ⟨own.rank - 1, below, plan'.promises_push promise⟩))
  | demand knows _ ih =>
    obtain ⟨rank, lower, promises⟩ := knows.extend extends'
    refine .demand promises lower fun plan'' outcome more keeps => ?_
    rw [Cell.gives_ofOutcome keeps]
    exact ih (extends'.trans more) result
  | become _ ih => exact .become (ih extends' result)

theorem under_of_known {inputs : List Ref} {values : List Value} (each : List.Forall₂ (Known plan bound) inputs values) :
    ∀ input ∈ inputs, terms.Under plan bound input := by
  induction each with
  | nil => simp
  | cons first _ ih =>
    obtain ⟨rank, lower, promises⟩ := first
    exact List.forall_mem_cons.mpr ⟨⟨_, promises, lower⟩, ih⟩

theorem values_of_supplies {inputs : List Ref} {values : List Value} {outcomes : Ref → Outcome}
    (each : List.Forall₂ (Known plan bound) inputs values) (supplies : terms.Supplies plan inputs outcomes) :
    inputs.mapM outcomes = .ok values := by
  induction each with
  | nil => rfl
  | cons first _ ih =>
    obtain ⟨rank, _, promises⟩ := first
    obtain ⟨here, others⟩ := List.forall_mem_cons.mp supplies
    rw [List.mapM_cons, Cell.gives_ofOutcome (here _ promises), ih others]
    rfl

theorem honoured : terms.Honoured Task.run where
  idle keeps := by cases keeps
  extend keeps extends' := keeps.mono (fun _ _ known => known.extend extends') fun _ _ known => known.extend extends'
  awaited {plan promise cell} keeps other member := by
    cases keeps with
    | forced => cases member
    | delegated knows =>
      obtain ⟨rank, lower, promises⟩ := knows
      cases List.mem_singleton.mp member
      exact ⟨_, promises, lower⟩
    | pending each => exact under_of_known each other member
  delegated {plan promise promise' target outcome} keeps promises keeps' := by
    cases keeps with
    | delegated knows =>
      obtain ⟨rank, _, promises'⟩ := knows
      cases promises.unique promises'
      rw [Cell.gives_ofOutcome keeps']
      exact .forced _
  failed {plan promise inputs task outcomes fault} keeps supplies failed := by
    cases keeps with
    | pending each =>
      rw [values_of_supplies each supplies] at failed
      cases failed
  performed {plan promise inputs task outcomes values} keeps supplies got := by
    cases keeps with
    | pending each later =>
      rw [values_of_supplies each supplies] at got
      cases got
      exact realizes later (.refl plan)

end Exact

namespace Heap

variable {heap : Heap Task} {ref : Ref} {value : Value} {depth : Nat}

open Classical in
noncomputable def exact (heap : Heap Task) : Plan Exact where
  size := heap.cells.size
  promise ref :=
    if found : ∃ depth value, heap.Computes ⊥ depth ref value then
      some ⟨(Nat.find_spec found).choose, 2 * Nat.find found⟩
    else none

theorem exact_promises (computes : heap.Computes ⊥ depth ref value) :
    ∃ least ≤ depth, heap.exact.Promises ref ⟨value, 2 * least⟩ := by
  classical
  have found : ∃ depth value, heap.Computes ⊥ depth ref value := ⟨depth, value, computes⟩
  have here : heap.Knows ⊥ ref (Nat.find_spec found).choose := ⟨_, (Nat.find_spec found).choose_spec⟩
  have same : (Nat.find_spec found).choose = value := knows_unique (fun _ _ _ outer => outer.elim) here ⟨depth, computes⟩
  refine ⟨Nat.find found, Nat.find_min' found ⟨value, computes⟩, inside_of_knows here, ?_⟩
  simp only [exact, found, ↓reduceDIte, same]

theorem computes_of_exact {promise : Exact} (promises : heap.exact.Promises ref promise) :
    ∃ depth, promise.rank = 2 * depth ∧ heap.Computes ⊥ depth ref promise.value := by
  classical
  have given := promises.2
  simp only [exact] at given
  split at given
  · next found =>
    cases given
    exact ⟨_, rfl, (Nat.find_spec found).choose_spec⟩
  · cases given

theorem computes_le_known {bound : Nat} (room : 2 * depth < bound) :
    heap.Computes ⊥ depth ≤ Exact.Known heap.exact bound := by
  intro ref value computes
  obtain ⟨least, le, promises⟩ := exact_promises computes
  exact ⟨2 * least, by omega, promises⟩

theorem exact_holds (heap : Heap Task) : Exact.terms.Holds heap.exact heap := by
  refine fun bound => ⟨rfl, fun {ref promise} promises _ => ?_⟩
  obtain ⟨depth, rank, computes⟩ := computes_of_exact promises
  cases depth with
  | zero => exact computes.elim
  | succ depth =>
    rcases computes with ⟨_, outer⟩ | gives
    · exact outer.elim
    · exact gives.mono (computes_le_known (by omega)) (computes_le_known (by omega))

end Heap

theorem Exact.force {plan : Plan Exact} {heap : Heap Task} {ref : Ref} {promise : Exact}
    (holds : terms.Holds plan heap) (promises : plan.Promises ref promise) :
    Heap.Yields Task.run heap ref (.ok promise.value) := by
  obtain ⟨outcome, _, heap', forced, _, _, _, keeps⟩ := holds.force honoured promises
  rw [Cell.gives_ofOutcome keeps] at forced
  exact ⟨heap', forced⟩

theorem Heap.Knows.yields {heap : Heap Task} {ref : Ref} {value : Value} (knows : heap.Knows ⊥ ref value) :
    Heap.Yields Task.run heap ref (.ok value) := by
  obtain ⟨depth, computes⟩ := knows
  obtain ⟨least, _, promises⟩ := Heap.exact_promises computes
  exact Exact.force heap.exact_holds promises

end ByNeed
