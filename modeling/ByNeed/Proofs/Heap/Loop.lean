import ByNeed.Proofs.Heap.Recursion

set_option autoImplicit false

namespace ByNeed.Heap

variable {τ : Type}

section Loop

variable {behaviour : Behaviour τ} {heap heap' : Heap τ} {ref : Ref} {fuel : Nat} {rest : List Ref}

def Imitated (behaviour : Behaviour τ) (ref : Ref) (heap : Heap τ) :
    EStateM.Result Interrupt (Heap τ) Outcome → Prop
  | .ok _ heap' => ∀ rest, Moves behaviour (ref :: rest) heap rest heap'
  | .error (.fault fault) heap' => ∀ rest,
    Eventually (fun fuel => drive behaviour fuel (ref :: rest)) heap (.error (.fault fault) heap')
  | .error .exhausted _ => True

theorem Imitated.after {result : EStateM.Result Interrupt (Heap τ) Outcome}
    (moves : ∀ rest, Moves behaviour (ref :: rest) heap (ref :: rest) heap')
    (imitated : Imitated behaviour ref heap' result) : Imitated behaviour ref heap result := by
  match result with
  | .ok _ heap' => exact fun rest => (moves rest).trans (imitated rest)
  | .error .exhausted _ => exact trivial
  | .error (.fault fault) heap' => exact fun rest => (moves rest).eventually (imitated rest)

theorem Imitated.force (imitated : Imitated behaviour ref heap (recurse behaviour fuel ref heap))
    (ends : ∀ heap', forceRecursively behaviour fuel ref heap ≠ .error .exhausted heap') :
    Eventually (fun fuel => force behaviour fuel ref) heap
      (forceRecursively behaviour fuel ref heap) := by
  unfold forceRecursively at *
  cases recursed : recurse behaviour fuel ref heap with
  | ok outcome heap' =>
    rw [recursed] at imitated
    rw [bind_of_ok recursed]
    exact (imitated []).force (recurse_respects recursed).2
  | error interrupt heap' =>
    rw [bind_of_error recursed] at ends ⊢
    rw [recursed] at imitated
    cases interrupt with
    | exhausted => exact absurd rfl (ends heap')
    | fault fault => exact (imitated []).bind_error

theorem forced_imitated
    (imitated : ∀ ref heap, Imitated behaviour ref heap (recurse behaviour fuel ref heap))
    {outcome : Outcome} (forced : forceRecursively behaviour fuel ref heap = HeapM.ofOutcome outcome heap') :
    Eventually (fun fuel => Heap.force behaviour fuel ref) heap (HeapM.ofOutcome outcome heap') := by
  rw [← forced]
  refine (imitated ref heap).force fun heap'' exhausted => ?_
  rw [forced] at exhausted
  cases outcome <;> cases exhausted

theorem Performed.imitated
    (imitated : ∀ ref heap, Imitated behaviour ref heap (recurse behaviour fuel ref heap))
    {step : Step τ} {cell : Cell τ}
    (performed : Performed behaviour (forceRecursively behaviour fuel) step heap (.ok cell heap')) :
    Performs behaviour step heap (.ok cell heap') := by
  generalize ended : EStateM.Result.ok cell heap' = result at performed
  induction performed with
  | done value => exact performs_done value _
  | fail fault => exact performs_fail fault _
  | defer target => exact performs_defer target _
  | alloc _ ih => exact performs_alloc (ih ended)
  | demand forced _ ih => exact performs_demand (forced_imitated imitated forced) (ih ended)
  | become _ ih => exact performs_become (ih ended)
  | unforced | exhausted => cases ended

theorem values_of_map_settled? {inputs : List Ref} {outcomes : List Outcome}
    (settled : inputs.map heap.settled? = outcomes.map some) :
    heap.values inputs = outcomes.mapM id := by
  have read : heap.values inputs =
      (inputs.map heap.settled?).mapM fun found => found.getD (.error .dependsOnItself) := by
    rw [List.mapM_map]
    rfl
  rw [read, settled, List.mapM_map]
  rfl

theorem Serves.moves (imitated : ∀ ref heap, Imitated behaviour ref heap (recurse behaviour fuel ref heap))
    (serves : Serves behaviour fuel ref heap heap') (rest : List Ref) :
    Moves behaviour (ref :: rest) heap (ref :: rest) heap' := by
  induction serves using Relation.ReflTransGen.head_induction_on with
  | refl => exact .refl _ _
  | @head heap heap₁ call _ ih =>
    obtain ⟨other, outcome, waits, recursed⟩ := call
    have settled := imitated other heap
    rw [recursed] at settled
    exact ((moves_push waits).trans (settled (ref :: rest))).trans ih

-- Where recursion fails for a cell that another one waits for, the loop fails with both on its stack.
theorem unready_imitated
    (imitated : ∀ ref heap, Imitated behaviour ref heap (recurse behaviour fuel ref heap))
    {cell : Cell τ} (found : heap.get ref = cell) {interrupt : Interrupt}
    (mapped : cell.awaits.mapM (recurse behaviour fuel) heap = .error interrupt heap') :
    Imitated behaviour ref heap (.error interrupt heap') := by
  subst found
  have served := mapM_served (recurse_keeps behaviour fuel) (heap.get ref).awaits
    (List.nil_append _).symm (by simp)
  rw [mapped] at served
  cases interrupt with
  | exhausted => exact trivial
  | fault fault =>
    obtain ⟨heap₂, other, serves, waits, recursed⟩ := served
    have last := imitated other heap₂
    rw [recursed] at last
    intro rest
    have moves := (serves.moves imitated rest).trans (moves_push waits)
    exact moves.eventually (last (ref :: rest))

theorem recurse_imitated (fuel : Nat) (ref : Ref) (heap : Heap τ) :
    Imitated behaviour ref heap (recurse behaviour fuel ref heap) := by
  induction fuel generalizing ref heap with
  | zero => exact trivial
  | succ fuel ih =>
    -- The loop gets to where all that the cell waits for is settled.
    have moves {cell : Cell τ} (found : heap.get ref = cell) {outcomes : List Outcome} {heap₁ : Heap τ}
        (mapped : cell.awaits.mapM (recurse behaviour fuel) heap = .ok outcomes heap₁) (rest : List Ref) :
        Moves behaviour (ref :: rest) heap (ref :: rest) heap₁ ∧ heap₁.get ref = cell ∧
          cell.awaits.map heap₁.settled? = outcomes.map some := by
      obtain ⟨serves, here, settled⟩ := (recurse_keeps behaviour fuel).readied found mapped
      exact ⟨serves.moves ih rest, here, settled⟩
    have turn := recurse_succ behaviour fuel ref heap
    generalize recurse behaviour (fuel + 1) ref heap = result at turn
    cases turn with
    | settled known => exact fun rest => moves_pop (by simp [isSettled, known])
    | running found => exact fun rest => drive_running found
    | @uncopied target interrupt heap₁ found recursed =>
      refine unready_imitated ih found ?_
      rw [Cell.awaits, mapM_singleton, bind_of_error recursed]
    | unready found mapped => exact unready_imitated ih found mapped
    | @copied target outcome heap₁ found recursed =>
      have mapped : [target].mapM (recurse behaviour fuel) heap = .ok [outcome] heap₁ := by
        rw [mapM_singleton, bind_of_ok recursed]
        rfl
      intro rest
      obtain ⟨first, here, settled⟩ := moves found mapped rest
      have known : heap₁.settled? target = some outcome := by simpa [Cell.awaits] using settled
      have inside : ref < heap₁.cells.size := inside_of_get_ne (by simp [here])
      exact (first.trans (moves_copy here known)).trans
        (moves_pop (by simp [isSettled, settled?_set_ofOutcome inside outcome]))
    | @failed inputs task outcomes fault heap₁ found mapped failed =>
      intro rest
      obtain ⟨first, here, settled⟩ := moves found mapped rest
      have inside : ref < heap₁.cells.size := inside_of_get_ne (by simp [here])
      have popped := settled?_set_ofOutcome inside (.error fault)
      rw [Cell.ofOutcome] at popped
      exact (first.trans (moves_fail here (isSettled_of_map_settled? settled)
        ((values_of_map_settled? settled).trans failed))).trans (moves_pop (by simp [isSettled, popped]))
    | unperformed => exact trivial
    | @performed inputs task outcomes values heap₁ heap₂ cell found mapped got performed =>
      refine Imitated.after (fun rest => ?_) (ih ref (heap₂.set ref cell))
      obtain ⟨first, here, settled⟩ := moves found mapped rest
      exact first.trans (moves_perform here (isSettled_of_map_settled? settled)
        ((values_of_map_settled? settled).trans got) (performed.imitated ih))

/-- If plain recursion comes to an end, the loop leads to the same outcome with enough fuel, leaves
every cell as recursion leaves it, and performs the same tasks in the same order. -/
theorem force_eventually_recursive (behaviour : Behaviour τ) (fuel : Nat) (ref : Ref) (heap : Heap τ)
    (ends : ∀ heap', forceRecursively behaviour fuel ref heap ≠ .error .exhausted heap') :
    Eventually (fun fuel => force behaviour fuel ref) heap
      (forceRecursively behaviour fuel ref heap) :=
  (recurse_imitated fuel ref heap).force ends

end Loop

end ByNeed.Heap

namespace ByNeed.Script

-- The last cell needs one that fails, one that is handed over to an alias, and one that is needed twice.
def shared : Heap Act where
  cells := #[.pending [] (.fail .divisionByZero), .pending [] (.done (.integer 2)), .delegated 1,
    .pending [2, 1] .sum, .pending [3] (.deferred (some 2)), .pending [0, 4, 3] .sum]

def sharedSettled : Heap Act where
  cells := #[.failed .divisionByZero, .forced (.integer 2), .forced (.integer 2),
    .forced (.integer 4), .forced (.integer 2), .failed .divisionByZero]
  resumed := [4, 3, 1, 0]

end ByNeed.Script

namespace ByNeed

theorem force_eventually_recursive_shared :
    Eventually (fun fuel => Heap.force Script.second fuel 5) Script.shared
      (.error (.fault .divisionByZero) Script.sharedSettled) := by
  have ran : Heap.forceRecursively Script.second 9 5 Script.shared =
      .error (.fault .divisionByZero) Script.sharedSettled := by
    rfl
  rw [← ran]
  apply Heap.force_eventually_recursive
  rw [ran]
  rintro heap' ⟨⟩

end ByNeed
