import ByNeed.Proofs.Heap.Deep
import ByNeed.Proofs.Heap.Task

set_option autoImplicit false

-- The cell of a logical operator waits for the left operand. If that decides, the cell itself is all that
-- changes beyond what forcing the left operand changes. Else a new cell is made that waits for the right
-- operand, and the cell of the operator is handed over to it.
namespace ByNeed

-- What the left operand comes to settles the operator, if it fails, is no boolean or decides alone.
def LogicalOp.settledBy : LogicalOp → Outcome → Option Outcome
  | _, .error fault => some (.error fault)
  | .conjunction, .ok (.boolean false) => some (.ok (.boolean false))
  | .disjunction, .ok (.boolean true) => some (.ok (.boolean true))
  | _, .ok (.boolean _) => none
  | op, .ok other => some (.error (mismatch op.text "boolean" other))

-- The result where all is left to the right operand.
def LogicalOp.leftTo (op : LogicalOp) : Outcome → Outcome
  | .error fault => .error fault
  | .ok (.boolean value) => .ok (.boolean value)
  | .ok other => .error (mismatch op.text "boolean" other)

namespace LogicalOp

variable {op : LogicalOp} {left : Value} {right : Ref} {outcome : Outcome}

theorem shortCut_of_settledBy (settled : op.settledBy (.ok left) = some outcome) :
    Task.shortCut op right left = .ofOutcome outcome := by
  cases left with
  | boolean value => cases op <;> cases value <;> cases settled <;> rfl
  | _ => cases op <;> cases settled <;> rfl

theorem shortCut_of_open (undecided : op.settledBy (.ok left) = none) :
    Task.shortCut op right left = .alloc (.pending [right] (.logical op left)) .defer := by
  cases left with
  | boolean value => cases op <;> cases value <;> cases undecided <;> rfl
  | _ => cases op <;> cases undecided

theorem leftTo_ok (undecided : op.settledBy (.ok left) = none) (right : Value) :
    op.leftTo (.ok right) = op.apply left right := by
  cases left with
  | boolean value =>
    cases right <;> cases op <;> cases value <;> first | rfl | cases undecided
  | _ => cases op <;> cases undecided

theorem logical_of_open (undecided : op.settledBy (.ok left) = none) (meaning : Ref → Complete)
    (right : Complete) :
    (left.tree meaning).logical op right = right >>= fun tree => (op.apply left tree.surface).map .ofSurface := by
  cases left with
  | boolean value => cases op <;> cases value <;> first | rfl | cases undecided
  | _ => cases op <;> cases undecided

theorem eq_leftTo {meaning meaning' : Ref → Complete} {outcome' : Outcome} (undecided : op.settledBy (.ok left) = none)
    (same : outcome.map (Value.tree meaning) = outcome'.map (Value.tree meaning') >>= fun tree =>
      (op.apply left tree.surface).map .ofSurface) :
    outcome = op.leftTo outcome' := by
  cases outcome' with
  | error fault =>
    cases outcome <;> cases same
    rfl
  | ok value =>
    have surface : (op.apply left (value.tree meaning').surface).map Tree.ofSurface =
        (op.leftTo (.ok value)).map Tree.ofSurface := by
      rw [leftTo_ok undecided, apply_surface]
    have same : outcome.map (Value.tree meaning) = (op.leftTo (.ok value)).map .ofSurface := same.trans surface
    have single : SingleOutcome (op.leftTo (.ok value)) := by
      rw [leftTo_ok undecided]
      exact op.apply_single left value
    exact single.eq_of_map_tree same

end LogicalOp

namespace Heap

variable {heap heap₁ : Heap Task} {op : LogicalOp} {left right cell : Ref} {outcome result : Outcome}
  {plan : Plan Promise} {own : Promise}

theorem values_singleton (known : heap.settled? left = some outcome) :
    heap.values [left] = outcome.map fun value => [value] := by
  simp only [values, List.mapM_cons, List.mapM_nil, known, Option.getD_some]
  cases outcome <;> rfl

section Operands

variable (here : heap₁.get cell = .pending [left] (.shortCircuit op right))
  (known : heap₁.settled? left = some outcome)
include here known

-- Only the cell of the operator changes once the left operand is settled.
theorem settles_of_settledBy (settled : op.settledBy outcome = some result) :
    ∃ heap₂, Settles Task.run cell heap₁ heap₂ ∧ heap₂.settled? cell = some result ∧
      heap₂.cells.size = heap₁.cells.size ∧ ∀ ref, ref ≠ cell → heap₂.get ref = heap₁.get ref := by
  have ready : ∀ input ∈ [left], heap₁.isSettled input = true := by simp [isSettled, known]
  have inside : cell < heap₁.cells.size := inside_of_get_ne (by simp [here])
  have got := values_singleton known
  cases outcome with
  | error fault =>
    have done := settled?_set_ofOutcome inside (.error fault)
    refine ⟨heap₁.set cell (.failed fault), fun rest => (moves_fail here ready got).trans (moves_pop ?_), ?_,
      size_set _ _ _, fun ref other => get_set_of_ne _ _ other.symm⟩
    · exact congrArg Option.isSome done
    · cases op <;> cases settled <;> exact done
  | ok value =>
    have run : Task.run (.shortCircuit op right) [value] = .ofOutcome result :=
      LogicalOp.shortCut_of_settledBy settled
    have performs : Performs Task.run (Task.run (.shortCircuit op right) [value]) (heap₁.resume cell)
        (.ok (.ofOutcome result) (heap₁.resume cell)) := by
      rw [run]
      cases result with
      | error fault => exact performs_fail fault _
      | ok value => exact performs_done value _
    have inside' : cell < (heap₁.resume cell).cells.size := by simpa using inside
    have done := settled?_set_ofOutcome inside' result
    refine ⟨_, fun rest => (moves_perform here ready got performs).trans (moves_pop ?_), done, by simp, ?_⟩
    · exact congrArg Option.isSome done
    · intro ref other
      rw [get_set_of_ne _ _ other.symm, get_resume_of_ne _ other.symm]

-- The new cell is settled first, and the cell of the operator takes its outcome over.
theorem settles_of_open (holds : Task.reading.terms.Holds plan heap₁) (promises : plan.Promises cell own)
    (undecided : op.settledBy outcome = none) :
    ∃ heap₂ result, Settles Task.run cell heap₁ heap₂ ∧ heap₂.settled? cell = some result ∧
      heap₂.settled? heap₁.cells.size = some result ∧ ∃ meaning, result.map (Value.tree meaning) = own.complete := by
  cases outcome with
  | error fault => cases op <;> cases undecided
  | ok value =>
    have honoured := Task.describes.honoured
    have ready : ∀ input ∈ [left], heap₁.isSettled input = true := by simp [isSettled, known]
    have got : heap₁.values [left] = .ok [value] := values_singleton known
    have keeps := holds.keeps promises
    rw [here] at keeps
    have follows := holds (own.rank + 1)
    have lower : Task.reading.terms.rank own < own.rank + 1 := Nat.lt_succ_self _
    have realizes := honoured.performed keeps (follows.supplies honoured keeps lower ready) got
    have run : Task.run (.shortCircuit op right) [value] = .alloc (.pending [right] (.logical op value)) .defer :=
      LogicalOp.shortCut_of_open undecided
    rw [run] at realizes
    cases realizes with
    | @alloc _ _ _ promise below keeps' later =>
      cases later with
      | defer delegates =>
        have promised := plan.promises_push promise
        have promises' := promises.extend (plan.extends_push promise)
        have made : plan.size = (heap₁.resume cell).cells.size := by simp [holds.size]
        have performs : Performs Task.run (Task.run (.shortCircuit op right) [value]) (heap₁.resume cell)
            (.ok (.delegated plan.size) ((heap₁.resume cell).push (.pending [right] (.logical op value)))) := by
          rw [run, made]
          exact performs_alloc (performs_defer _ _)
        have advances := Terms.Advances.perform honoured follows (not_settled here rfl) promises lower
          (.push honoured (follows.resume promises lower) below keeps') delegates
        obtain ⟨result, plan₂, heap₂, settles, advances₂, _, known₂, keeps₂⟩ :=
          honoured.settles advances.follows promised (Nat.lt_trans below lower)
        -- The cell of the operator ranks higher than the new one and is not touched meanwhile.
        have inside : cell < ((heap₁.resume cell).push (.pending [right] (.logical op value))).cells.size := by
          simp only [size_push, ← made]
          exact Nat.lt_succ_of_lt promises.1
        have handed := get_set_self _ (.delegated plan.size) inside
        have kept := advances₂.frame cell promises'.1 fun other promises₂ => by
          rw [promises₂.unique promises']
          exact below
        have here₂ : heap₂.get cell = .delegated plan.size := kept.trans handed
        have inside₂ : cell < heap₂.cells.size := inside_of_get_ne (by simp [here₂])
        have done := settled?_set_ofOutcome inside₂ result
        have delegates₂ := honoured.extend delegates advances₂.extends'
        have outcome := honoured.delegated delegates₂ (promised.extend advances₂.extends') keeps₂
        refine ⟨heap₂.set cell (.ofOutcome result), result, ?_, done, ?_, plan₂.meaning,
          Reading.keeps_ofOutcome outcome⟩
        · refine Continues.settles (fun rest => moves_perform here ready got performs) ?_
          refine Continues.settles (settles.continues (congrArg Cell.awaits handed)) fun rest => ?_
          exact (moves_copy here₂ known₂).trans (moves_pop (congrArg Option.isSome done))
        · rw [settled?, get_set_of_ne _ _ (by rw [← holds.size]; exact Nat.ne_of_lt promises.1), ← holds.size]
          exact known₂

end Operands

theorem acyclic_shortCircuit (found : heap.get cell = .pending [left] (.shortCircuit op right))
    (acyclic : Task.reading.Acyclic heap left) (acyclic' : Task.reading.Acyclic heap right) :
    Task.reading.Acyclic heap cell := by
  refine .intro (by simp [found]) fun other member => ?_
  rw [found] at member
  rcases List.mem_append.mp member with input | held
  · exact List.mem_singleton.mp input ▸ acyclic
  · exact List.mem_singleton.mp held ▸ acyclic'

-- The left operand ranks lower than the cell of the operator, so that cell waits unchanged.
theorem settles_left (found : heap.get cell = .pending [left] (.shortCircuit op right))
    (holds : Task.reading.terms.Holds plan heap) (promised : plan.Promises cell own) :
    ∃ outcome plan₁ heap₁, Settles Task.run left heap heap₁ ∧ Task.reading.terms.Grows plan heap plan₁ heap₁ ∧
      heap₁.get cell = .pending [left] (.shortCircuit op right) ∧ heap₁.settled? left = some outcome ∧
      outcome.map (Value.tree plan₁.meaning) = plan.meaning left := by
  have honoured := Task.describes.honoured
  have keeps := holds.keeps promised
  rw [found] at keeps
  obtain ⟨promise, promises, lower⟩ := keeps.lower left (by simp [Reading.links])
  obtain ⟨outcome, plan₁, heap₁, settles, advances, _, known, keeps₁⟩ :=
    honoured.settles (holds (promise.rank + 1)) promises (Nat.lt_succ_self _)
  refine ⟨outcome, plan₁, heap₁, settles, advances.grows honoured holds, ?_, known,
    (Reading.keeps_ofOutcome keeps₁).trans promises.meaning.symm⟩
  rw [← found]
  refine advances.frame cell promised.1 fun other promises' => ?_
  rw [promises'.unique promised]
  exact Nat.lt_of_le_of_lt (Nat.le_add_right _ _) lower

theorem complete_of_open {value : Value} {meaning : Ref → Complete}
    (keeps : Task.reading.Keeps plan own (.pending [left] (.shortCircuit op right)))
    (known : plan.meaning left = .ok (value.tree meaning)) (undecided : op.settledBy (.ok value) = none) :
    own.complete = plan.meaning right >>= fun tree => (op.apply value tree.surface).map .ofSurface := by
  have trees : [left].mapM plan.meaning = .ok [value.tree meaning] := by
    rw [List.mapM_cons, known]
    rfl
  rw [← keeps.outcome, ← LogicalOp.logical_of_open undecided meaning, Reading.outcome, trees]
  rfl

/-- What forcing the cell of a logical operator leads to, for operands from which references lead to
no running cell and in no circle. If the left operand fails, is not a boolean or decides, all other
cells are left as forcing the left operand alone leaves them. Else the right operand decides, as the
operator does on two values: a cell is made for it, and the cell of the operator takes over the outcome
of that one. -/
theorem force_shortCircuit (found : heap.get cell = .pending [left] (.shortCircuit op right))
    (acyclic : Task.reading.Acyclic heap left) (acyclic' : Task.reading.Acyclic heap right) :
    ∃ outcome heap₁ result heap₂,
      Eventually (fun fuel => force Task.run fuel left) heap (HeapM.ofOutcome outcome heap₁) ∧
      Eventually (fun fuel => force Task.run fuel cell) heap (HeapM.ofOutcome result heap₂) ∧
      heap₂.settled? cell = some result ∧
      (∀ settled, op.settledBy outcome = some settled → result = settled ∧
        heap₂.cells.size = heap₁.cells.size ∧ ∀ ref, ref ≠ cell → heap₂.get ref = heap₁.get ref) ∧
      (op.settledBy outcome = none → heap₂.settled? heap₁.cells.size = some result ∧ ∃ outcome' heap₁',
        Eventually (fun fuel => force Task.run fuel right) heap (HeapM.ofOutcome outcome' heap₁') ∧
        result = op.leftTo outcome' ∧
        ∀ value value', outcome = .ok value → outcome' = .ok value' → result = op.apply value value') := by
  have describes := Task.describes
  have holds := Task.reading.holds_plan heap
  obtain ⟨promise', promises'⟩ := acyclic'.promised
  obtain ⟨own, promised⟩ := (acyclic_shortCircuit found acyclic acyclic').promised
  obtain ⟨outcome, plan₁, heap₁, settles, grows, here, known, means⟩ := settles_left found holds promised
  have forced := (settles []).force known
  have continues : Continues Task.run cell heap heap₁ := settles.continues (by rw [found]; rfl)
  cases settled : op.settledBy outcome with
  | some result =>
    obtain ⟨heap₂, settles₂, done, size, same⟩ := settles_of_settledBy here known settled
    refine ⟨outcome, heap₁, result, heap₂, forced, (continues.settles settles₂ []).force done, done, ?_, ?_⟩
    · intro _ settled'
      cases settled.symm.trans settled'
      exact ⟨rfl, size, same⟩
    · intro undecided
      cases settled.symm.trans undecided
  | none =>
    obtain ⟨heap₂, result, settles₂, done, made, meaning, complete⟩ :=
      settles_of_open here known grows.holds (promised.extend grows.extends') settled
    obtain ⟨outcome', plan', heap₁', forced', _, _, _, complete', _⟩ :=
      Reading.force_eventually describes holds promises'
    refine ⟨outcome, heap₁, result, heap₂, forced, (continues.settles settles₂ []).force done, done, ?_, ?_⟩
    · intro _ settled'
      cases settled.symm.trans settled'
    · intro _
      cases outcome with
      | error => cases op <;> cases settled
      | ok value =>
        have keeps := holds.keeps promised
        rw [found] at keeps
        have open' := complete_of_open keeps means.symm settled
        rw [promises'.meaning, ← complete'] at open'
        have same := LogicalOp.eq_leftTo settled (complete.trans open')
        refine ⟨made, outcome', heap₁', forced', same, ?_⟩
        rintro _ value' ⟨⟩ rfl
        exact same.trans (LogicalOp.leftTo_ok settled value')

-- The left operand is the negation of a cell. The first operator is decided by it; the second is left to the
-- right operand, which fails.
def disjoined : Heap Task where
  cells := #[.forced (.boolean false), .pending [0] (.unary .negation), .pending [] (.fail .divisionByZero),
    .pending [1] (.shortCircuit .disjunction 2), .pending [1] (.shortCircuit .conjunction 2)]

theorem disjoined_acyclic {ref : Ref} (inside : ref < 5) : Task.reading.Acyclic disjoined ref := by
  refine Reading.acyclic_of_older (fun ref inside => ?_) (fun ref inside => ?_) inside
  all_goals
    have : ref < 5 := inside
    interval_cases ref <;> simp [disjoined, get, Reading.links, Task.reading, Task.refs, Value.refs]

theorem force_shortCircuit_disjoined :
    disjoined.get 3 = .pending [1] (.shortCircuit .disjunction 2) ∧
      disjoined.get 4 = .pending [1] (.shortCircuit .conjunction 2) ∧
      Task.reading.Acyclic disjoined 1 ∧ Task.reading.Acyclic disjoined 2 ∧
      (∃ heap₂, Eventually (fun fuel => force Task.run fuel 3) disjoined (.ok (.boolean true) heap₂) ∧
        heap₂.get 1 = .forced (.boolean true) ∧ heap₂.get 2 = .pending [] (.fail .divisionByZero)) ∧
      ∃ heap₂, Eventually (fun fuel => force Task.run fuel 4) disjoined (.error (.fault .divisionByZero) heap₂) ∧
        heap₂.settled? 5 = some (.error .divisionByZero) := by
  have first : disjoined.get 3 = .pending [1] (.shortCircuit .disjunction 2) := rfl
  have second : disjoined.get 4 = .pending [1] (.shortCircuit .conjunction 2) := rfl
  have left : Task.reading.Acyclic disjoined 1 := disjoined_acyclic (by decide)
  have right : Task.reading.Acyclic disjoined 2 := disjoined_acyclic (by decide)
  have alone : Eventually (fun fuel => force Task.run fuel 1) disjoined
      (HeapM.ofOutcome (.ok (.boolean true)) ((disjoined.resume 1).set 1 (.forced (.boolean true)))) := by
    refine ⟨3, fun fuel enough => ?_⟩
    obtain ⟨more, rfl⟩ := Nat.exists_eq_add_of_le' enough
    rfl
  have alone' : Eventually (fun fuel => force Task.run fuel 2) disjoined
      (HeapM.ofOutcome (.error .divisionByZero) ((disjoined.resume 2).set 2 (.failed .divisionByZero))) := by
    refine ⟨3, fun fuel enough => ?_⟩
    obtain ⟨more, rfl⟩ := Nat.exists_eq_add_of_le' enough
    rfl
  refine ⟨first, second, left, right, ?_, ?_⟩
  · obtain ⟨outcome, heap₁, result, heap₂, forced, forced', _, decided, _⟩ := force_shortCircuit first left right
    obtain ⟨rfl, rfl⟩ := forced_unique forced alone
    obtain ⟨rfl, _, same⟩ := decided _ rfl
    exact ⟨heap₂, forced', same 1 (by decide), same 2 (by decide)⟩
  · obtain ⟨outcome, heap₁, result, heap₂, forced, forced', _, _, undecided⟩ := force_shortCircuit second left right
    obtain ⟨rfl, rfl⟩ := forced_unique forced alone
    obtain ⟨made, outcome', heap₁', forced₂, rfl, _⟩ := undecided rfl
    obtain ⟨rfl, _⟩ := forced_unique forced₂ alone'
    exact ⟨heap₂, forced', made⟩

end Heap

end ByNeed
