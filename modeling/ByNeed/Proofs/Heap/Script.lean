import ByNeed.Heap.Script
import ByNeed.Proofs.Heap.Operator

set_option autoImplicit false

namespace ByNeed.Script

variable (names : String → Option Ref)

def Act.refs : Act → List Ref
  | .done value => value.refs
  | .defer name | .force name => (names name).toList
  | .deferred target => target.toList
  | _ => []

def namedComplete (meaning : Ref → Complete) (name : String) : Complete :=
  match names name with
  | some ref => meaning ref
  | none => .error (.undefinedVariable name)

def Act.complete (meaning : Ref → Complete) : Act → List Tree → Complete
  | .done value, _ => .ok (value.tree meaning)
  | .first, trees => .ok (trees.headD (.ofSurface zero))
  | .sum, trees => (Script.sum (trees.map Tree.surface)).map .ofSurface
  | .add addend, trees =>
    (ArithmeticOp.add.apply (trees.headD (.ofSurface zero)).surface addend).map .ofSurface
  | .list, trees => .ok (.list (trees.map .ok))
  | .defer name, _ | .force name, _ => namedComplete names meaning name
  | .deferred (some target), _ => meaning target
  | .deferred none, _ => .ok (.ofSurface zero)
  | .fail fault, _ => .error fault

def Act.room : Act → Nat
  | .list => 1
  | _ => 0

def reading : Reading Act where
  refs := Act.refs names
  complete := Act.complete names
  room _ act _ := act.room
  complete_congr {meaning meaning'} act trees same := by
    have named (name : String) (same : ∀ ref ∈ (names name).toList, meaning ref = meaning' ref) :
        namedComplete names meaning name = namedComplete names meaning' name := by
      unfold namedComplete
      cases found : names name with
      | none => rfl
      | some ref => exact same ref (by simp [found])
    cases act with
    | done value => exact congrArg Except.ok (value.tree_congr same)
    | defer name => exact named name same
    | force name => exact named name same
    | deferred target =>
      cases target with
      | none => rfl
      | some target => exact same target (by simp [Act.refs])
    | _ => rfl
  room_congr _ _ _ := rfl

section Steps

variable {names} {behaviour : Behaviour Act} {plan : Plan Promise} {own : Promise}

theorem named_realizes {name : String} {use : Ref → Step Act}
    (same : namedComplete names plan.meaning name = own.complete)
    (found : ∀ ref, names name = some ref → plan.meaning ref = own.complete →
      (reading names).terms.Realizes behaviour own plan (use ref)) :
    (reading names).terms.Realizes behaviour own plan (named names name use) := by
  unfold namedComplete at same
  unfold named
  cases known : names name with
  | none =>
    rw [known] at same
    exact Reading.realizes_fail same
  | some ref =>
    rw [known] at same
    exact found ref known same

theorem collect_realizes (values : List Value) (stored : List Ref) (room : 1 ≤ own.rank)
    (kept : ∀ ref ∈ stored, (reading names).terms.Under plan own.rank ref)
    (inside : ∀ ref ∈ values.flatMap Value.refs, ∃ other, plan.Promises ref other ∧ other.rank + 1 < own.rank)
    (same : .ok (.list (stored.reverse.map plan.meaning ++
      values.map fun value => .ok (value.tree plan.meaning))) = own.complete) :
    (reading names).terms.Realizes behaviour own plan (collect values stored) := by
  induction values generalizing plan stored with
  | nil =>
    refine Reading.realizes_done (fun ref member => kept ref (List.mem_reverse.mp member)) ?_
    rw [← same]
    simp [Value.tree]
  | cons value rest ih =>
    let promise : Promise := ⟨.ok (value.tree plan.meaning), own.rank - 1⟩
    have lower : (reading names).terms.rank promise < (reading names).terms.rank own := by
      simp only [Reading.terms, promise]
      omega
    have keeps : (reading names).Keeps plan promise (.forced value) := by
      refine ⟨by simp, Nat.zero_le _, fun ref member => ?_, rfl⟩
      obtain ⟨other, promises, below⟩ := inside ref (List.mem_flatMap.mpr ⟨value, List.mem_cons_self, member⟩)
      refine ⟨other, promises, ?_⟩
      simp only [promise, Reading.space]
      omega
    have extends' := plan.extends_push promise
    have new := plan.promises_push promise
    have tree (other : Value) (among : other ∈ rest) :
        other.tree (plan.push promise).meaning = other.tree plan.meaning :=
      other.tree_congr fun ref member => by
        obtain ⟨_, promises, _⟩ :=
          inside ref (List.mem_flatMap.mpr ⟨other, List.mem_cons_of_mem _ among, member⟩)
        exact promises.meaning_extend extends'
    have older (ref : Ref) (member : ref ∈ stored) : (plan.push promise).meaning ref = plan.meaning ref := by
      obtain ⟨_, promises, _⟩ := kept ref member
      exact promises.meaning_extend extends'
    refine .alloc lower keeps (ih (plan.size :: stored) ?_ ?_ ?_)
    · intro ref member
      rcases List.mem_cons.mp member with rfl | earlier
      · exact ⟨promise, new, lower⟩
      · exact (kept ref earlier).extend extends'
    · intro ref member
      obtain ⟨other, promises, below⟩ := inside ref (by
        simp only [List.flatMap_cons, List.mem_append]
        exact .inr member)
      exact ⟨other, promises.extend extends', below⟩
    · rw [← same, List.reverse_cons, List.map_append, List.map_cons, List.map_nil, new.meaning,
        List.map_congr_left fun ref member => older ref (List.mem_reverse.mp member),
        List.map_congr_left fun other among => congrArg Except.ok (tree other among)]
      simp [promise]

theorem sum_surface (meaning : Ref → Complete) (values : List Value) :
    sum ((values.map (Value.tree meaning)).map Tree.surface) = sum values := by
  unfold sum
  generalize zero = start
  induction values generalizing start with
  | nil => rfl
  | cons value rest ih =>
    simp only [List.map_cons, List.foldlM_cons, ArithmeticOp.apply_surface_right]
    cases ArithmeticOp.add.apply start value with
    | error fault => rfl
    | ok next => exact ih next

theorem sum_single (values : List Value) : SingleOutcome (sum values) := by
  unfold sum
  have single : zero.isSingle = true := rfl
  generalize zero = start at *
  induction values generalizing start with
  | nil =>
    rintro value ⟨⟩
    exact single
  | cons value rest ih =>
    have next := ArithmeticOp.add.apply_single start value
    intro result computed
    rw [List.foldlM_cons] at computed
    cases added : ArithmeticOp.add.apply start value with
    | error fault =>
      rw [added] at computed
      cases computed
    | ok total =>
      rw [added] at computed
      exact ih total (next total added) result computed

theorem headD_tree (meaning : Ref → Complete) (values : List Value) :
    (values.map (Value.tree meaning)).headD (.ofSurface zero) = (values.headD zero).tree meaning := by
  cases values <;> rfl

theorem describes (names : String → Option Ref) : (reading names).Describes (Act.run names) := by
  intro plan own act values room inside same
  have under (ref : Ref) (member : ref ∈ act.refs names ++ values.flatMap Value.refs) :
      (reading names).terms.Under plan own.rank ref := by
    obtain ⟨other, promises, lower⟩ := inside ref member
    exact ⟨other, promises, Nat.lt_of_le_of_lt (Nat.le_add_right _ _) lower⟩
  cases act with
  | done value => exact Reading.realizes_done (fun ref member => under ref (by simp [Act.refs, member])) same
  | first =>
    refine Reading.realizes_done (fun ref member => under ref ?_) ?_
    · cases values with
      | nil => simp [zero, Value.refs] at member
      | cons value rest => simp [show ref ∈ value.refs from member]
    · rw [← same, ← headD_tree]
      rfl
  | sum =>
    refine Reading.realizes_single (sum_single values) ?_
    rw [← same, ← sum_surface plan.meaning]
    rfl
  | add addend =>
    refine Reading.realizes_single (ArithmeticOp.add.apply_single _ addend) ?_
    rw [← same, ← ArithmeticOp.apply_surface_left plan.meaning, ← headD_tree]
    rfl
  | list =>
    refine collect_realizes values [] room (by simp) (fun ref member => inside ref (by simp [member])) ?_
    rw [← same]
    simp [reading, Act.complete]
  | defer name =>
    refine named_realizes same fun ref known meaning => Reading.realizes_defer (under ref ?_) meaning
    simp [Act.refs, known]
  | deferred target =>
    cases target with
    | none => exact Reading.realizes_done (by simp [zero, Value.refs]) same
    | some target => exact Reading.realizes_defer (under target (by simp [Act.refs])) same
  | force name =>
    refine named_realizes same fun ref known meaning =>
      Reading.realizes_need (under ref (by simp [Act.refs, known])) (fun fault failed => failed.symm.trans meaning) ?_
    intro plan' value extends' known' inside'
    refine Reading.realizes_done inside' ?_
    obtain ⟨_, promises, _⟩ := under ref (by simp [Act.refs, known])
    rw [← known', promises.meaning_extend extends', meaning]
  | fail fault => exact Reading.realizes_fail same

end Steps

end ByNeed.Script
