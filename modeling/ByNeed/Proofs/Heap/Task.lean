import ByNeed.Proofs.Heap.Equality

set_option autoImplicit false

-- Performing a task of a running program leads its cell to the complete outcome read off it. Two tasks do
-- more than change their own cell: a logical operator may make a cell for the right operand and hand over
-- to it, and an equality forces cells while its own one is running.
namespace ByNeed

def Task.refs : Task → List Ref
  | .shortCircuit _ right => [right]
  | .logical _ left => left.refs
  | .equality _ pairs => pairs.flatMap Pair.refs
  | _ => []

def verdict (negated : Bool) (all : Except Fault Bool) : Complete :=
  all.map fun same => .boolean (same != negated)

def Task.complete (meaning : Ref → Complete) : Task → List Tree → Complete
  | .fail fault, [] => .error fault
  | .index, [collection, position] => collection.index position
  | .create type fields, values => Tree.create type fields values
  | .member name, [object] => object.member name
  | .unary op, [operand] => operand.unary op
  | .arithmetic op, [left, right] => left.arithmetic op right
  | .shortCircuit op right, [left] => left.logical op (meaning right)
  | .logical op left, [right] => (op.apply left right.surface).map .ofSurface
  | .comparison op, [left, right] => left.compare op right
  | .equality negated pairs, [] => verdict negated (Pair.allEqual meaning pairs)
  | _, _ => .error .dependsOnItself

def Task.room : Task → Nat
  | .shortCircuit _ _ => 1
  | _ => 0

theorem Task.complete_congr {meaning meaning' : Ref → Complete} (task : Task) (values : List Tree)
    (same : ∀ ref ∈ task.refs, meaning ref = meaning' ref) :
    task.complete meaning values = task.complete meaning' values := by
  cases task with
  | shortCircuit op right =>
    have agree := same right (by simp [Task.refs])
    match values with
    | [] | _ :: _ :: _ => rfl
    | [_] => simp only [Task.complete, agree]
  | equality negated pairs =>
    match values with
    | [] => simp only [Task.complete, Pair.allEqual_congr pairs same]
    | _ :: _ => rfl
  | _ => match values with | [] | [_] | [_, _] | _ :: _ :: _ :: _ => rfl

def Task.reading : Reading Task where
  refs := Task.refs
  complete := Task.complete
  room _ task _ := task.room
  complete_congr := Task.complete_congr
  room_congr _ _ _ := rfl

-- No reference leads outside the heap.
def Heap.Whole (heap : Heap Task) : Prop :=
  ∀ ref, ∀ other ∈ Task.reading.links (heap.get ref), other < heap.cells.size

theorem Heap.whole_of_cells {heap : Heap Task}
    (each : ∀ ref < heap.cells.size, ∀ other ∈ Task.reading.links (heap.get ref), other < heap.cells.size) :
    heap.Whole := by
  intro ref other member
  by_cases inside : ref < heap.cells.size
  · exact each ref inside other member
  · rw [get_outside (Nat.le_of_not_lt inside)] at member
    cases member

namespace Task

variable {plan : Plan Promise} {own : Promise}

theorem select_realizes {collection position : Value}
    (under : ∀ ref ∈ collection.refs, reading.terms.Under plan own.rank ref)
    (same : (collection.tree plan.meaning).index (position.tree plan.meaning) = own.complete) :
    reading.terms.Realizes run own plan (select collection position) := by
  cases collection with
  | list elements =>
    cases position with
    | integer position =>
      simp only [Value.tree, Tree.index, List.length_map, List.getElem?_map] at same
      simp only [select, element]
      by_cases counted : 1 ≤ position
      · simp only [counted, if_true] at same ⊢
        cases found : elements[(position.toInt - 1).toNat]? with
        | none =>
          rw [found] at same
          exact Reading.realizes_fail same
        | some target =>
          rw [found] at same
          exact Reading.realizes_defer (under target (List.mem_of_getElem? found)) same
      · simp only [counted, if_false] at same ⊢
        exact Reading.realizes_fail same
    | _ => exact Reading.realizes_fail same
  | _ => exact Reading.realizes_fail same

theorem build_realizes {type : String} {fields : List String} {values : List Value}
    (under : ∀ ref ∈ values.flatMap Value.refs, reading.terms.Under plan own.rank ref)
    (same : Tree.create type fields (values.map (Value.tree plan.meaning)) = own.complete) :
    reading.terms.Realizes run own plan (build type fields values) := by
  simp only [Tree.create, List.length_map] at same
  simp only [build]
  by_cases fits : values.length = fields.length
  · simp only [fits, if_true] at same ⊢
    have trees : (Value.record type (fields.zip values)).tree plan.meaning =
        .record type (fields.zip (values.map (Value.tree plan.meaning))) := by
      simp only [Value.tree, Value.treesOfFields_eq_map, List.zip_map_right]
      rfl
    rw [← trees] at same
    refine Reading.realizes_done (fun ref member => ?_) same
    obtain ⟨field, among, held⟩ := Value.mem_refsOfFields.mp member
    exact under ref (List.mem_flatMap.mpr ⟨field.2, (List.of_mem_zip among).2, held⟩)
  · simp only [fits, if_false] at same ⊢
    exact Reading.realizes_fail same

theorem field_realizes {name : String} {object : Value}
    (under : ∀ ref ∈ object.refs, reading.terms.Under plan own.rank ref)
    (same : (object.tree plan.meaning).member name = own.complete) :
    reading.terms.Realizes run own plan (field name object) := by
  cases object with
  | record type fields =>
    simp only [Value.tree, Tree.member, Value.treesOfFields_eq_map, List.find?_map,
      Function.comp_def] at same
    simp only [field]
    cases found : fields.find? fun entry => entry.1 = name with
    | none =>
      rw [found] at same
      exact Reading.realizes_fail same
    | some entry =>
      rw [found] at same
      refine Reading.realizes_done (fun ref member => under ref ?_) same
      exact Value.mem_refsOfFields.mpr ⟨entry, List.mem_of_find?_eq_some found, member⟩
  | _ => exact Reading.realizes_fail same

-- The new cell is promised what its maker is, with a rank between that of the right operand and that of
-- its maker.
theorem shortCut_realizes {op : LogicalOp} {right : Ref} {left : Value} {other : Promise}
    (promises : plan.Promises right other) (room : other.rank + 1 < own.rank)
    (same : (left.tree plan.meaning).logical op (plan.meaning right) = own.complete) :
    reading.terms.Realizes run own plan (shortCut op right left) := by
  cases left with
  | boolean value =>
    simp only [Value.tree, Tree.logical] at same
    simp only [shortCut]
    by_cases decided : value = op.deciding
    · simp only [decided, if_true] at same ⊢
      exact Reading.realizes_done (by simp [Value.refs]) same
    · simp only [decided, if_false] at same ⊢
      let promise : Promise := ⟨own.complete, other.rank + 1⟩
      have keeps : reading.Keeps plan promise (.pending [right] (.logical op (.boolean value))) := by
        have space : reading.space plan.meaning (.pending [right] (.logical op (.boolean value))) = 0 := by
          simp only [Reading.space]
          cases (List.mapM plan.meaning [right]).toOption <;> rfl
        refine ⟨by simp, space ▸ Nat.zero_le _, fun ref member => ⟨other, ?_, ?_⟩, ?_⟩
        · have : ref = right := by simpa [Reading.links, reading, refs, Value.refs] using member
          exact this ▸ promises
        · rw [space]
          exact Nat.lt_succ_self _
        · rw [← same]
          simp only [Reading.outcome, List.mapM_cons, List.mapM_nil]
          cases plan.meaning right <;> rfl
      have promised := plan.promises_push promise
      have lower : reading.terms.rank promise < reading.terms.rank own := room
      exact .alloc lower keeps (Reading.realizes_defer ⟨promise, promised, lower⟩ promised.meaning)
  | _ => exact Reading.realizes_fail same

theorem allEqual_cells {meaning : Ref → Complete} {left right : Ref} (rest : List Pair) {value value' : Value}
    (known : meaning left = .ok (value.tree meaning)) (known' : meaning right = .ok (value'.tree meaning)) :
    Pair.allEqual meaning (.cells left right :: rest) = Pair.allEqual meaning (.values value value' :: rest) := by
  simp only [Pair.allEqual, Pair.equal, known, known']
  rfl

theorem allEqual_parts {meaning : Ref → Complete} {left right : Value} {parts : List Pair} (rest : List Pair)
    (found : left.parts? right = some parts) :
    Pair.allEqual meaning (.values left right :: rest) = Pair.allEqual meaning (parts ++ rest) := by
  rw [Pair.allEqual_append]
  simp only [Pair.allEqual, Pair.equal, equal_tree, found]

structure Compares (negated : Bool) (own : Promise) (plan : Plan Promise) (pairs : List Pair) : Prop where
  under : ∀ ref ∈ pairs.flatMap Pair.refs, reading.terms.Under plan own.rank ref
  same : verdict negated (Pair.allEqual plan.meaning pairs) = own.complete

variable {negated : Bool} {pairs rest : List Pair} {plan' : Plan Promise}

theorem Compares.meaning (compares : Compares negated own plan pairs) (extends' : plan.Extends plan') :
    ∀ ref ∈ pairs.flatMap Pair.refs, plan'.meaning ref = plan.meaning ref := by
  intro ref member
  obtain ⟨promise, promises, _⟩ := compares.under ref member
  exact promises.meaning_extend extends'

theorem Compares.extend (compares : Compares negated own plan pairs) (extends' : plan.Extends plan') :
    Compares negated own plan' pairs where
  under ref member := (compares.under ref member).extend extends'
  same := by rw [Pair.allEqual_congr pairs (compares.meaning extends'), compares.same]

theorem Compares.parts {left right : Value} {parts : List Pair}
    (compares : Compares negated own plan (.values left right :: rest))
    (found : left.parts? right = some parts) : Compares negated own plan (parts ++ rest) where
  under ref member := by
    refine compares.under ref ?_
    simp only [List.flatMap_append, List.flatMap_cons, Pair.refs, List.mem_append] at member ⊢
    rcases member with inside | later
    · exact .inl (refs_parts found inside)
    · exact .inr later
  same := by rw [← allEqual_parts rest found, compares.same]

-- The cells of a pair were forced, and their values take their place.
theorem Compares.values {left right : Ref} {value value' : Value}
    (compares : Compares negated own plan (.cells left right :: rest))
    (known : plan.meaning left = .ok (value.tree plan.meaning))
    (known' : plan.meaning right = .ok (value'.tree plan.meaning))
    (under : ∀ ref ∈ value.refs, reading.terms.Under plan own.rank ref)
    (under' : ∀ ref ∈ value'.refs, reading.terms.Under plan own.rank ref) :
    Compares negated own plan (.values value value' :: rest) where
  under ref member := by
    simp only [List.flatMap_cons, Pair.refs, List.mem_append] at member
    rcases member with (inside | inside) | later
    · exact under ref inside
    · exact under' ref inside
    · exact compares.under ref (by simp [later])
  same := by rw [← allEqual_cells rest known known', compares.same]

-- By induction on what is left to compare: a pair of cells is heavier than their values, and values are
-- heavier than their parts.
theorem comparePairs_realizes (weight : Nat) (light : Pair.weights plan.meaning pairs ≤ weight)
    (compares : Compares negated own plan pairs) :
    reading.terms.Realizes run own plan (comparePairs negated pairs) := by
  induction weight using Nat.strongRecOn generalizing plan pairs with
  | ind weight ih =>
    match pairs with
    | [] =>
      refine Reading.realizes_done (by simp [Value.refs]) ?_
      rw [← compares.same]
      cases negated <;> rfl
    | .values left right :: rest =>
      simp only [comparePairs]
      cases found : left.parts? right with
      | none =>
        refine Reading.realizes_done (by simp [Value.refs]) ?_
        rw [← compares.same]
        simp only [Pair.allEqual, Pair.equal, equal_tree, found]
        cases negated <;> rfl
      | some parts =>
        have smaller := weights_parts plan.meaning found
        simp only [Pair.weights_cons, Pair.weight] at light
        refine .become (ih _ ?_ (Nat.le_refl _) (compares.parts found))
        rw [Pair.weights_append]
        omega
    | .cells left right :: rest =>
      refine Reading.realizes_need (compares.under left (by simp [Pair.refs])) (fun fault known => ?_)
        fun plan₁ value extends₁ known₁ under₁ => ?_
      · rw [← compares.same]
        simp only [Pair.allEqual, Pair.equal, known]
        rfl
      have compares₁ := compares.extend extends₁
      have light₁ := Pair.weights_congr _ (compares.meaning extends₁) ▸ light
      refine Reading.realizes_need (compares₁.under right (by simp [Pair.refs])) (fun fault known => ?_)
        fun plan₂ value' extends₂ known₂ under₂ => ?_
      · rw [← compares₁.same]
        simp only [Pair.allEqual, Pair.equal, known₁, known]
        rfl
      have compares₂ := compares₁.extend extends₂
      have light₂ := Pair.weights_congr _ (compares₁.meaning extends₂) ▸ light₁
      have known₁' : plan₂.meaning left = .ok (value.tree plan₂.meaning) := by
        rw [compares₁.meaning extends₂ left (by simp [Pair.refs]), known₁]
        refine congrArg Except.ok (value.tree_congr fun ref member => ?_)
        obtain ⟨promise, promises, _⟩ := under₁ ref member
        exact (promises.meaning_extend extends₂).symm
      have values := compares₂.values known₁' known₂
        (fun ref member => (under₁ ref member).extend extends₂) under₂
      refine .become (ih _ ?_ (Nat.le_refl _) values)
      simp only [Pair.weights_cons, Pair.weight, known₁', known₂, Complete.size] at light₂ ⊢
      omega

theorem compare_realizes {op : ComparisonOp} {left right : Value}
    (under : ∀ ref ∈ left.refs ++ right.refs, reading.terms.Under plan own.rank ref)
    (same : (left.tree plan.meaning).compare op (right.tree plan.meaning) = own.complete) :
    reading.terms.Realizes run own plan (compare op left right) := by
  have pairs (negated : Bool)
      (same : verdict negated ((left.tree plan.meaning).equal (right.tree plan.meaning)) = own.complete) :
      reading.terms.Realizes run own plan (comparePairs negated [.values left right]) := by
    refine comparePairs_realizes _ (Nat.le_refl _) ⟨by simpa [Pair.refs] using under, ?_⟩
    rw [← same]
    simp only [Pair.allEqual, Pair.equal]
    cases (left.tree plan.meaning).equal (right.tree plan.meaning) with
    | error fault => rfl
    | ok same => cases same <;> rfl
  have verdict_eq (negated : Bool) : verdict negated ((left.tree plan.meaning).equal (right.tree plan.meaning)) =
      (do return .boolean ((← (left.tree plan.meaning).equal (right.tree plan.meaning)) != negated)) := by
    cases (left.tree plan.meaning).equal (right.tree plan.meaning) <;> rfl
  cases op with
  | less =>
    simp only [Tree.compare, less, ordered_surface] at same
    exact Reading.realizes_single (ordered_single _ _ _ left right) same
  | greater =>
    simp only [Tree.compare, greater, ordered_surface] at same
    exact Reading.realizes_single (ordered_single _ _ _ left right) same
  | equal =>
    refine pairs false ?_
    rw [verdict_eq, ← same]
    simp [Tree.compare]
  | notEqual =>
    refine pairs true ?_
    rw [verdict_eq, ← same]
    simp [Tree.compare]

theorem describes : reading.Describes run := by
  intro plan own task values _ room same
  have under (ref : Ref) (member : ref ∈ refs task ++ values.flatMap Value.refs) :
      reading.terms.Under plan own.rank ref := by
    obtain ⟨other, promises, lower⟩ := room ref member
    exact ⟨other, promises, Nat.lt_of_le_of_lt (Nat.le_add_right _ _) lower⟩
  -- In each case, a number of values that the task does not wait for is a fault on either side.
  cases task with
  | fail fault => cases values <;> exact Reading.realizes_fail same
  | create type fields => exact build_realizes (fun ref member => under ref (List.mem_append_right _ member)) same
  | index =>
    rcases values with _ | ⟨collection, _ | ⟨position, _ | _⟩⟩
    case cons.cons.nil => exact select_realizes (fun ref member => under ref (by simp [member])) same
    all_goals exact Reading.realizes_fail same
  | member name =>
    rcases values with _ | ⟨object, _ | _⟩
    case cons.nil => exact field_realizes (fun ref member => under ref (by simp [member])) same
    all_goals exact Reading.realizes_fail same
  | unary op =>
    rcases values with _ | ⟨operand, _ | _⟩
    case cons.nil =>
      refine Reading.realizes_single (op.apply_single operand) ?_
      rw [← op.apply_surface plan.meaning]
      exact same
    all_goals exact Reading.realizes_fail same
  | arithmetic op =>
    rcases values with _ | ⟨left, _ | ⟨right, _ | _⟩⟩
    case cons.cons.nil =>
      refine Reading.realizes_single (op.apply_single left right) ?_
      rw [← op.apply_surface plan.meaning]
      exact same
    all_goals exact Reading.realizes_fail same
  | shortCircuit op right =>
    rcases values with _ | ⟨left, _ | _⟩
    case cons.nil =>
      obtain ⟨other, promises, lower⟩ := room right (by simp [reading, refs])
      exact shortCut_realizes promises lower same
    all_goals exact Reading.realizes_fail same
  | logical op left =>
    rcases values with _ | ⟨right, _ | _⟩
    case cons.nil =>
      refine Reading.realizes_single (op.apply_single left right) ?_
      rw [← op.apply_surface plan.meaning]
      exact same
    all_goals exact Reading.realizes_fail same
  | comparison op =>
    rcases values with _ | ⟨left, _ | ⟨right, _ | _⟩⟩
    case cons.cons.nil =>
      refine compare_realizes (fun ref member => under ref ?_) same
      simpa [refs] using member
    all_goals exact Reading.realizes_fail same
  | equality negated pairs =>
    cases values with
    | nil => exact comparePairs_realizes _ (Nat.le_refl _) ⟨fun ref member => under ref (by simpa [refs] using member), same⟩
    | cons value others => exact Reading.realizes_fail same

end Task

end ByNeed
