import ByNeed.Eval.Task
import ByNeed.Proofs.Heap.Operator

set_option autoImplicit false

-- The equality of two values comes down to pairs. Comparing them in order is comparing the trees of the
-- values, and together they are smaller than the two trees.
namespace ByNeed

def Pair.refs : Pair → List Ref
  | .cells left right => [left, right]
  | .values left right => left.refs ++ right.refs

def Pair.equal (meaning : Ref → Complete) : Pair → Except Fault Bool
  | .cells left right => do (← meaning left).equal (← meaning right)
  | .values left right => (left.tree meaning).equal (right.tree meaning)

def Pair.allEqual (meaning : Ref → Complete) : List Pair → Except Fault Bool
  | [] => .ok true
  | pair :: rest => do if ← pair.equal meaning then allEqual meaning rest else .ok false

section

variable {meaning meaning' : Ref → Complete}

theorem Pair.equal_congr (pair : Pair) (same : ∀ ref ∈ pair.refs, meaning ref = meaning' ref) :
    pair.equal meaning = pair.equal meaning' := by
  cases pair with
  | cells left right =>
    simp only [Pair.equal, same left (by simp [Pair.refs]), same right (by simp [Pair.refs])]
  | values left right =>
    simp only [Pair.refs, List.mem_append] at same
    simp only [Pair.equal]
    rw [left.tree_congr fun ref member => same ref (.inl member),
      right.tree_congr fun ref member => same ref (.inr member)]

theorem Pair.allEqual_congr (pairs : List Pair)
    (same : ∀ ref ∈ pairs.flatMap Pair.refs, meaning ref = meaning' ref) :
    Pair.allEqual meaning pairs = Pair.allEqual meaning' pairs := by
  induction pairs with
  | nil => rfl
  | cons pair rest ih =>
    simp only [List.flatMap_cons, List.mem_append] at same
    simp only [Pair.allEqual]
    rw [pair.equal_congr fun ref member => same ref (.inl member),
      ih fun ref member => same ref (.inr member)]

end

mutual

def Tree.size : Tree → Nat
  | .list elements => Tree.sizeOfElements elements + 1
  | .record _ fields => Tree.sizeOfFields fields + 1
  | _ => 1

def Tree.sizeOfElements : List (Except Fault Tree) → Nat
  | [] => 0
  | .ok element :: rest => Tree.size element + 1 + Tree.sizeOfElements rest
  | .error _ :: rest => 1 + Tree.sizeOfElements rest

def Tree.sizeOfFields : List (String × Tree) → Nat
  | [] => 0
  | (_, value) :: rest => Tree.size value + Tree.sizeOfFields rest

end

theorem Tree.size_pos (tree : Tree) : 0 < tree.size := by
  cases tree <;> simp [Tree.size]

def Complete.size : Complete → Nat
  | .ok value => value.size
  | .error _ => 0

theorem Tree.sizeOfElements_cons (first : Complete) (rest : List Complete) :
    Tree.sizeOfElements (first :: rest) =
      Complete.size first + 1 + Tree.sizeOfElements rest := by
  cases first <;> simp [Tree.sizeOfElements, Complete.size]

def Pair.weight (meaning : Ref → Complete) : Pair → Nat
  | .cells left right => Complete.size (meaning left) + Complete.size (meaning right) + 1
  | .values left right => (left.tree meaning).size + (right.tree meaning).size

def Pair.weights (meaning : Ref → Complete) (pairs : List Pair) : Nat :=
  (pairs.map (Pair.weight meaning)).sum

theorem Pair.weights_congr {meaning meaning' : Ref → Complete} (pairs : List Pair)
    (same : ∀ ref ∈ pairs.flatMap Pair.refs, meaning ref = meaning' ref) :
    Pair.weights meaning pairs = Pair.weights meaning' pairs := by
  refine congrArg List.sum (List.map_congr_left fun pair member => ?_)
  have here (ref : Ref) (held : ref ∈ pair.refs) : meaning ref = meaning' ref :=
    same ref (List.mem_flatMap.mpr ⟨pair, member, held⟩)
  cases pair with
  | cells left right => simp only [weight, here left (by simp [refs]), here right (by simp [refs])]
  | values left right =>
    simp only [weight, left.tree_congr fun ref held => here ref (List.mem_append_left _ held),
      right.tree_congr fun ref held => here ref (List.mem_append_right _ held)]

section

variable (meaning : Ref → Complete)

@[simp] theorem Pair.weights_nil : Pair.weights meaning [] = 0 := rfl

@[simp] theorem Pair.weights_cons (pair : Pair) (rest : List Pair) :
    Pair.weights meaning (pair :: rest) = pair.weight meaning + Pair.weights meaning rest := by
  simp [Pair.weights]

@[simp] theorem Pair.weights_append (first second : List Pair) :
    Pair.weights meaning (first ++ second) =
      Pair.weights meaning first + Pair.weights meaning second := by
  simp [Pair.weights]

theorem Pair.allEqual_append (first second : List Pair) :
    Pair.allEqual meaning (first ++ second) =
      (do if ← Pair.allEqual meaning first then Pair.allEqual meaning second else .ok false) := by
  induction first with
  | nil => rfl
  | cons pair rest ih =>
    simp only [List.cons_append, Pair.allEqual, ih]
    cases pair.equal meaning with
    | error fault => rfl
    | ok same => cases same <;> rfl

theorem equalElements_zipWith (left right : List Ref) :
    Tree.equalElements (left.map meaning) (right.map meaning) =
      Pair.allEqual meaning (List.zipWith .cells left right) := by
  induction left generalizing right with
  | nil => rfl
  | cons first rest ih =>
    cases right with
    | nil => cases found : meaning first <;> simp [Tree.equalElements, Pair.allEqual, found]
    | cons first' rest' =>
      simp only [List.map_cons, List.zipWith_cons_cons, Pair.allEqual, Pair.equal]
      cases meaning first with
      | error fault => rfl
      | ok element =>
        cases meaning first' with
        | error fault => rfl
        | ok element' => simp only [Tree.equalElements, ih]; rfl

theorem equalFields_zipWith (left right : List (String × Value)) :
    Tree.equalFields (Value.treesOfFields meaning left) (Value.treesOfFields meaning right) =
      Pair.allEqual meaning
        (List.zipWith (fun field field' => .values field.2 field'.2) left right) := by
  induction left generalizing right with
  | nil => rfl
  | cons first rest ih =>
    cases right with
    | nil => rfl
    | cons first' rest' =>
      simp only [Value.treesOfFields, Tree.equalFields, ih, List.zipWith_cons_cons, Pair.allEqual,
        Pair.equal]

-- Without parts the values differ, else they are as equal as their parts.
theorem equal_tree (left right : Value) :
    (left.tree meaning).equal (right.tree meaning) =
      match left.parts? right with
      | some parts => Pair.allEqual meaning parts
      | none => .ok false := by
  have names (fields : List (String × Value)) :
      (Value.treesOfFields meaning fields).map Prod.fst = fields.map Prod.fst := by
    simp [Value.treesOfFields_eq_map, Function.comp_def]
  cases left <;> cases right <;>
    simp only [Value.tree, Tree.equal, Value.parts?, List.length_map, equalElements_zipWith,
      equalFields_zipWith, names]
  all_goals split <;> simp_all [Pair.allEqual]

theorem weights_zipWith_cells (left right : List Ref) :
    Pair.weights meaning (List.zipWith .cells left right) ≤
      Tree.sizeOfElements (left.map meaning) + Tree.sizeOfElements (right.map meaning) := by
  induction left generalizing right with
  | nil => simp
  | cons first rest ih =>
    cases right with
    | nil => simp
    | cons first' rest' =>
      have smaller := ih rest'
      simp only [List.zipWith_cons_cons, Pair.weights_cons, Pair.weight, List.map_cons,
        Tree.sizeOfElements_cons]
      omega

theorem weights_zipWith_values (left right : List (String × Value)) :
    Pair.weights meaning (List.zipWith (fun field field' => .values field.2 field'.2) left right) ≤
      Tree.sizeOfFields (Value.treesOfFields meaning left) +
        Tree.sizeOfFields (Value.treesOfFields meaning right) := by
  induction left generalizing right with
  | nil => simp
  | cons first rest ih =>
    cases right with
    | nil => simp
    | cons first' rest' =>
      have smaller := ih rest'
      simp only [List.zipWith_cons_cons, Pair.weights_cons, Pair.weight, Value.treesOfFields,
        Tree.sizeOfFields]
      omega

theorem weights_parts {left right : Value} {parts : List Pair}
    (found : left.parts? right = some parts) :
    Pair.weights meaning parts < (left.tree meaning).size + (right.tree meaning).size := by
  have one := (left.tree meaning).size_pos
  unfold Value.parts? at found
  split at found
  case h_7 left right =>
    split at found <;> cases found
    have bound := weights_zipWith_cells meaning left right
    simp only [Value.tree, Tree.size]
    omega
  case h_8 type left type' right =>
    split at found <;> cases found
    have bound := weights_zipWith_values meaning left right
    simp only [Value.tree, Tree.size]
    omega
  case h_9 => cases found
  all_goals
    split at found <;> cases found
    simp only [Pair.weights_nil]
    omega

end

theorem mem_of_mem_zipWith {α : Type} {join : α → α → Pair} {left right : List α} {pair : Pair}
    (member : pair ∈ List.zipWith join left right) :
    ∃ first ∈ left, ∃ second ∈ right, pair = join first second := by
  rw [← List.map_uncurry_zip_eq_zipWith] at member
  obtain ⟨⟨first, second⟩, both, rfl⟩ := List.mem_map.mp member
  obtain ⟨isLeft, isRight⟩ := List.of_mem_zip both
  exact ⟨first, isLeft, second, isRight, rfl⟩

-- A part of two values is a pair of elements or a pair of fields.
theorem Value.part_cases {left right : Value} {parts : List Pair}
    (found : left.parts? right = some parts) {pair : Pair} (member : pair ∈ parts) :
    (∃ elements elements' first second, left = .list elements ∧ right = .list elements' ∧
      first ∈ elements ∧ second ∈ elements' ∧ pair = .cells first second) ∨
    ∃ type fields type' fields' first second, left = .record type fields ∧
      right = .record type' fields' ∧ first ∈ fields ∧ second ∈ fields' ∧
      pair = .values first.2 second.2 := by
  unfold Value.parts? at found
  split at found
  case h_7 elements elements' =>
    split at found <;> cases found
    obtain ⟨first, isFirst, second, isSecond, rfl⟩ := mem_of_mem_zipWith member
    exact .inl ⟨elements, elements', first, second, rfl, rfl, isFirst, isSecond, rfl⟩
  case h_8 type fields type' fields' =>
    split at found <;> cases found
    obtain ⟨first, isFirst, second, isSecond, rfl⟩ := mem_of_mem_zipWith member
    exact .inr ⟨type, fields, type', fields', first, second, rfl, rfl, isFirst, isSecond, rfl⟩
  case h_9 => cases found
  all_goals
    split at found <;> cases found
    cases member

-- The parts hold no cells but those of the two values.
theorem refs_parts {left right : Value} {parts : List Pair}
    (found : left.parts? right = some parts) {ref : Ref} (member : ref ∈ parts.flatMap Pair.refs) :
    ref ∈ left.refs ∨ ref ∈ right.refs := by
  obtain ⟨pair, among, inside⟩ := List.mem_flatMap.mp member
  rcases Value.part_cases found among with
    ⟨elements, elements', first, second, rfl, rfl, isFirst, isSecond, rfl⟩ |
    ⟨type, fields, type', fields', first, second, rfl, rfl, isFirst, isSecond, rfl⟩
  · rcases List.mem_pair.mp inside with rfl | rfl
    · exact .inl isFirst
    · exact .inr isSecond
  · rcases List.mem_append.mp inside with held | held
    · exact .inl (Value.mem_refsOfFields.mpr ⟨first, isFirst, held⟩)
    · exact .inr (Value.mem_refsOfFields.mpr ⟨second, isSecond, held⟩)

end ByNeed
