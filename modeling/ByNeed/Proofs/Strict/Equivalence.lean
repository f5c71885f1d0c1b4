import ByNeed.Proofs.Strict.Tree
import ByNeed.Proofs.Value.Number

set_option autoImplicit false

-- What keeps equality from being transitive is an integer that is compared with a float: the integer is
-- rounded first, so that two different integers may equal one float. Nothing else does.
namespace ByNeed.Tree

-- No float inside is NaN.
def WithoutNaN (tree : Tree) : Prop :=
  ∀ value, Inside (.float value) tree → value.isNaN = false

-- All integers inside are floats too.
def Narrow (tree : Tree) : Prop :=
  ∀ value, Inside (.integer value) tree → |value.toInt| ≤ 2 ^ 53

/-- Two different integers are rounded to the same float, which stands between them at the same place. -/
inductive Clash : Tree → Tree → Tree → Prop
  | rounded {left right : Int64} {between : Float} (first : (nearest left == between) = true)
    (second : (nearest right == between) = true) (differ : left ≠ right) :
    Clash (.integer left) (.float between) (.integer right)
  | inside {left between right left' between' right' : Tree} (place : Nat)
    (first : left.outcomes[place]? = some (.ok left')) (second : between.outcomes[place]? = some (.ok between'))
    (third : right.outcomes[place]? = some (.ok right')) (clash : Clash left' between' right') :
    Clash left between right

def Same (left right : Tree) : Prop :=
  left.equal right = .ok true

def SameAll (lefts rights : List Complete) : Prop :=
  lefts.length = rights.length ∧ ∀ place < lefts.length, ∃ left right : Tree,
    lefts[place]? = some (.ok left) ∧ rights[place]? = some (.ok right) ∧ left.Same right

section Parts

theorem Inside.of_leaf {inner outer : Tree} (inside : Inside inner outer) (leaf : outer.outcomes = []) :
    outer = inner := by
  simpa [leaf] using inside_iff.mp inside

theorem equalFields_eq (lefts rights : List (String × Tree)) :
    equalFields lefts rights =
      equalElements (lefts.map fun field => .ok field.2) (rights.map fun field => .ok field.2) := by
  induction lefts generalizing rights with
  | nil => rfl
  | cons left lefts ih =>
    cases rights with
    | nil => rfl
    | cons right rights => simp only [equalFields, List.map_cons, equalElements, ih]

theorem equalElements_cons (left right : Tree) (lefts rights : List Complete) :
    equalElements (.ok left :: lefts) (.ok right :: rights) =
      (do if ← left.equal right then equalElements lefts rights else .ok false) := rfl

theorem sameAll_cons_iff {left right : Complete} {lefts rights : List Complete} :
    SameAll (left :: lefts) (right :: rights) ↔
      (∃ left' right', left = .ok left' ∧ right = .ok right' ∧ left'.Same right') ∧ SameAll lefts rights := by
  simp only [SameAll, List.length_cons, Nat.add_right_cancel_iff, Nat.forall_lt_succ_left, List.getElem?_cons_zero,
    List.getElem?_cons_succ, Option.some_inj]
  exact and_left_comm

theorem equalElements_true_iff {lefts rights : List Complete} (length : lefts.length = rights.length) :
    equalElements lefts rights = .ok true ↔ SameAll lefts rights := by
  induction lefts generalizing rights with
  | nil =>
    cases rights with
    | nil => simp [equalElements, SameAll]
    | cons => cases length
  | cons left lefts ih =>
    cases rights with
    | nil => cases length
    | cons right rights =>
      rw [sameAll_cons_iff, ← ih (Nat.succ.inj length)]
      cases left with
      | error => simp [equalElements]
      | ok left =>
        cases right with
        | error => simp [equalElements]
        | ok right =>
          rw [equalElements_cons]
          cases found : left.equal right with
          | error => simp [Same, found, bind, Except.bind]
          | ok same => cases same <;> simp [Same, found, bind, Except.bind]

theorem exists_of_equalElements_false {lefts rights : List Complete} (differ : equalElements lefts rights = .ok false) :
    ∃ (place : Nat) (left right : Tree), lefts[place]? = some (.ok left) ∧ rights[place]? = some (.ok right) ∧
      left.equal right = .ok false := by
  induction lefts generalizing rights with
  | nil => cases rights <;> cases differ
  | cons left lefts ih =>
    cases rights with
    | nil => cases left <;> cases differ
    | cons right rights =>
      cases left with
      | error => cases differ
      | ok left =>
        cases right with
        | error => cases differ
        | ok right =>
          rw [equalElements_cons] at differ
          cases found : left.equal right with
          | error =>
            rw [found] at differ
            cases differ
          | ok same =>
            rw [found] at differ
            cases same with
            | false => exact ⟨0, left, right, rfl, rfl, found⟩
            | true =>
              obtain ⟨place, left', right', first, second, differ⟩ := ih differ
              exact ⟨place + 1, left', right', first, second, differ⟩

end Parts

section Relation

variable {left between right : Tree} {lefts betweens rights : List Complete}

theorem same_list_iff :
    Same (.list lefts) (.list rights) ↔ SameAll (outcomes (.list lefts)) (outcomes (.list rights)) := by
  rw [Same, equal]
  split
  · next length => exact equalElements_true_iff length
  · next differ => simp [SameAll, outcomes, differ]

theorem same_record_iff {type type' : String} {fields fields' : List (String × Tree)} :
    Same (.record type fields) (.record type' fields') ↔
      (type = type' ∧ fields.map Prod.fst = fields'.map Prod.fst) ∧
        SameAll (outcomes (.record type fields)) (outcomes (.record type' fields')) := by
  rw [Same, equal]
  split
  · next shape =>
    have length : fields.length = fields'.length := by simpa using congrArg List.length shape.2
    rw [equalFields_eq, equalElements_true_iff (by simpa using length)]
    exact (and_iff_right shape).symm
  · next differ => simp [differ]

theorem SameAll.symm (each : ∀ left, Except.ok left ∈ lefts → ∀ {right}, left.Same right → right.Same left)
    (same : SameAll lefts rights) : SameAll rights lefts := by
  obtain ⟨length, same⟩ := same
  refine ⟨length.symm, fun place within => ?_⟩
  obtain ⟨left, right, first, second, same⟩ := same place (length ▸ within)
  exact ⟨right, left, second, first, each left (List.mem_of_getElem? first) same⟩

theorem Same.symm (same : left.Same right) : right.Same left := by
  induction left using outcomes_induction generalizing right with
  | step left inner =>
    cases left with
    | integer value =>
      cases right with
      | integer => simpa [Same, equal, eq_comm] using same
      | float => exact same
      | string | boolean | list | record => cases same
    | float value =>
      cases right with
      | float => exact congrArg Except.ok (float_beq_symm (Except.ok.inj same))
      | integer => exact same
      | string | boolean | list | record => cases same
    | string text =>
      cases right with
      | string => simpa [Same, equal, eq_comm] using same
      | integer | float | boolean | list | record => cases same
    | boolean value =>
      cases right with
      | boolean => simpa [Same, equal, eq_comm] using same
      | integer | float | string | list | record => cases same
    | list elements =>
      cases right with
      | list => exact same_list_iff.mpr ((same_list_iff.mp same).symm inner)
      | integer | float | string | boolean | record => cases same
    | record type fields =>
      cases right with
      | record =>
        obtain ⟨shape, same⟩ := same_record_iff.mp same
        exact same_record_iff.mpr ⟨⟨shape.1.symm, shape.2.symm⟩, same.symm inner⟩
      | integer | float | string | boolean | list => cases same

theorem clash_inside_iff (branch : ∀ value, left ≠ .integer value) :
    Clash left between right ↔ ∃ (place : Nat) (left' between' right' : Tree),
      left.outcomes[place]? = some (.ok left') ∧ between.outcomes[place]? = some (.ok between') ∧
        right.outcomes[place]? = some (.ok right') ∧ Clash left' between' right' := by
  constructor
  · rintro (_ | ⟨place, first, second, third, clash⟩)
    · exact absurd rfl (branch _)
    · exact ⟨place, _, _, _, first, second, third, clash⟩
  · rintro ⟨place, left', between', right', first, second, third, clash⟩
    exact .inside place first second third clash

theorem SameAll.trans_iff
    (each : ∀ left, Except.ok left ∈ lefts → ∀ {between right}, left.Same between → between.Same right →
      (left.Same right ↔ ¬ Clash left between right))
    (first : SameAll lefts betweens) (second : SameAll betweens rights) :
    SameAll lefts rights ↔ ∀ (place : Nat) (left between right : Tree), lefts[place]? = some (.ok left) →
      betweens[place]? = some (.ok between) → rights[place]? = some (.ok right) → ¬ Clash left between right := by
  obtain ⟨length, first⟩ := first
  obtain ⟨length', second⟩ := second
  have atPlace (place : Nat) (within : place < lefts.length) : ∃ left between right : Tree,
      lefts[place]? = some (.ok left) ∧ betweens[place]? = some (.ok between) ∧ rights[place]? = some (.ok right) ∧
        (left.Same right ↔ ¬ Clash left between right) := by
    obtain ⟨left, between, isLeft, isBetween, same⟩ := first place within
    obtain ⟨between', right, isBetween', isRight, same'⟩ := second place (length ▸ within)
    cases isBetween.symm.trans isBetween'
    exact ⟨left, between, right, isLeft, isBetween, isRight, each left (List.mem_of_getElem? isLeft) same same'⟩
  constructor
  · rintro ⟨_, same⟩ place left between right isLeft isBetween isRight
    have within : place < lefts.length := (List.getElem?_eq_some_iff.mp isLeft).1
    obtain ⟨_, _, _, isLeft', isBetween', isRight', iff⟩ := atPlace place within
    cases isLeft.symm.trans isLeft'
    cases isBetween.symm.trans isBetween'
    cases isRight.symm.trans isRight'
    obtain ⟨_, _, isLeft', isRight', same⟩ := same place within
    cases isLeft.symm.trans isLeft'
    cases isRight.symm.trans isRight'
    exact iff.mp same
  · intro apart
    refine ⟨length.trans length', fun place within => ?_⟩
    obtain ⟨left, between, right, isLeft, isBetween, isRight, iff⟩ := atPlace place within
    exact ⟨left, right, isLeft, isRight, iff.mpr (apart place left between right isLeft isBetween isRight)⟩

theorem Clash.of_leaf (leaf : left.outcomes = []) (clash : Clash left between right) :
    ∃ first second third, left = .integer first ∧ between = .float second ∧ right = .integer third ∧
      first ≠ third := by
  cases clash with
  | rounded _ _ differ => exact ⟨_, _, _, rfl, rfl, rfl, differ⟩
  | inside place first => simp [leaf] at first

theorem same_trans_iff_of_integer {value : Int64} (first : Same (.integer value) between)
    (second : between.Same right) :
    Same (.integer value) right ↔ ¬ Clash (.integer value) between right := by
  cases between with
  | string | boolean | list | record => cases first
  | integer value' =>
    obtain rfl : value = value' := by simpa [Same, equal] using first
    exact iff_of_true second fun clash => by simpa using clash.of_leaf rfl
  | float middle =>
    have first : (nearest value == middle) = true := Except.ok.inj first
    cases right with
    | string | boolean | list | record => cases second
    | float last =>
      have same := float_beq_trans first (Except.ok.inj second)
      exact iff_of_true (congrArg Except.ok same) fun clash => by simpa using clash.of_leaf rfl
    | integer value' =>
      have second : (nearest value' == middle) = true := Except.ok.inj second
      constructor
      · intro same clash
        obtain ⟨_, _, _, ⟨⟩, ⟨⟩, ⟨⟩, differ⟩ := clash.of_leaf rfl
        exact differ (by simpa [Same, equal] using same)
      · intro apart
        by_contra differ
        exact apart (.rounded first second (by simpa [Same, equal] using differ))

theorem Same.trans_of_float {value : Float} (first : Same (.float value) between) (second : between.Same right) :
    Same (.float value) right := by
  cases between with
  | string | boolean | list | record => cases first
  | integer value' =>
    have first : (nearest value' == value) = true := Except.ok.inj first
    cases right with
    | string | boolean | list | record => cases second
    | integer last =>
      obtain rfl : value' = last := by simpa [Same, equal] using second
      exact congrArg Except.ok first
    | float last => exact congrArg Except.ok (float_beq_trans (float_beq_symm first) (Except.ok.inj second))
  | float middle =>
    have first : (value == middle) = true := Except.ok.inj first
    cases right with
    | string | boolean | list | record => cases second
    | integer last => exact congrArg Except.ok (float_beq_trans (Except.ok.inj second) (float_beq_symm first))
    | float last => exact congrArg Except.ok (float_beq_trans first (Except.ok.inj second))

theorem same_trans_iff (first : left.Same between) (second : between.Same right) :
    left.Same right ↔ ¬ Clash left between right := by
  induction left using outcomes_induction generalizing between right with
  | step left inner =>
    cases left with
    | integer value => exact same_trans_iff_of_integer first second
    | float value =>
      exact iff_of_true (first.trans_of_float second) fun clash => by simpa using clash.of_leaf rfl
    | string text =>
      cases between with
      | integer | float | boolean | list | record => cases first
      | string text' =>
        obtain rfl : text = text' := by simpa [Same, equal] using first
        exact iff_of_true second fun clash => by simpa using clash.of_leaf rfl
    | boolean value =>
      cases between with
      | integer | float | string | list | record => cases first
      | boolean value' =>
        obtain rfl : value = value' := by simpa [Same, equal] using first
        exact iff_of_true second fun clash => by simpa using clash.of_leaf rfl
    | list elements =>
      cases between with
      | integer | float | string | boolean | record => cases first
      | list =>
        cases right with
        | integer | float | string | boolean | record => cases second
        | list =>
          rw [same_list_iff, (same_list_iff.mp first).trans_iff inner (same_list_iff.mp second),
            clash_inside_iff (by simp)]
          simp only [not_exists, not_and]
    | record type fields =>
      cases between with
      | integer | float | string | boolean | list => cases first
      | record =>
        cases right with
        | integer | float | string | boolean | list => cases second
        | record =>
          obtain ⟨shape, first⟩ := same_record_iff.mp first
          obtain ⟨shape', second⟩ := same_record_iff.mp second
          rw [same_record_iff, and_iff_right ⟨shape.1.trans shape'.1, shape.2.trans shape'.2⟩,
            first.trans_iff inner second, clash_inside_iff (by simp)]
          simp only [not_exists, not_and]

-- A comparison of a tree with itself may meet a fault, but no difference.
theorem equal_self_ne {tree : Tree} (numbers : tree.WithoutNaN) : tree.equal tree ≠ .ok false := by
  induction tree using outcomes_induction with
  | step tree inner =>
    have elements : equalElements tree.outcomes tree.outcomes ≠ .ok false := by
      intro differ
      obtain ⟨place, first, second, isFirst, isSecond, differ⟩ := exists_of_equalElements_false differ
      cases isFirst.symm.trans isSecond
      have member := List.mem_of_getElem? isFirst
      exact inner first member (fun value inside => numbers value (inside.tail member)) differ
    cases tree with
    | integer | string | boolean => simp [equal]
    | float value => simp [equal, float_beq_self (numbers value .refl)]
    | list => simpa [equal, outcomes] using elements
    | record => simpa [equal, equalFields_eq, outcomes] using elements

theorem not_clash_of_narrow (narrow : left.Narrow) (narrow' : right.Narrow) : ¬ Clash left between right := by
  intro clash
  induction clash with
  | rounded first second differ =>
    have same := float_beq_trans first (float_beq_symm second)
    exact differ (nearest_injective (narrow _ .refl) (narrow' _ .refl) same)
  | inside place first _ third _ ih =>
    exact ih (fun value inside => narrow value (inside.tail (List.mem_of_getElem? first)))
      (fun value inside => narrow' value (inside.tail (List.mem_of_getElem? third)))

end Relation

end ByNeed.Tree
