import ByNeed.Proofs.Heap.Complete

set_option autoImplicit false

-- An operator sees no more of a value than the surface of its tree, and what it gives back has no cells
-- in it.
namespace ByNeed

def Value.isSingle : Value → Bool
  | .list _ | .record _ _ => false
  | _ => true

def SingleOutcome (outcome : Outcome) : Prop :=
  ∀ value, outcome = .ok value → value.isSingle = true

theorem Value.fields_induction {motive : Value → Prop}
    (step : ∀ value, (∀ type fields, value = .record type fields → ∀ field ∈ fields, motive field.2) →
      motive value) (value : Value) : motive value := by
  induction size : sizeOf value using Nat.strongRecOn generalizing value with
  | ind total smaller =>
    subst size
    refine step value ?_
    rintro type fields rfl ⟨name, field⟩ member
    refine smaller _ ?_ field rfl
    have less := List.sizeOf_lt_of_mem member
    simp only [Prod.mk.sizeOf_spec, Value.record.sizeOf_spec] at less ⊢
    omega

namespace Value

variable (meaning : Ref → Complete)

theorem treesOfFields_eq_map (fields : List (String × Value)) :
    treesOfFields meaning fields = fields.map fun field => (field.1, field.2.tree meaning) := by
  induction fields with
  | nil => rfl
  | cons field rest ih => simp [treesOfFields, ih]

theorem mem_refsOfFields {fields : List (String × Value)} {ref : Ref} :
    ref ∈ refsOfFields fields ↔ ∃ field ∈ fields, ref ∈ field.2.refs := by
  induction fields with
  | nil => simp [refsOfFields]
  | cons field rest ih => simp [refsOfFields, ih]

theorem tree_of_isSingle {value : Value} (single : value.isSingle = true) :
    value.tree meaning = .ofSurface value := by
  cases value <;> first | rfl | cases single

theorem refs_of_isSingle {value : Value} (single : value.isSingle = true) : value.refs = [] := by
  cases value <;> first | rfl | cases single

@[simp] theorem truthy_tree (value : Value) : (value.tree meaning).truthy = value.truthy := by
  cases value <;> simp [tree, Tree.truthy, Tree.surface, truthy]

@[simp] theorem matchesLiteral_surface_tree (value : Value) (constant : Literal) :
    (value.tree meaning).surface.matchesLiteral constant = value.matchesLiteral constant := by
  cases value <;> rfl

@[simp] theorem tree_ofLiteral (constant : Literal) :
    (ofLiteral constant).tree meaning = .ofLiteral constant := by
  cases constant <;> rfl

end Value

theorem singleOutcome_checked (n : Int) : SingleOutcome (checked n) := by
  intro value computed
  unfold checked at computed
  split at computed <;> cases computed
  rfl

namespace UnaryOp

theorem apply_surface (meaning : Ref → Complete) (op : UnaryOp) (value : Value) :
    op.apply (value.tree meaning).surface = op.apply value := by
  cases op <;> cases value <;> rfl

theorem step_single (op : UnaryOp) (delta : Int) (value : Value) : SingleOutcome (op.step delta value) := by
  cases value with
  | integer n => exact singleOutcome_checked _
  | _ => intro result computed; cases computed <;> rfl

theorem apply_single (op : UnaryOp) (value : Value) : SingleOutcome (op.apply value) := by
  cases op with
  | increment => exact step_single .increment 1 value
  | decrement => exact step_single .decrement (-1) value
  | minus =>
    cases value with
    | integer n => exact singleOutcome_checked _
    | _ => intro result computed; cases computed <;> rfl
  | _ => cases value <;> (intro result computed; cases computed <;> rfl)

end UnaryOp

namespace ArithmeticOp

theorem apply_surface_left (meaning : Ref → Complete) (op : ArithmeticOp) (left right : Value) :
    op.apply (left.tree meaning).surface right = op.apply left right := by
  cases op <;> cases left <;> cases right <;> rfl

theorem apply_surface_right (meaning : Ref → Complete) (op : ArithmeticOp) (left right : Value) :
    op.apply left (right.tree meaning).surface = op.apply left right := by
  cases op <;> cases left <;> cases right <;> rfl

theorem apply_surface (meaning : Ref → Complete) (op : ArithmeticOp) (left right : Value) :
    op.apply (left.tree meaning).surface (right.tree meaning).surface = op.apply left right := by
  rw [apply_surface_left, apply_surface_right]

theorem mixed_single (op : ArithmeticOp) (exact : Int → Int → Int)
    (rounded : Float → Float → Float) (left right : Value) :
    SingleOutcome (op.mixed exact rounded left right) := by
  intro value computed
  unfold mixed at computed
  split at computed
  · exact singleOutcome_checked _ value computed
  · cases first : asFloat op.text left <;> cases second : asFloat op.text right <;>
      simp only [first, second, bind, Except.bind, pure, Except.pure, reduceCtorEq,
        Except.ok.injEq] at computed
    rw [← computed]
    rfl

theorem apply_single (op : ArithmeticOp) (left right : Value) :
    SingleOutcome (op.apply left right) := by
  cases op with
  | divide =>
    intro value computed
    simp only [apply, quotient] at computed
    cases first : asFloat divide.text left <;> cases second : asFloat divide.text right <;>
      simp only [first, second, bind, Except.bind, pure, Except.pure, throw, throwThe,
        MonadExceptOf.throw, reduceCtorEq] at computed
    split at computed <;> cases computed
    rfl
  | modulo =>
    intro value computed
    simp only [apply, remainder] at computed
    repeat' split at computed
    all_goals cases computed
    rfl
  | _ => exact mixed_single _ _ _ left right

end ArithmeticOp

theorem SingleOutcome.map_tree (meaning : Ref → Complete) {outcome : Outcome}
    (single : SingleOutcome outcome) :
    outcome.map (Value.tree meaning) = outcome.map Tree.ofSurface := by
  cases outcome with
  | error fault => rfl
  | ok value => simp only [Except.map, Value.tree_of_isSingle meaning (single value rfl)]

theorem SingleOutcome.eq_of_map_tree {meaning : Ref → Complete} {outcome outcome' : Outcome}
    (single : SingleOutcome outcome') (same : outcome.map (Value.tree meaning) = outcome'.map Tree.ofSurface) :
    outcome = outcome' := by
  cases outcome' with
  | error fault =>
    cases outcome <;> cases same
    rfl
  | ok value =>
    have isSingle := single value rfl
    cases outcome with
    | error => cases same
    | ok value' =>
      have tree : value'.tree meaning = .ofSurface value := Except.ok.inj same
      cases value <;> cases isSingle <;> cases value' <;> cases tree <;> rfl

theorem Reading.realizes_single {τ : Type} {reading : Reading τ} {behaviour : Behaviour τ}
    {plan : Plan Promise} {own : Promise} {outcome : Outcome} (single : SingleOutcome outcome)
    (same : outcome.map Tree.ofSurface = own.complete) :
    reading.terms.Realizes behaviour own plan (.ofOutcome outcome) := by
  rw [← single.map_tree plan.meaning] at same
  cases outcome with
  | error fault => exact realizes_fail same
  | ok value => exact realizes_done (by simp [Value.refs_of_isSingle (single value rfl)]) same

namespace LogicalOp

theorem apply_surface (meaning : Ref → Complete) (op : LogicalOp) (left right : Value) :
    op.apply left (right.tree meaning).surface = op.apply left right := by
  cases left <;> cases right <;> rfl

theorem apply_single (op : LogicalOp) (left right : Value) : SingleOutcome (op.apply left right) := by
  intro value computed
  unfold apply at computed
  split at computed <;> cases computed
  rfl

end LogicalOp

theorem ordered_surface (meaning : Ref → Complete) (operation : String)
    (onIntegers : Int64 → Int64 → Bool) (onFloats : Float → Float → Bool) (left right : Value) :
    ordered operation onIntegers onFloats (left.tree meaning).surface (right.tree meaning).surface =
      ordered operation onIntegers onFloats left right := by
  cases left <;> cases right <;> rfl

theorem ordered_single (operation : String) (onIntegers : Int64 → Int64 → Bool)
    (onFloats : Float → Float → Bool) (left right : Value) :
    SingleOutcome (ordered operation onIntegers onFloats left right) := by
  intro value computed
  unfold ordered at computed
  repeat' split at computed
  all_goals cases computed
  all_goals rfl

end ByNeed
