import ByNeed.Value.Operator
import Mathlib

set_option autoImplicit false

-- A value without a heap. The elements of a list are the outcomes of its elements, all the way down, so a
-- tree says everything that forcing could ever find out about a value.
namespace ByNeed

inductive Tree where
  | integer (value : Int64)
  | float (value : Float)
  | string (text : String)
  | boolean (value : Bool)
  | list (elements : List (Except Fault Tree))
  | record (type : String) (fields : List (String × Tree))

abbrev Complete := Except Fault Tree

namespace Tree

def ofLiteral : Literal → Tree
  | .integer value => integer value
  | .float value => float value
  | .string text => string text
  | .boolean value => boolean value

/-- What an operator on single values can see. Only equality, indexing and member access look into
a list or a record. -/
def surface : Tree → Value
  | integer value => .integer value
  | float value => .float value
  | string text => .string text
  | boolean value => .boolean value
  | list _ => .list []
  | record type _ => .record type []

def ofSurface : Value → Tree
  | .integer value => integer value
  | .float value => float value
  | .string text => string text
  | .boolean value => boolean value
  | .list _ => list []
  | .record type _ => record type []

def truthy : Tree → Bool
  | list elements => !elements.isEmpty
  | other => other.surface.truthy

def unary (op : UnaryOp) (operand : Tree) : Complete :=
  (op.apply operand.surface).map ofSurface

def arithmetic (op : ArithmeticOp) (left right : Tree) : Complete :=
  (op.apply left.surface right.surface).map ofSurface

def logical (op : LogicalOp) (left : Tree) (right : Complete) : Complete :=
  match left with
  | boolean value =>
    if value = op.deciding then .ok (boolean value)
    else do (op.apply (.boolean value) (← right).surface).map ofSurface
  | other => .error (mismatch op.text "boolean" other.surface)

def index : Tree → Tree → Complete
  | list elements, integer position =>
    let found := if 1 ≤ position then elements[(position.toInt - 1).toNat]? else none
    found.getD (.error (.indexOutOfBounds position elements.length))
  | list _, position => .error (mismatch "index" "integer" position.surface)
  | collection, _ => .error (mismatch "index" "list" collection.surface)

def create (type : String) (fields : List String) (values : List Tree) : Complete :=
  if values.length = fields.length then .ok (record type (fields.zip values))
  else .error (.arityMismatch type fields.length values.length)

def member (name : String) : Tree → Complete
  | record type fields =>
    match fields.find? fun entry => entry.1 = name with
    | some entry => .ok entry.2
    | none => .error (.unknownMember type name)
  | other => .error (mismatch "attribute access" "record" other.surface)

mutual

def equal : Tree → Tree → Except Fault Bool
  | integer left, integer right => .ok (left = right)
  | float left, float right => .ok (left == right)
  | integer left, float right => .ok (nearest left == right)
  | float left, integer right => .ok (nearest right == left)
  | string left, string right => .ok (left = right)
  | boolean left, boolean right => .ok (left = right)
  | list left, list right =>
    if left.length = right.length then equalElements left right else .ok false
  | record type left, record type' right =>
    if type = type' ∧ left.map Prod.fst = right.map Prod.fst then equalFields left right
    else .ok false
  | _, _ => .ok false

def equalElements : List (Except Fault Tree) → List (Except Fault Tree) → Except Fault Bool
  | .error fault :: _, _ :: _ => .error fault
  | .ok _ :: _, .error fault :: _ => .error fault
  | .ok left :: lefts, .ok right :: rights => do
    if ← equal left right then equalElements lefts rights else .ok false
  | _, _ => .ok true

def equalFields : List (String × Tree) → List (String × Tree) → Except Fault Bool
  | (_, left) :: lefts, (_, right) :: rights => do
    if ← equal left right then equalFields lefts rights else .ok false
  | _, _ => .ok true

end

def compare (op : ComparisonOp) (left right : Tree) : Complete :=
  match op with
  | .less => (less left.surface right.surface).map ofSurface
  | .greater => (greater left.surface right.surface).map ofSurface
  | .equal => do return boolean (← left.equal right)
  | .notEqual => do return boolean !(← left.equal right)

def firstFault? : List Complete → Option Fault
  | [] => none
  | .error fault :: _ => some fault
  | .ok _ :: rest => firstFault? rest

mutual

/-- The fault that forcing a value through and through ends with. All elements of a list are forced
in order before any of them is looked into, and then the last one is looked into first. -/
def deepFault? : Tree → Option Fault
  | list elements => (firstFault? elements).or (deepFaultOfElements? elements)
  | record _ fields => deepFaultOfFields? fields
  | _ => none

def deepFaultOfElements? : List (Except Fault Tree) → Option Fault
  | [] => none
  | .ok element :: rest => (deepFaultOfElements? rest).or (deepFault? element)
  | .error _ :: rest => deepFaultOfElements? rest

def deepFaultOfFields? : List (String × Tree) → Option Fault
  | [] => none
  | (_, value) :: rest => (deepFaultOfFields? rest).or (deepFault? value)

end

mutual

def text (nested : Bool) : Tree → String
  | integer value => Decimal.integerText value
  | float value => Decimal.floatText value
  | string text => if nested then "\"" ++ text ++ "\"" else text
  | boolean value => booleanSpelling value
  | list elements => "[" ++ String.intercalate ", " (elementTexts elements) ++ "]"
  | record type [] => type ++ " \x7b\x7d"
  | record type (first :: rest) =>
    type ++ " \x7b " ++ String.intercalate ", " (fieldTexts (first :: rest)) ++ " \x7d"

def elementTexts : List (Except Fault Tree) → List String
  | [] => []
  | .ok element :: rest => text true element :: elementTexts rest
  | .error _ :: rest => "<unforced>" :: elementTexts rest

def fieldTexts : List (String × Tree) → List String
  | [] => []
  | (name, value) :: rest => (name ++ ": " ++ text true value) :: fieldTexts rest

end

def outcomes : Tree → List Complete
  | .list elements => elements
  | .record _ fields => fields.map fun field => .ok field.2
  | _ => []

def Inside : Tree → Tree → Prop :=
  Relation.ReflTransGen fun inner outer => Except.ok inner ∈ outer.outcomes

theorem sizeOf_of_mem_outcomes {inner outer : Tree} (member : Except.ok inner ∈ outer.outcomes) :
    sizeOf inner < sizeOf outer := by
  cases outer with
  | list elements =>
    have less := List.sizeOf_lt_of_mem member
    simp only [outcomes, Except.ok.sizeOf_spec, Tree.list.sizeOf_spec] at less ⊢
    omega
  | record type fields =>
    obtain ⟨⟨name, value⟩, among, same⟩ := List.mem_map.mp member
    cases same
    have less := List.sizeOf_lt_of_mem among
    simp only [Prod.mk.sizeOf_spec, Tree.record.sizeOf_spec] at less ⊢
    omega
  | integer | float | string | boolean => simp [outcomes] at member

theorem outcomes_induction {motive : Tree → Prop}
    (step : ∀ tree, (∀ inner, Except.ok inner ∈ tree.outcomes → motive inner) → motive tree) (tree : Tree) :
    motive tree := by
  induction size : sizeOf tree using Nat.strongRecOn generalizing tree with
  | ind total smaller =>
    subst size
    exact step tree fun inner member => smaller _ (sizeOf_of_mem_outcomes member) inner rfl

theorem inside_iff {inner outer : Tree} :
    Inside inner outer ↔ outer = inner ∨ ∃ part, Inside inner part ∧ Except.ok part ∈ outer.outcomes :=
  Relation.ReflTransGen.cases_tail_iff _ _ _

end Tree

def Pattern.fits? : Pattern → Tree → Option (List (String × Tree))
  | .wildcard, _ => some []
  | .binding id, value => some [(id, value)]
  | .literal constant, value => if value.surface.matchesLiteral constant then some [] else none

end ByNeed
