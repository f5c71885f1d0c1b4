import ByNeed.Heap.Force
import ByNeed.Value.Operator

set_option autoImplicit false

namespace ByNeed

inductive Task where
  | fail (fault : Fault)
  | index
  | create (type : String) (fields : List String)
  | member (field : String)
  | unary (op : UnaryOp)
  | arithmetic (op : ArithmeticOp)
  | shortCircuit (op : LogicalOp) (right : Ref)
  | logical (op : LogicalOp) (left : Value)
  | comparison (op : ComparisonOp)
  | equality (negated : Bool) (pairs : List Pair)
deriving Repr

namespace Task

def element (elements : List Ref) (position : Int64) : Step Task :=
  let found := if 1 ≤ position then elements[(position.toInt - 1).toNat]? else none
  match found with
  | some ref => .defer ref
  | none => .fail (.indexOutOfBounds position elements.length)

def select : Value → Value → Step Task
  | .list elements, .integer position => element elements position
  | .list _, position => .fail (mismatch "index" "integer" position)
  | collection, _ => .fail (mismatch "index" "list" collection)

def build (type : String) (fields : List String) (values : List Value) : Step Task :=
  if values.length = fields.length then .done (.record type (fields.zip values))
  else .fail (.arityMismatch type fields.length values.length)

def field (name : String) : Value → Step Task
  | .record type fields =>
    match fields.find? fun entry => entry.1 = name with
    | some entry => .done entry.2
    | none => .fail (.unknownMember type name)
  | other => .fail (mismatch "attribute access" "record" other)

/-- The result if the left operand decides it, else that of a new cell which waits for the right one. -/
def shortCut (op : LogicalOp) (right : Ref) : Value → Step Task
  | .boolean left =>
    if left = op.deciding then .done (.boolean left)
    else .alloc (.pending [right] (.logical op (.boolean left))) .defer
  | other => .fail (mismatch op.text "boolean" other)

/-- Compares one pair after another, the left cell of a pair forced before the right one. A difference
or a fault ends it there. -/
def comparePairs (negated : Bool) : List Pair → Step Task
  | [] => .done (.boolean (!negated))
  | .cells left right :: rest =>
    .need left fun value => .need right fun value' =>
      .become (.equality negated (.values value value' :: rest))
  | .values left right :: rest =>
    match left.parts? right with
    | some parts => .become (.equality negated (parts ++ rest))
    | none => .done (.boolean negated)

def compare (op : ComparisonOp) (left right : Value) : Step Task :=
  match op with
  | .less => .ofOutcome (less left right)
  | .greater => .ofOutcome (greater left right)
  | .equal => comparePairs false [.values left right]
  | .notEqual => comparePairs true [.values left right]

-- Performs a task. It fails if the number of values is not the one it waited for.
def run : Behaviour Task
  | .fail fault, [] => .fail fault
  | .index, [collection, position] => select collection position
  | .create type fields, values => build type fields values
  | .member name, [object] => field name object
  | .unary op, [operand] => .ofOutcome (op.apply operand)
  | .arithmetic op, [left, right] => .ofOutcome (op.apply left right)
  | .shortCircuit op right, [left] => shortCut op right left
  | .logical op left, [right] => .ofOutcome (op.apply left right)
  | .comparison op, [left, right] => compare op left right
  | .equality negated pairs, [] => comparePairs negated pairs
  | _, _ => .fail .dependsOnItself

end Task

namespace HeapM

def equality (fuel : Nat) (negated : Bool) (left right : Value) : HeapM Task Value := do
  let step := Task.comparePairs negated [.values left right]
  let result ← Heap.perform Task.run (Heap.force Task.run fuel) fuel step
  ofOutcome (result.settled?.getD (.error .dependsOnItself))

def compare (fuel : Nat) (op : ComparisonOp) (left right : Value) : HeapM Task Value :=
  match op with
  | .less => ofOutcome (less left right)
  | .greater => ofOutcome (greater left right)
  | .equal => equality fuel false left right
  | .notEqual => equality fuel true left right

end HeapM

end ByNeed
