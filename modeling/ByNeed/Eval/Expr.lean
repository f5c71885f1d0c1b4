import ByNeed.Eval.Context

set_option autoImplicit false

-- Names are looked up at once, so that a cell keeps the bindings of this moment. Nothing is forced, except by
-- the steps `++` and `--`, which rebind their variable at once wherever they stand.
namespace ByNeed

def Eval.step (fuel : Nat) (op : UnaryOp) : Expr → Eval Ref
  | .name id => do
    let some current ← lookup? id | raise (.undefinedVariable id)
    match op.apply (← force fuel current) with
    | .ok updated => do
      reassign id updated
      alloc (.forced updated)
    | .error fault => raise fault
  | operand => raise (.notAVariable operand.text)

mutual

def Expr.delay (fuel : Nat) : Expr → Eval Ref
  | .literal value => Eval.alloc (.forced (.ofLiteral value))
  | .name id => do
    match ← Eval.lookup? id with
    | some ref => return ref
    | none => Eval.alloc (.pending [] (.fail (.undefinedVariable id)))
  | .list elements => do
    let refs ← Expr.delayAll fuel elements
    Eval.alloc (.forced (.list refs))
  | .index collection position => do
    let collection ← collection.delay fuel
    let position ← position.delay fuel
    Eval.alloc (.pending [collection, position] .index)
  | .create type arguments => do
    let refs ← Expr.delayAll fuel arguments
    match (← get).registry.fields? type with
    | some fields => Eval.alloc (.pending refs (.create type fields))
    | none => Eval.alloc (.pending [] (.fail (.unknownRecordType type)))
  | .member object field => do
    let object ← object.delay fuel
    Eval.alloc (.pending [object] (.member field))
  | .unary .increment operand => Eval.step fuel .increment operand
  | .unary .decrement operand => Eval.step fuel .decrement operand
  | .unary op operand => do
    let operand ← operand.delay fuel
    Eval.alloc (.pending [operand] (.unary op))
  | .arithmetic op left right => do
    let left ← left.delay fuel
    let right ← right.delay fuel
    Eval.alloc (.pending [left, right] (.arithmetic op))
  | .logical op left right => do
    let left ← left.delay fuel
    let right ← right.delay fuel
    Eval.alloc (.pending [left] (.shortCircuit op right))
  | .comparison op left right => do
    let left ← left.delay fuel
    let right ← right.delay fuel
    Eval.alloc (.pending [left, right] (.comparison op))

def Expr.delayAll (fuel : Nat) : List Expr → Eval (List Ref)
  | [] => return []
  | first :: rest => do
    let ref ← first.delay fuel
    let refs ← Expr.delayAll fuel rest
    return ref :: refs

end

end ByNeed
