import ByNeed.Program.Basic

set_option autoImplicit false

namespace ByNeed

mutual

def Expr.same : Expr → Expr → Bool
  | .name id, .name id' => id == id'
  | .literal value, .literal value' => value == value'
  | .list elements, .list elements' => Expr.sameLists elements elements'
  | .index collection position, .index collection' position' =>
    collection.same collection' && position.same position'
  | .create type arguments, .create type' arguments' =>
    type == type' && Expr.sameLists arguments arguments'
  | .member object field, .member object' field' => object.same object' && field == field'
  | .unary op operand, .unary op' operand' => op == op' && operand.same operand'
  | .arithmetic op left right, .arithmetic op' left' right' =>
    op == op' && left.same left' && right.same right'
  | .logical op left right, .logical op' left' right' =>
    op == op' && left.same left' && right.same right'
  | .comparison op left right, .comparison op' left' right' =>
    op == op' && left.same left' && right.same right'
  | _, _ => false

def Expr.sameLists : List Expr → List Expr → Bool
  | [], [] => true
  | first :: rest, first' :: rest' => first.same first' && Expr.sameLists rest rest'
  | _, _ => false

end

mutual

def Statement.same : Statement → Statement → Bool
  | .assign id value, .assign id' value' => id == id' && value.same value'
  | .print value, .print value' => value.same value'
  | .branch condition body none, .branch condition' body' none =>
    condition.same condition' && Statement.sameBlocks body body'
  | .branch condition body (some alternative), .branch condition' body' (some alternative') =>
    condition.same condition' && Statement.sameBlocks body body' &&
      Statement.sameBlocks alternative alternative'
  | .iterate id items body, .iterate id' items' body' =>
    id == id' && items.same items' && Statement.sameBlocks body body'
  | .select scrutinee cases none, .select scrutinee' cases' none =>
    scrutinee.same scrutinee' && Statement.sameCases cases cases'
  | .select scrutinee cases (some alternative), .select scrutinee' cases' (some alternative') =>
    scrutinee.same scrutinee' && Statement.sameCases cases cases' &&
      Statement.sameBlocks alternative alternative'
  | .define type fields, .define type' fields' => type == type' && fields == fields'
  | .evaluate value, .evaluate value' => value.same value'
  | _, _ => false

def Statement.sameBlocks : List Statement → List Statement → Bool
  | [], [] => true
  | first :: rest, first' :: rest' => first.same first' && Statement.sameBlocks rest rest'
  | _, _ => false

def Statement.sameCases :
    List (Pattern × List Statement) → List (Pattern × List Statement) → Bool
  | [], [] => true
  | (pattern, body) :: rest, (pattern', body') :: rest' =>
    pattern == pattern' && Statement.sameBlocks body body' && Statement.sameCases rest rest'
  | _, _ => false

end

def Program.same (program program' : Program) : Bool :=
  Statement.sameBlocks program.statements program'.statements

end ByNeed
