set_option autoImplicit false

namespace ByNeed

/-- A constant of the source text. Floats are compared as numbers, so a NaN differs from itself. -/
inductive Literal where
  | integer (value : Int64)
  | float (value : Float)
  | string (text : String)
  | boolean (value : Bool)
deriving Repr, BEq

inductive UnaryOp where
  | plus
  | minus
  | negation
  | increment
  | decrement
deriving Repr, DecidableEq

inductive ArithmeticOp where
  | add
  | subtract
  | multiply
  | divide
  | modulo
deriving Repr, DecidableEq

inductive LogicalOp where
  | conjunction
  | disjunction
deriving Repr, DecidableEq

inductive ComparisonOp where
  | less
  | greater
  | equal
  | notEqual
deriving Repr, DecidableEq

inductive Expr where
  | name (id : String)
  | literal (value : Literal)
  | list (elements : List Expr)
  | index (collection position : Expr)
  | create (type : String) (arguments : List Expr)
  | member (object : Expr) (field : String)
  | unary (op : UnaryOp) (operand : Expr)
  | arithmetic (op : ArithmeticOp) (left right : Expr)
  | logical (op : LogicalOp) (left right : Expr)
  | comparison (op : ComparisonOp) (left right : Expr)
deriving Repr

inductive Pattern where
  | literal (value : Literal)
  | binding (id : String)
  | wildcard
deriving Repr, BEq

inductive Statement where
  | assign (id : String) (value : Expr)
  | print (value : Expr)
  | branch (condition : Expr) (consequence : List Statement) (alternative : Option (List Statement))
  | iterate (id : String) (items : Expr) (body : List Statement)
  | select (scrutinee : Expr) (cases : List (Pattern × List Statement))
      (alternative : Option (List Statement))
  | define (type : String) (fields : List String)
  | evaluate (value : Expr)
deriving Repr

abbrev Block := List Statement

structure Program where
  statements : Block
deriving Repr

end ByNeed
