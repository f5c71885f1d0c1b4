import ByNeed.Program.Basic
import ByNeed.Token.Basic

set_option autoImplicit false

namespace ByNeed

/-- The binding strengths, weakest first. The right operand of a comparison is read at
`comparisonChain`, so that comparisons nest to the right. -/
inductive Precedence where
  | lowest
  | disjunction
  | conjunction
  | negation
  | comparisonChain
  | comparison
  | sum
  | product
  | unary
  | step
  | access
deriving Repr, DecidableEq

namespace Precedence

def rank : Precedence → Nat
  | lowest => 0
  | disjunction => 1
  | conjunction => 2
  | negation => 3
  | comparisonChain => 4
  | comparison => 5
  | sum => 6
  | product => 7
  | unary => 8
  | step => 9
  | access => 10

instance : LE Precedence := ⟨fun p q => p.rank ≤ q.rank⟩

instance : LT Precedence := ⟨fun p q => p.rank < q.rank⟩

instance (p q : Precedence) : Decidable (p ≤ q) := inferInstanceAs (Decidable (p.rank ≤ q.rank))

instance (p q : Precedence) : Decidable (p < q) := inferInstanceAs (Decidable (p.rank < q.rank))

end Precedence

inductive Continuation where
  | arithmetic (op : ArithmeticOp)
  | logical (op : LogicalOp)
  | comparison (op : ComparisonOp)
  | step (op : UnaryOp)
  | index
  | member
deriving Repr, DecidableEq

def Continuation.precedence : Continuation → Precedence
  | arithmetic .add | arithmetic .subtract => .sum
  | arithmetic .multiply | arithmetic .divide | arithmetic .modulo => .product
  | logical .conjunction => .conjunction
  | logical .disjunction => .disjunction
  | comparison _ => .comparison
  | step _ => .step
  | index | member => .access

def Continuation.ofKind? : Token.Kind → Option Continuation
  | .keyword .disjunction => some (.logical .disjunction)
  | .keyword .conjunction => some (.logical .conjunction)
  | .symbol .equal => some (.comparison .equal)
  | .symbol .notEqual => some (.comparison .notEqual)
  | .symbol .less => some (.comparison .less)
  | .symbol .greater => some (.comparison .greater)
  | .symbol .plus => some (.arithmetic .add)
  | .symbol .minus => some (.arithmetic .subtract)
  | .symbol .times => some (.arithmetic .multiply)
  | .symbol .divide => some (.arithmetic .divide)
  | .symbol .modulo => some (.arithmetic .modulo)
  | .symbol .increment => some (.step .increment)
  | .symbol .decrement => some (.step .decrement)
  | .symbol .openBracket => some .index
  | .symbol .dot => some .member
  | _ => none

def Precedence.ofKind (kind : Token.Kind) : Precedence :=
  match Continuation.ofKind? kind with
  | some continuation => continuation.precedence
  | none => .lowest

end ByNeed
