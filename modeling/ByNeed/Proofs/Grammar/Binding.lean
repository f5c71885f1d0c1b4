import ByNeed.Grammar.Precedence
import ByNeed.Proofs.Grammar.Layers

set_option autoImplicit false

-- Operands that are read at a precedence are expressions of some layer, and a complete expression of a layer
-- can be followed only by tokens up to some strength.
namespace ByNeed

def Precedence.layer : Precedence → Layer
  | lowest => .disjunction
  | disjunction => .conjunction
  | conjunction | negation => .negation
  | comparisonChain => .comparison
  | comparison => .sum
  | sum => .product
  | product | unary | step | access => .signed

def Stops (precedence : Precedence) (rest : List Token) : Prop :=
  ∀ token ∈ rest.head?, Precedence.ofKind token.kind ≤ precedence

def Layer.limit : Layer → Precedence
  | disjunction => .disjunction
  | conjunction => .conjunction
  | negation => .negation
  | comparison => .comparisonChain
  | sum => .sum
  | product => .product
  | signed => .unary
  | suffixed | primary => .access

def Layer.reading : Layer → Precedence
  | disjunction => .lowest
  | conjunction => .disjunction
  | negation => .negation
  | comparison => .comparisonChain
  | sum => .comparison
  | product => .sum
  | signed | suffixed | primary => .unary

def Layer.Follows (layer : Layer) (kinds : List Token.Kind) (rest : List Token) : Prop :=
  Stops layer.limit rest ∧
    (IsBareCreate kinds → rest.head?.map Token.kind ≠ some (.symbol .openBracket))

def Precedence.before : Precedence → Layer
  | lowest | disjunction => .disjunction
  | conjunction => .conjunction
  | negation => .negation
  | comparisonChain => .comparison
  | comparison | sum => .sum
  | product => .product
  | unary => .signed
  | step | access => .suffixed

def Precedence.result : Precedence → Layer
  | comparison => .comparison
  | other => other.before

namespace Precedence

theorem before_rank_le {precedence : Precedence} {layer : Layer}
    (allowed : precedence ≤ layer.limit) : precedence.before.rank ≤ layer.rank := by
  revert allowed
  cases precedence <;> cases layer <;> decide

theorem layer_rank_le_result {precedence stronger : Precedence} (weaker : precedence < stronger) :
    precedence.layer.rank ≤ stronger.result.rank := by
  revert weaker
  cases stronger <;> cases precedence <;> decide

theorem layer_rank_le_signed (precedence : Precedence) :
    precedence.layer.rank ≤ Layer.signed.rank := by
  cases precedence <;> decide

theorem le_trans {first second third : Precedence} (less : first ≤ second)
    (less' : second ≤ third) : first ≤ third :=
  Nat.le_trans less less'

theorem lt_of_le_of_lt {first second third : Precedence} (less : first ≤ second)
    (less' : second < third) : first < third :=
  Nat.lt_of_le_of_lt less less'

theorem not_lt_of_le {first second : Precedence} (less : first ≤ second) : ¬ second < first :=
  Nat.not_lt_of_le less

theorem le_reading_layer {precedence : Precedence} (used : precedence ≤ .unary) :
    precedence ≤ precedence.layer.reading := by
  revert used
  cases precedence <;> decide

theorem le_access (precedence : Precedence) : precedence ≤ .access := by
  cases precedence <;> decide

end Precedence

theorem Stops.mono {weaker stronger : Precedence} {rest : List Token}
    (stops : Stops weaker rest) (less : weaker ≤ stronger) : Stops stronger rest :=
  fun token member => Precedence.le_trans (stops token member) less

theorem Layer.reading_mono {layer inner : Layer} (tighter : layer.rank ≤ inner.rank) :
    layer.reading ≤ inner.reading := by
  revert tighter
  cases layer <;> cases inner <;> decide

theorem Layer.limit_mono {layer inner : Layer} (tighter : layer.rank ≤ inner.rank) :
    layer.limit ≤ inner.limit := by
  revert tighter
  cases layer <;> cases inner <;> decide

theorem Layer.reading_le_limit (layer : Layer) : layer.reading ≤ layer.limit := by
  cases layer <;> decide

theorem Layer.reading_le_unary (layer : Layer) : layer.reading ≤ .unary := by
  cases layer <;> decide

def Continuation.kind : Continuation → Token.Kind
  | arithmetic op => op.kind
  | logical op => op.kind
  | comparison op => op.kind
  | step op => op.kind
  | index => .symbol .openBracket
  | member => .symbol .dot

theorem Continuation.kind_of_ofKind? {kind : Token.Kind} {continuation : Continuation}
    (found : ofKind? kind = some continuation) : continuation.kind = kind := by
  unfold ofKind? at found
  split at found <;> cases found <;> rfl

theorem Continuation.step_of_ofKind? {kind : Token.Kind} {op : UnaryOp}
    (found : ofKind? kind = some (.step op)) : op ∈ [.increment, .decrement] := by
  unfold ofKind? at found
  split at found <;> cases found <;> decide

theorem Continuation.kind_ne_name (continuation : Continuation) (id : String) :
    continuation.kind ≠ .name id := by
  rcases continuation with (_ | _ | _ | _ | _) | (_ | _) | (_ | _ | _ | _) | (_ | _ | _ | _ | _) | _ | _
    <;> nofun

theorem not_isBareCreate_append {kinds more : List Token.Kind} {kind : Token.Kind}
    (nonempty : kinds ≠ []) (other : ∀ id, kind ≠ .name id) :
    ¬ IsBareCreate (kinds ++ kind :: more) := by
  rintro ⟨type, same⟩
  match kinds with
  | [first] =>
    simp only [List.cons_append, List.nil_append, List.cons.injEq] at same
    exact other type same.2.1
  | first :: second :: rest => simp at same

end ByNeed
