import ByNeed.Decimal.Reading
import ByNeed.Program.Basic
import ByNeed.Proofs.Grammar.Reading

set_option autoImplicit false

-- An expression of a layer is also one of every looser layer.
namespace ByNeed

def LogicalOp.kind : LogicalOp → Token.Kind
  | .conjunction => .keyword .conjunction
  | .disjunction => .keyword .disjunction

def ComparisonOp.kind : ComparisonOp → Token.Kind
  | .less => .symbol .less
  | .greater => .symbol .greater
  | .equal => .symbol .equal
  | .notEqual => .symbol .notEqual

def ArithmeticOp.kind : ArithmeticOp → Token.Kind
  | .add => .symbol .plus
  | .subtract => .symbol .minus
  | .multiply => .symbol .times
  | .divide => .symbol .divide
  | .modulo => .symbol .modulo

def UnaryOp.kind : UnaryOp → Token.Kind
  | .plus => .symbol .plus
  | .minus => .symbol .minus
  | .negation => .keyword .negation
  | .increment => .symbol .increment
  | .decrement => .symbol .decrement

inductive Layer where
  | disjunction
  | conjunction
  | negation
  | comparison
  | sum
  | product
  | signed
  | suffixed
  | primary
deriving Repr, DecidableEq

def Layer.rank : Layer → Nat
  | disjunction => 0
  | conjunction => 1
  | negation => 2
  | comparison => 3
  | sum => 4
  | product => 5
  | signed => 6
  | suffixed => 7
  | primary => 8

/-- One or more parts with commas between them. A line may break around each comma and after the
last part. -/
inductive Separated : List (List Token.Kind) → List Token.Kind → Prop
  | last {part : List Token.Kind} (after : Nat) : Separated [part] (part ++ Parser.breaks after)
  | more {part : List Token.Kind} {parts : List (List Token.Kind)} {kinds : List Token.Kind}
    (after before : Nat) (rest : Separated parts kinds) :
    Separated (part :: parts)
      (part ++ Parser.breaks after ++ .symbol .comma :: Parser.breaks before ++ kinds)

inductive Sequence : List (List Token.Kind) → List Token.Kind → Prop
  | none (count : Nat) : Sequence [] (Parser.breaks count)
  | some {parts : List (List Token.Kind)} {kinds : List Token.Kind} (before : Nat)
    (separated : Separated parts kinds) : Sequence parts (Parser.breaks before ++ kinds)

/-- The creation of a record without brackets. It takes a bracket that follows as its own. -/
def IsBareCreate (kinds : List Token.Kind) : Prop :=
  ∃ type, kinds = [.keyword .create, .name type]

inductive Layer.Derives : Layer → List Token.Kind → Expr → Prop
  | loosen {layer inner : Layer} {kinds : List Token.Kind} {expr : Expr}
    (tighter : layer.rank ≤ inner.rank) (derives : Derives inner kinds expr) :
    Derives layer kinds expr
  | disjunction {first second : List Token.Kind} {left right : Expr}
    (before : Derives .disjunction first left) (after : Derives .conjunction second right) :
    Derives .disjunction (first ++ LogicalOp.disjunction.kind :: second)
      (.logical .disjunction left right)
  | conjunction {first second : List Token.Kind} {left right : Expr}
    (before : Derives .conjunction first left) (after : Derives .negation second right) :
    Derives .conjunction (first ++ LogicalOp.conjunction.kind :: second)
      (.logical .conjunction left right)
  | negation {kinds : List Token.Kind} {operand : Expr} (derives : Derives .negation kinds operand) :
    Derives .negation (UnaryOp.negation.kind :: kinds) (.unary .negation operand)
  | comparison {first second : List Token.Kind} {left right : Expr} (op : ComparisonOp)
    (before : Derives .sum first left) (after : Derives .comparison second right) :
    Derives .comparison (first ++ op.kind :: second) (.comparison op left right)
  | sum {first second : List Token.Kind} {left right : Expr} (op : ArithmeticOp)
    (additive : op ∈ [.add, .subtract])
    (before : Derives .sum first left) (after : Derives .product second right) :
    Derives .sum (first ++ op.kind :: second) (.arithmetic op left right)
  | product {first second : List Token.Kind} {left right : Expr} (op : ArithmeticOp)
    (multiplicative : op ∈ [.multiply, .divide, .modulo])
    (before : Derives .product first left) (after : Derives .signed second right) :
    Derives .product (first ++ op.kind :: second) (.arithmetic op left right)
  | signed {kinds : List Token.Kind} {operand : Expr} (op : UnaryOp)
    (sign : op ∈ [.plus, .minus, .increment, .decrement]) (derives : Derives .signed kinds operand) :
    Derives .signed (op.kind :: kinds) (.unary op operand)
  | step {kinds : List Token.Kind} {operand : Expr} (op : UnaryOp)
    (step : op ∈ [.increment, .decrement]) (derives : Derives .suffixed kinds operand) :
    Derives .suffixed (kinds ++ [op.kind]) (.unary op operand)
  | index {first second : List Token.Kind} {collection position : Expr}
    (before : Derives .suffixed first collection) (complete : ¬ IsBareCreate first)
    (inside : Derives .disjunction second position) :
    Derives .suffixed (first ++ .symbol .openBracket :: (second ++ [.symbol .closeBracket]))
      (.index collection position)
  | member {kinds : List Token.Kind} {object : Expr} (field : String)
    (derives : Derives .suffixed kinds object) :
    Derives .suffixed (kinds ++ [.symbol .dot, .name field]) (.member object field)
  | name (id : String) : Derives .primary [.name id] (.name id)
  | integer {digits : String} {value : Int64} (read : Decimal.integer? digits = some value) :
    Derives .primary [.integer digits] (.literal (.integer value))
  | decimal {text : String} {value : Float} (read : Decimal.float? text = some value) :
    Derives .primary [.decimal text] (.literal (.float value))
  | string (text : String) : Derives .primary [.string text] (.literal (.string text))
  | boolean (value : Bool) : Derives .primary [.boolean value] (.literal (.boolean value))
  | group {kinds : List Token.Kind} {expr : Expr} (derives : Derives .disjunction kinds expr) :
    Derives .primary (.symbol .openParen :: kinds ++ [.symbol .closeParen]) expr
  | list {elements : List (List Token.Kind × Expr)} {kinds : List Token.Kind}
    (sequence : Sequence (elements.map Prod.fst) kinds)
    (derives : ∀ element ∈ elements, Derives .disjunction element.1 element.2) :
    Derives .primary (.symbol .openBracket :: kinds ++ [.symbol .closeBracket])
      (.list (elements.map Prod.snd))
  | bareCreate (type : String) :
    Derives .primary [.keyword .create, .name type] (.create type [])
  | create {type : String} {arguments : List (List Token.Kind × Expr)} {kinds : List Token.Kind}
    (sequence : Sequence (arguments.map Prod.fst) kinds)
    (derives : ∀ argument ∈ arguments, Derives .disjunction argument.1 argument.2) :
    Derives .primary
      (.keyword .create :: .name type :: .symbol .openBracket :: kinds ++ [.symbol .closeBracket])
      (.create type (arguments.map Prod.snd))

def startsExpr : Token.Kind → Bool
  | .name _ | .integer _ | .decimal _ | .string _ | .boolean _ => true
  | .symbol .plus | .symbol .minus | .symbol .increment | .symbol .decrement => true
  | .symbol .openParen | .symbol .openBracket => true
  | .keyword .negation | .keyword .create => true
  | _ => false

theorem Layer.Derives.starts {layer : Layer} {kinds : List Token.Kind} {expr : Expr}
    (derives : layer.Derives kinds expr) :
    ∃ first rest, kinds = first :: rest ∧ startsExpr first = true := by
  induction derives with
  | loosen _ _ ih => exact ih
  | disjunction _ _ ih _ | conjunction _ _ ih _ | comparison _ _ _ ih _ | sum _ _ _ _ ih _
    | product _ _ _ _ ih _ | step _ _ _ ih | index _ _ _ ih _ | member _ _ ih =>
    obtain ⟨first, rest, rfl, starts⟩ := ih
    exact ⟨first, _, rfl, starts⟩
  | signed op _ _ _ =>
    refine ⟨_, _, rfl, ?_⟩
    cases op <;> rfl
  | _ => exact ⟨_, _, rfl, rfl⟩

theorem Separated.starts {parts : List (List Token.Kind)} {kinds : List Token.Kind}
    (separated : Separated parts kinds)
    (each : ∀ part ∈ parts, ∃ first others, part = first :: others ∧ startsExpr first = true) :
    ∃ first others, kinds = first :: others ∧ startsExpr first = true := by
  cases separated with
  | last after | more after before rest =>
    obtain ⟨first, others, rfl, starts⟩ := each _ List.mem_cons_self
    exact ⟨first, _, rfl, starts⟩

theorem Separated.mem {parts : List (List Token.Kind)} {kinds : List Token.Kind} {kind : Token.Kind}
    (separated : Separated parts kinds) (member : kind ∈ kinds) :
    kind = .lineBreak ∨ kind = .symbol .comma ∨ ∃ part ∈ parts, kind ∈ part := by
  induction separated with
  | last after =>
    rcases List.mem_append.mp member with inside | blank
    · exact .inr (.inr ⟨_, List.mem_cons_self, inside⟩)
    · exact .inl (List.eq_of_mem_replicate blank)
  | more after before rest ih =>
    simp only [List.mem_append, List.mem_cons] at member
    rcases member with ((inside | blank) | comma | blank) | later
    · exact .inr (.inr ⟨_, List.mem_cons_self, inside⟩)
    · exact .inl (List.eq_of_mem_replicate blank)
    · exact .inr (.inl comma)
    · exact .inl (List.eq_of_mem_replicate blank)
    · rcases ih later with blank | comma | ⟨part, inside, member⟩
      · exact .inl blank
      · exact .inr (.inl comma)
      · exact .inr (.inr ⟨part, List.mem_cons_of_mem _ inside, member⟩)

theorem Sequence.mem {parts : List (List Token.Kind)} {kinds : List Token.Kind} {kind : Token.Kind}
    (sequence : Sequence parts kinds) (member : kind ∈ kinds) :
    kind = .lineBreak ∨ kind = .symbol .comma ∨ ∃ part ∈ parts, kind ∈ part := by
  cases sequence with
  | none count => exact .inl (List.eq_of_mem_replicate member)
  | some before separated =>
    rcases List.mem_append.mp member with blank | inside
    · exact .inl (List.eq_of_mem_replicate blank)
    · exact separated.mem inside

theorem Separated.subset {parts : List (List Token.Kind)} {kinds part : List Token.Kind}
    (separated : Separated parts kinds) (member : part ∈ parts) : part ⊆ kinds := by
  induction separated with
  | last after =>
    rw [List.mem_singleton.mp member]
    exact List.subset_append_left _ _
  | more after before rest ih =>
    intro kind inside
    simp only [List.mem_append, List.mem_cons]
    rcases List.mem_cons.mp member with rfl | later
    · exact .inl (.inl (.inl inside))
    · exact .inr (ih later inside)

theorem Sequence.subset {parts : List (List Token.Kind)} {kinds part : List Token.Kind}
    (sequence : Sequence parts kinds) (member : part ∈ parts) : part ⊆ kinds := by
  cases sequence with
  | none count => cases member
  | some before separated =>
    exact List.Subset.trans (separated.subset member) (List.subset_append_right _ _)

-- There is no sign of an assignment in an expression.
theorem Layer.Derives.assign_not_mem {layer : Layer} {kinds : List Token.Kind} {expr : Expr}
    (derives : layer.Derives kinds expr) : Token.Kind.symbol .assign ∉ kinds := by
  have bracketed {parts : List (List Token.Kind × Expr)} {kinds : List Token.Kind}
      (sequence : Sequence (parts.map Prod.fst) kinds)
      (each : ∀ part ∈ parts, Token.Kind.symbol .assign ∉ part.1) :
      Token.Kind.symbol .assign ∉ kinds := by
    intro member
    rcases sequence.mem member with blank | comma | ⟨part, inside, member⟩
    · cases blank
    · cases comma
    · obtain ⟨part, found, rfl⟩ := List.mem_map.mp inside
      exact each part found member
  induction derives with
  | loosen _ _ ih => exact ih
  | list sequence _ ih => simpa using bracketed sequence ih
  | create sequence _ ih => simpa using bracketed sequence ih
  | comparison op _ _ ih ih' | sum op _ _ _ ih ih' | product op _ _ _ ih ih' =>
    cases op <;> simpa [ComparisonOp.kind, ArithmeticOp.kind] using ⟨ih, ih'⟩
  | signed op _ _ ih | step op _ _ ih => cases op <;> simpa [UnaryOp.kind] using ih
  | disjunction _ _ ih ih' | conjunction _ _ ih ih' => simpa [LogicalOp.kind] using ⟨ih, ih'⟩
  | index _ _ _ ih ih' => simpa using ⟨ih, ih'⟩
  | negation _ ih | member _ _ ih | group _ ih => simpa [UnaryOp.kind] using ih
  | _ => simp

end ByNeed
