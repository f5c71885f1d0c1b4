import ByNeed.Proofs.Grammar.Layers

set_option autoImplicit false

-- A block goes up to the keyword that ends it, and that keyword may stand on the line of the last statement.
namespace ByNeed

open ByNeed.Parser (breaks)

inductive Pattern.Derives : List Token.Kind → Pattern → Prop
  | wildcard : Derives [.name "_"] .wildcard
  | binding {id : String} (named : id ≠ "_") : Derives [.name id] (.binding id)
  | integer {digits : String} {value : Int64} (read : Decimal.integer? digits = some value) :
    Derives [.integer digits] (.literal (.integer value))
  | decimal {text : String} {value : Float} (read : Decimal.float? text = some value) :
    Derives [.decimal text] (.literal (.float value))
  | string (text : String) : Derives [.string text] (.literal (.string text))
  | boolean (value : Bool) : Derives [.boolean value] (.literal (.boolean value))
  | negativeInteger {digits : String} {value : Int64}
    (read : Decimal.negativeInteger? digits = some value) :
    Derives [.symbol .minus, .integer digits] (.literal (.integer value))
  | negativeDecimal {text : String} {value : Float} (read : Decimal.float? text = some value) :
    Derives [.symbol .minus, .decimal text] (.literal (.float (-value)))

/-- Parts with at least one line break between any two of them, and any number of line breaks before
the first and after the last. -/
inductive Lines : List (List Token.Kind) → List Token.Kind → Prop
  | none (count : Nat) : Lines [] (breaks count)
  | cons {part : List Token.Kind} {parts : List (List Token.Kind)} {kinds : List Token.Kind}
    (before : Nat) (rest : Lines parts kinds)
    (apart : parts ≠ [] → kinds.head? = some .lineBreak) :
    Lines (part :: parts) (breaks before ++ part ++ kinds)

inductive Body : List (List Token.Kind) → List Token.Kind → Prop
  | lines {parts : List (List Token.Kind)} {kinds : List Token.Kind} (lines : Lines parts kinds) :
    Body parts (.lineBreak :: kinds)
  | single (part : List Token.Kind) (after : Nat) : Body [part] (part ++ breaks after)

inductive Cases : List (Pattern × List (List Token.Kind)) → List Token.Kind → Prop
  | none : Cases [] []
  | cons {shape body kinds : List Token.Kind} {pattern : Pattern} {parts : List (List Token.Kind)}
    {rest : List (Pattern × List (List Token.Kind))}
    (header : pattern.Derives shape) (inside : Body parts body) (others : Cases rest kinds) :
    Cases ((pattern, parts) :: rest)
      (.keyword .option :: (shape ++ .keyword .consequence :: (body ++ kinds)))

def fieldKinds (name : String) : List Token.Kind :=
  [.keyword .field, .name name]

abbrev Part := List Token.Kind × Statement

/-- A whole statement, or what stands between the first keyword of a branching statement and the one
that ends it. -/
inductive Form where
  | whole
  | branch
deriving Repr, DecidableEq

inductive Form.Derives : Form → List Token.Kind → Statement → Prop
  | assign {kinds : List Token.Kind} {value : Expr} (id : String)
    (derives : Layer.disjunction.Derives kinds value) :
    Derives .whole (.name id :: .symbol .assign :: kinds) (.assign id value)
  | print {kinds : List Token.Kind} {value : Expr} (derives : Layer.disjunction.Derives kinds value) :
    Derives .whole (.keyword .print :: kinds) (.print value)
  | evaluate {kinds : List Token.Kind} {value : Expr}
    (derives : Layer.disjunction.Derives kinds value) : Derives .whole kinds (.evaluate value)
  | define {kinds : List Token.Kind} (type : String) {names : List String}
    (lines : Lines (names.map fieldKinds) kinds) :
    Derives .whole
      (.keyword .record :: .name type :: .lineBreak :: (kinds ++ [.keyword .finish]))
      (.define type names)
  | iterate {source kinds : List Token.Kind} {items : Expr} {body : List Part} (id : String)
    (derives : Layer.disjunction.Derives source items) (lines : Lines (body.map Prod.fst) kinds)
    (inside : ∀ part ∈ body, Derives .whole part.1 part.2) :
    Derives .whole
      (.keyword .iterate :: .name id :: .keyword .among ::
        (source ++ .lineBreak :: (kinds ++ [.keyword .finish])))
      (.iterate id items (body.map Prod.snd))
  | branch {kinds : List Token.Kind} {statement : Statement}
    (inside : Derives .branch kinds statement) :
    Derives .whole (.keyword .branch :: (kinds ++ [.keyword .finish])) statement
  | consequence {test kinds : List Token.Kind} {condition : Expr} {body : List Part}
    (derives : Layer.disjunction.Derives test condition) (lines : Lines (body.map Prod.fst) kinds)
    (inside : ∀ part ∈ body, Derives .whole part.1 part.2) :
    Derives .branch (test ++ .keyword .consequence :: .lineBreak :: kinds)
      (.branch condition (body.map Prod.snd) none)
  | elseBranch {test kinds nested : List Token.Kind} {condition : Expr} {body : List Part}
    {statement : Statement} (derives : Layer.disjunction.Derives test condition)
    (lines : Lines (body.map Prod.fst) kinds)
    (inside : ∀ part ∈ body, Derives .whole part.1 part.2)
    (further : Derives .branch nested statement) :
    Derives .branch
      (test ++ .keyword .consequence :: .lineBreak :: (kinds ++ .keyword .elseBranch :: nested))
      (.branch condition (body.map Prod.snd) (some [statement]))
  | otherwise {test kinds kinds' : List Token.Kind} {condition : Expr} {body body' : List Part}
    (derives : Layer.disjunction.Derives test condition) (lines : Lines (body.map Prod.fst) kinds)
    (inside : ∀ part ∈ body, Derives .whole part.1 part.2)
    (lines' : Lines (body'.map Prod.fst) kinds')
    (inside' : ∀ part ∈ body', Derives .whole part.1 part.2) :
    Derives .branch
      (test ++ .keyword .consequence :: .lineBreak ::
        (kinds ++ .keyword .otherwise :: .lineBreak :: kinds'))
      (.branch condition (body.map Prod.snd) (some (body'.map Prod.snd)))
  | select {source kinds : List Token.Kind} {scrutinee : Expr} {cases : List (Pattern × List Part)}
    (derives : Layer.disjunction.Derives source scrutinee) (before : Nat) (nonempty : cases ≠ [])
    (layout : Cases (cases.map fun case => (case.1, case.2.map Prod.fst)) kinds)
    (inside : ∀ case ∈ cases, ∀ part ∈ case.2, Derives .whole part.1 part.2) :
    Derives .whole
      (.keyword .select :: (source ++ .lineBreak :: (breaks before ++ (kinds ++ [.keyword .finish]))))
      (.select scrutinee (cases.map fun case => (case.1, case.2.map Prod.snd)) none)
  | selectOtherwise {source kinds rest : List Token.Kind} {scrutinee : Expr}
    {cases : List (Pattern × List Part)} {body : List Part}
    (derives : Layer.disjunction.Derives source scrutinee) (before : Nat) (nonempty : cases ≠ [])
    (layout : Cases (cases.map fun case => (case.1, case.2.map Prod.fst)) kinds)
    (inside : ∀ case ∈ cases, ∀ part ∈ case.2, Derives .whole part.1 part.2)
    (layout' : Body (body.map Prod.fst) rest)
    (inside' : ∀ part ∈ body, Derives .whole part.1 part.2) :
    Derives .whole
      (.keyword .select :: (source ++ .lineBreak ::
        (breaks before ++ (kinds ++ .keyword .otherwise :: (rest ++ [.keyword .finish])))))
      (.select scrutinee (cases.map fun case => (case.1, case.2.map Prod.snd))
        (some (body.map Prod.snd)))

def Block.Derives (kinds : List Token.Kind) (statements : Block) : Prop :=
  ∃ parts : List Part, statements = parts.map Prod.snd ∧ Lines (parts.map Prod.fst) kinds ∧
    ∀ part ∈ parts, Form.whole.Derives part.1 part.2

def Program.Derives (kinds : List Token.Kind) (program : Program) : Prop :=
  Block.Derives kinds program.statements

theorem Lines.subset {parts : List (List Token.Kind)} {kinds part : List Token.Kind}
    (lines : Lines parts kinds) (member : part ∈ parts) : part ⊆ kinds := by
  induction lines with
  | none count => cases member
  | cons before rest apart ih =>
    intro kind inside
    simp only [List.mem_append]
    rcases List.mem_cons.mp member with rfl | later
    · exact .inl (.inr inside)
    · exact .inr (ih later inside)

theorem Body.subset {parts : List (List Token.Kind)} {kinds part : List Token.Kind}
    (body : Body parts kinds) (member : part ∈ parts) : part ⊆ kinds := by
  cases body with
  | lines lines => exact List.Subset.trans (lines.subset member) (List.subset_cons_self _ _)
  | single part after =>
    rw [List.mem_singleton.mp member]
    exact List.subset_append_left _ _

theorem Cases.subset {cases : List (Pattern × List (List Token.Kind))} {kinds : List Token.Kind}
    {case : Pattern × List (List Token.Kind)} (layout : Cases cases kinds) (member : case ∈ cases) :
    (∃ shape, shape ⊆ kinds ∧ case.1.Derives shape) ∧ ∀ part ∈ case.2, part ⊆ kinds := by
  induction layout with
  | none => cases member
  | @cons shape body kinds pattern parts rest header inside others ih =>
    have front : shape ⊆ .keyword .option :: (shape ++ .keyword .consequence :: (body ++ kinds)) := by
      intro kind here
      simp [here]
    have middle : body ⊆ .keyword .option :: (shape ++ .keyword .consequence :: (body ++ kinds)) := by
      intro kind here
      simp [here]
    have back : kinds ⊆ .keyword .option :: (shape ++ .keyword .consequence :: (body ++ kinds)) := by
      intro kind here
      simp [here]
    rcases List.mem_cons.mp member with rfl | later
    · exact ⟨⟨shape, front, header⟩, fun part here => List.Subset.trans (inside.subset here) middle⟩
    · obtain ⟨⟨shape', within, header'⟩, parts'⟩ := ih later
      exact ⟨⟨shape', List.Subset.trans within back, header'⟩,
        fun part here => List.Subset.trans (parts' part here) back⟩

-- The tokens begin with one that cannot follow a statement.
def Opens (kinds : List Token.Kind) : Prop :=
  ∃ first rest, kinds = first :: rest ∧ Parser.closesStatement first = false

theorem closesStatement_of_startsExpr {kind : Token.Kind} (starts : startsExpr kind = true) :
    Parser.closesStatement kind = false := by
  unfold Parser.closesStatement
  split <;> first | rfl | cases starts

theorem Form.Derives.opens {kinds : List Token.Kind} {statement : Statement}
    (derives : Form.whole.Derives kinds statement) : Opens kinds := by
  cases derives with
  | evaluate derives =>
    obtain ⟨first, rest, rfl, starts⟩ := derives.starts
    exact ⟨first, rest, rfl, closesStatement_of_startsExpr starts⟩
  | _ => exact ⟨_, _, rfl, rfl⟩

theorem opens_fieldKinds (name : String) : Opens (fieldKinds name) :=
  ⟨_, _, rfl, rfl⟩

theorem opens_of_parts {parts : List Part}
    (each : ∀ part ∈ parts, Form.whole.Derives part.1 part.2) :
    ∀ kinds ∈ parts.map Prod.fst, Opens kinds := by
  intro kinds member
  obtain ⟨part, inside, rfl⟩ := List.mem_map.mp member
  exact (each part inside).opens

end ByNeed
