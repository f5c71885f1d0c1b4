import ByNeed.Proofs.Heap.Pairwise
import ByNeed.Proofs.Heap.Recall
import ByNeed.Proofs.Strict.Equivalence

set_option autoImplicit false

-- How far equality of values is an equivalence. Where forcing gives a value for each cell inside two values, at
-- every depth, they have whole trees, and equality of the values is equality of these trees. It changes no tree,
-- so that it goes on to decide the same relation.
namespace ByNeed.Heap

section Trees

variable {heap heap' : Heap Task} {ref : Ref} {value left right : Value} {tree tree' : Tree}

/-- Forcing gives a value for each cell inside the value, at every depth, and so it has a tree. -/
inductive Completes (heap : Heap Task) : Value → Tree → Prop
  | intro {value : Value} {inner : Ref → Value} {trees : Ref → Tree}
    (yields : ∀ ref ∈ value.refs, Yields Task.run heap ref (.ok (inner ref)))
    (each : ∀ ref ∈ value.refs, heap.Completes (inner ref) (trees ref)) :
    heap.Completes value (value.tree fun ref => .ok (trees ref))

theorem Completes.unique (completes : heap.Completes value tree) (completes' : heap.Completes value tree') :
    tree = tree' := by
  induction completes generalizing tree' with
  | @intro value inner trees yields each ih =>
    cases completes' with
    | @intro _ inner' trees' yields' each' =>
      refine Value.tree_congr value fun ref member => ?_
      have same : inner' ref = inner ref := Except.ok.inj ((yields' ref member).unique (yields ref member))
      rw [ih ref member (same ▸ each' ref member)]

theorem Completes.kept (completes : heap.Completes value tree)
    (kept : ∀ ref inner, Yields Task.run heap ref (.ok inner) → Yields Task.run heap' ref (.ok inner)) :
    heap'.Completes value tree := by
  induction completes with
  | intro yields _ ih => exact .intro (fun ref member => kept ref _ (yields ref member)) ih

-- The cells inside two values have one tree each, in whichever of the two they are.
theorem Completes.common (completes : heap.Completes left tree) (completes' : heap.Completes right tree') :
    ∃ (inner : Ref → Value) (trees : Ref → Tree), tree = left.tree (fun ref => .ok (trees ref)) ∧
      tree' = right.tree (fun ref => .ok (trees ref)) ∧
      ∀ ref, ref ∈ left.refs ∨ ref ∈ right.refs → Yields Task.run heap ref (.ok (inner ref)) ∧
        heap.Completes (inner ref) (trees ref) := by
  cases completes with
  | @intro _ inner trees yields each =>
    cases completes' with
    | @intro _ inner' trees' yields' each' =>
      have agree (ref : Ref) (member : ref ∈ left.refs) (member' : ref ∈ right.refs) : trees' ref = trees ref := by
        have same : inner' ref = inner ref := Except.ok.inj ((yields' ref member').unique (yields ref member))
        exact (each' ref member').unique (same ▸ each ref member)
      refine ⟨fun ref => if ref ∈ left.refs then inner ref else inner' ref,
        fun ref => if ref ∈ left.refs then trees ref else trees' ref, ?_, ?_, fun ref member => ?_⟩
      · refine left.tree_congr fun ref member => ?_
        simp only [if_pos member]
      · refine right.tree_congr fun ref member' => ?_
        by_cases member : ref ∈ left.refs
        · simp only [if_pos member, agree ref member member']
        · simp only [if_neg member]
      · by_cases first : ref ∈ left.refs
        · simpa only [if_pos first] using ⟨yields ref first, each ref first⟩
        · have second := member.resolve_left first
          simpa only [if_neg first] using ⟨yields' ref second, each' ref second⟩

end Trees

section Decides

variable {heap : Heap Task} {left right : Value} {tree tree' : Tree} {first second : List Pair} {same same' : Bool}

def Decides (heap : Heap Task) (pairs : List Pair) (same : Bool) : Prop :=
  ∀ negated rest value, (Task.comparePairs negated rest).Gives (heap.Knows ⊥) (heap.Knows ⊥) value →
    (Task.comparePairs negated (pairs ++ rest)).Gives (heap.Knows ⊥) (heap.Knows ⊥)
      (if same then value else .boolean negated)

theorem decides_nil : heap.Decides [] true :=
  fun _ _ _ later => later

theorem Decides.append (one : heap.Decides first same) (other : heap.Decides second same') :
    heap.Decides (first ++ second) (same && same') := by
  intro negated rest value later
  have both := one negated (second ++ rest) _ (other negated rest value later)
  rw [List.append_assoc]
  cases same <;> exact both

theorem decides_none (found : left.parts? right = none) : heap.Decides [.values left right] false := by
  intro negated rest value _
  simp only [List.singleton_append, Task.comparePairs, found]
  exact .done _

theorem Decides.parts {parts : List Pair} (found : left.parts? right = some parts) (decides : heap.Decides parts same) :
    heap.Decides [.values left right] same := by
  intro negated rest value later
  simp only [List.singleton_append, Task.comparePairs, found]
  exact .become (decides negated rest value later)

theorem Decides.cells {ref ref' : Ref} (knows : heap.Knows ⊥ ref left) (knows' : heap.Knows ⊥ ref' right)
    (decides : heap.Decides [.values left right] same) : heap.Decides [.cells ref ref'] same :=
  fun negated rest value later => .demand knows (.demand knows' (.become (decides negated rest value later)))

theorem decides_all {meaning : Ref → Complete} {pairs : List Pair}
    (each : ∀ pair ∈ pairs, ∃ same, pair.equal meaning = .ok same ∧ heap.Decides [pair] same) :
    ∃ same, Pair.allEqual meaning pairs = .ok same ∧ heap.Decides pairs same := by
  induction pairs with
  | nil => exact ⟨true, rfl, decides_nil⟩
  | cons pair rest ih =>
    obtain ⟨⟨same, equal, decides⟩, others⟩ := List.forall_mem_cons.mp each
    obtain ⟨same', equal', decides'⟩ := ih others
    refine ⟨same && same', ?_, decides.append decides'⟩
    cases same <;> simp [Pair.allEqual, equal, equal', bind, Except.bind]

-- The induction is on the left tree. The trees of two elements or two fields are right inside those of the values.
theorem Completes.decides (whole : heap.Whole) (completes : heap.Completes left tree) (completes' : heap.Completes right tree') :
    ∃ same, tree.equal tree' = .ok same ∧ heap.Decides [.values left right] same := by
  induction tree using Tree.outcomes_induction generalizing left right tree' with
  | step tree smaller =>
    obtain ⟨inner, trees, rfl, rfl, each⟩ := completes.common completes'
    have within {value : Value} (held : ∀ ref ∈ value.refs, ref ∈ left.refs ∨ ref ∈ right.refs) :
        heap.Completes value (value.tree fun ref => .ok (trees ref)) :=
      .intro (fun ref member => (each ref (held ref member)).1) (fun ref member => (each ref (held ref member)).2)
    rw [equal_tree]
    cases found : left.parts? right with
    | none => exact ⟨false, rfl, decides_none found⟩
    | some parts =>
      suffices all : ∀ pair ∈ parts, ∃ same, pair.equal (fun ref => .ok (trees ref)) = .ok same ∧
          heap.Decides [pair] same by
        obtain ⟨same, equal, decides⟩ := decides_all all
        exact ⟨same, equal, decides.parts found⟩
      intro pair member
      rcases Value.part_cases found member with
        ⟨elements, elements', first, second, rfl, rfl, isFirst, isSecond, rfl⟩ |
        ⟨type, fields, type', fields', first, second, rfl, rfl, isFirst, isSecond, rfl⟩
      · obtain ⟨yields, complete⟩ := each first (.inl isFirst)
        obtain ⟨yields', complete'⟩ := each second (.inr isSecond)
        have inside : Except.ok (trees first) ∈
            ((Value.list elements).tree fun ref => .ok (trees ref)).outcomes := List.mem_map_of_mem isFirst
        obtain ⟨same, equal, decides⟩ := smaller (trees first) inside complete complete'
        exact ⟨same, equal, decides.cells (whole.knows yields) (whole.knows yields')⟩
      · have inside : Except.ok (first.2.tree fun ref => .ok (trees ref)) ∈
            ((Value.record type fields).tree fun ref => .ok (trees ref)).outcomes := by
          simp only [Value.tree, Tree.outcomes, Value.treesOfFields_eq_map, List.map_map]
          exact List.mem_map.mpr ⟨first, isFirst, rfl⟩
        exact smaller _ inside
          (within fun ref held => .inl (Value.mem_refsOfFields.mpr ⟨first, isFirst, held⟩))
          (within fun ref held => .inr (Value.mem_refsOfFields.mpr ⟨second, isSecond, held⟩))

end Decides

/-- What `==` and `!=` say of two values: whether a new cell asks for it or the cell of an operator, and without
a change to any tree. -/
structure Answers (heap : Heap Task) (left right : Value) (same : Bool) : Prop where
  asked (negated : Bool) : ∃ heap',
    Eventually (fun fuel => HeapM.equality fuel negated left right) heap (.ok (.boolean (same != negated)) heap') ∧
      ∀ value tree, heap.Completes value tree → heap'.Completes value tree
  operator (negated : Bool) (own first second : Ref)
    (found : heap.get own = .pending [first, second] (.comparison (if negated then .notEqual else .equal)))
    (yields : Yields Task.run heap first (.ok left)) (yields' : Yields Task.run heap second (.ok right)) :
    Yields Task.run heap own (.ok (.boolean (same != negated)))

section Answers

variable {heap : Heap Task} {left right : Value} {tree tree' : Tree} {same same' : Bool}

theorem Decides.gives (decides : heap.Decides [.values left right] same) (negated : Bool) :
    (Task.comparePairs negated [.values left right]).Gives (heap.Knows ⊥) (heap.Knows ⊥)
      (.boolean (same != negated)) := by
  have decided := decides negated [] _ (.done (.boolean !negated))
  cases same <;> simpa using decided

-- A value that is known is still found after whatever was promised to be known.
theorem Whole.kept (whole : heap.Whole) {plan : Plan Exact} {heap' : Heap Task}
    (grows : Exact.terms.Grows heap.exact heap plan heap') {ref : Ref} {value : Value}
    (yields : Yields Task.run heap ref (.ok value)) : Yields Task.run heap' ref (.ok value) := by
  obtain ⟨depth, computes⟩ := whole.knows yields
  obtain ⟨least, _, promises⟩ := exact_promises computes
  exact Exact.force grows.holds (promises.extend grows.extends')

theorem Decides.asked (decides : heap.Decides [.values left right] same) (negated : Bool) :
    ∃ plan heap', Exact.terms.Grows heap.exact heap plan heap' ∧
      Eventually (fun fuel => HeapM.equality fuel negated left right) heap (.ok (.boolean (same != negated)) heap') := by
  obtain ⟨depth, gives⟩ := gives_bounded (decides.gives negated)
  let own : Exact := ⟨.boolean (same != negated), 2 * depth + 2⟩
  have known : heap.Computes ⊥ depth ≤ Exact.Known heap.exact own.rank := computes_le_known (by simp [own])
  have deeper : heap.Computes ⊥ depth ≤ Exact.Known heap.exact (own.rank - 1) := computes_le_known (by simp [own])
  have realizes := Exact.realizes (gives.mono known deeper : _) (.refl heap.exact)
  obtain ⟨cell, plan, heap', ⟨bound, ran⟩, grows, _, keeps⟩ := heap.exact_holds.performs Exact.honoured realizes
  obtain ⟨result, _, rfl⟩ := compared_of_perform bound (ran bound bound (Nat.le_refl _) (Nat.le_refl _))
  rw [Cell.gives_ofOutcome keeps] at ran
  refine ⟨plan, heap', grows, Eventually.bind ⟨bound, fun fuel enough => ran fuel fuel enough enough⟩ ?_⟩
  exact eventually_of_forall fun _ => rfl

theorem Decides.answers (whole : heap.Whole) (decides : heap.Decides [.values left right] same) :
    heap.Answers left right same where
  asked negated := by
    obtain ⟨plan, heap', grows, asked⟩ := decides.asked negated
    exact ⟨heap', asked, fun value tree completes => completes.kept fun ref inner => whole.kept grows⟩
  operator negated own first second found yields yields' := by
    apply Knows.yields
    apply knows_of_gives
    rw [found]
    refine .pending (.cons (whole.knows yields) (.cons (whole.knows yields') .nil)) ?_
    cases negated <;> exact decides.gives _

theorem Answers.unique (answers : heap.Answers left right same) (answers' : heap.Answers left right same') :
    same = same' := by
  obtain ⟨_, asked, _⟩ := answers.asked false
  obtain ⟨_, asked', _⟩ := answers'.asked false
  have equal := asked.unique asked'
  cases same <;> cases same' <;> cases equal <;> rfl

theorem Completes.answers_iff (whole : heap.Whole) (completes : heap.Completes left tree) (completes' : heap.Completes right tree') :
    heap.Answers left right same ↔ tree.equal tree' = .ok same := by
  obtain ⟨known, equal, decides⟩ := completes.decides whole completes'
  rw [equal, Except.ok.injEq]
  constructor
  · exact fun answers => (decides.answers whole).unique answers
  · rintro rfl
    exact decides.answers whole

end Answers

structure Comparable (heap : Heap Task) (value : Value) (tree : Tree) : Prop where
  completes : heap.Completes value tree
  numbers : tree.WithoutNaN

section Equivalence

variable {heap : Heap Task} {first second third : Value} {tree₁ tree₂ tree₃ : Tree}

theorem Comparable.answers_self (whole : heap.Whole) (one : heap.Comparable first tree₁) : heap.Answers first first true := by
  obtain ⟨same, equal, decides⟩ := one.completes.decides whole one.completes
  cases same with
  | true => exact decides.answers whole
  | false => exact absurd equal (Tree.equal_self_ne one.numbers)

theorem Completes.answers_symm (whole : heap.Whole) (one : heap.Completes first tree₁) (two : heap.Completes second tree₂) {same : Bool}
    (answers : heap.Answers first second same) : heap.Answers second first same := by
  obtain ⟨same', equal, decides⟩ := two.decides whole one
  have equal' := (one.answers_iff whole two).mp answers
  cases same with
  | true => exact (two.answers_iff whole one).mpr (Tree.Same.symm equal')
  | false =>
    cases same' with
    | false => exact decides.answers whole
    | true =>
      have swapped : tree₁.equal tree₂ = .ok true := Tree.Same.symm equal
      rw [swapped] at equal'
      cases equal'

/-- Of values without NaN whose cells all have values, in a heap that no reference leads out of, equality
decides a relation that is reflexive and symmetric. Where it is not transitive, two different integers at the same place of the outer values are rounded to
one float in the middle, and so it is transitive for integers that are floats. -/
theorem equality_equivalence (whole : heap.Whole) (one : heap.Comparable first tree₁) (two : heap.Comparable second tree₂)
    (three : heap.Comparable third tree₃) :
    (∃ same, heap.Answers first second same) ∧
    heap.Answers first first true ∧
    (∀ same, heap.Answers first second same → heap.Answers second first same) ∧
    (heap.Answers first second true → heap.Answers second third true →
      (heap.Answers first third true ↔ ¬ Tree.Clash tree₁ tree₂ tree₃)) ∧
    (tree₁.Narrow → tree₃.Narrow → heap.Answers first second true → heap.Answers second third true →
      heap.Answers first third true) := by
  have chain (answers : heap.Answers first second true) (answers' : heap.Answers second third true) :
      heap.Answers first third true ↔ ¬ Tree.Clash tree₁ tree₂ tree₃ := by
    have equal := (one.completes.answers_iff whole two.completes).mp answers
    have equal' := (two.completes.answers_iff whole three.completes).mp answers'
    rw [one.completes.answers_iff whole three.completes]
    exact Tree.same_trans_iff equal equal'
  refine ⟨?_, one.answers_self whole, fun same => one.completes.answers_symm whole two.completes, chain, ?_⟩
  · obtain ⟨same, _, decides⟩ := one.completes.decides whole two.completes
    exact ⟨same, decides.answers whole⟩
  · intro narrow narrow' answers answers'
    exact (chain answers answers').mpr (Tree.not_clash_of_narrow narrow narrow')

end Equivalence

section Numbers

variable (heap : Heap Task)

theorem comparable_integer (value : Int64) : heap.Comparable (.integer value) (.integer value) where
  completes := @Completes.intro heap (.integer value) (fun _ => .integer value) (fun _ => .integer value)
    (by simp [Value.refs]) (by simp [Value.refs])
  numbers _ inside := by cases inside.of_leaf rfl

theorem comparable_float {value : Float} (number : value.isNaN = false) :
    heap.Comparable (.float value) (.float value) where
  completes := @Completes.intro heap (.float value) (fun _ => .float value) (fun _ => .float value)
    (by simp [Value.refs]) (by simp [Value.refs])
  numbers _ inside := by
    cases inside.of_leaf rfl
    exact number

end Numbers

-- The first integer is no float, and is rounded to the other one.
theorem equality_not_transitive :
    ({} : Heap Task).Comparable (.integer 9007199254740993) (.integer 9007199254740993) ∧
    ({} : Heap Task).Comparable (.float 9007199254740992) (.float 9007199254740992) ∧
    ({} : Heap Task).Comparable (.integer 9007199254740992) (.integer 9007199254740992) ∧
    ({} : Heap Task).Answers (.integer 9007199254740993) (.float 9007199254740992) true ∧
    ({} : Heap Task).Answers (.float 9007199254740992) (.integer 9007199254740992) true ∧
    ({} : Heap Task).Answers (.integer 9007199254740993) (.integer 9007199254740992) false := by
  have whole : ({} : Heap Task).Whole := whole_of_cells (by simp)
  have odd := comparable_integer {} 9007199254740993
  have even := comparable_integer {} 9007199254740992
  have float := comparable_float {} (show (9007199254740992 : Float).isNaN = false by decide +kernel)
  refine ⟨odd, float, even, ?_, ?_, ?_⟩
  · exact (odd.completes.answers_iff whole float.completes).mpr (by decide +kernel)
  · exact (float.completes.answers_iff whole even.completes).mpr (by decide +kernel)
  · exact (odd.completes.answers_iff whole even.completes).mpr (by decide +kernel)

-- The second cell negates the first one, and the third one is settled by the second.
def negative : Heap Task where
  cells := #[.forced (.integer 2), .pending [0] (.unary .minus), .delegated 1, .forced (.float (-2))]

theorem Comparable.list_single {heap : Heap Task} {ref : Ref} {inner : Value} {tree : Tree}
    (yields : Yields Task.run heap ref (.ok inner)) (comparable : heap.Comparable inner tree) :
    heap.Comparable (.list [ref]) (.list [.ok tree]) where
  completes := @Completes.intro heap (.list [ref]) (fun _ => inner) (fun _ => tree)
    (by simpa [Value.refs] using yields) (by simpa [Value.refs] using comparable.completes)
  numbers value inside := by
    rcases Tree.inside_iff.mp inside with same | ⟨part, deeper, member⟩
    · cases same
    · obtain rfl : part = tree := by simpa [Tree.outcomes] using member
      exact comparable.numbers value deeper

theorem narrow_list_single {value : Int64} (small : |value.toInt| ≤ 2 ^ 53) :
    Tree.Narrow (.list [.ok (.integer value)]) := by
  intro other inside
  rcases Tree.inside_iff.mp inside with same | ⟨part, deeper, member⟩
  · cases same
  · obtain rfl : part = .integer value := by simpa [Tree.outcomes] using member
    cases deeper.of_leaf rfl
    exact small

theorem equality_equivalence_negative :
    negative.Whole ∧
    negative.Comparable (.list [1]) (.list [.ok (.integer (-2))]) ∧
    negative.Comparable (.list [3]) (.list [.ok (.float (-2))]) ∧
    negative.Comparable (.list [2]) (.list [.ok (.integer (-2))]) ∧
    negative.Answers (.list [1]) (.list [3]) true ∧ negative.Answers (.list [3]) (.list [2]) true ∧
    negative.Answers (.list [1]) (.list [2]) true := by
  have whole : negative.Whole := whole_of_cells (by decide)
  have eventually {ref : Ref} {value : Value} {heap' : Heap Task}
      (forced : ∀ more, force Task.run (more + 6) ref negative = .ok value heap') :
      Yields Task.run negative ref (.ok value) := by
    refine ⟨heap', 6, fun fuel enough => ?_⟩
    obtain ⟨more, rfl⟩ := Nat.exists_eq_add_of_le' enough
    exact forced more
  have first : negative.Comparable (.list [1]) (.list [.ok (.integer (-2))]) :=
    .list_single (eventually fun _ => rfl) (comparable_integer _ (-2))
  have second : negative.Comparable (.list [3]) (.list [.ok (.float (-2))]) :=
    .list_single (eventually fun _ => rfl) (comparable_float _ (by decide +kernel))
  have third : negative.Comparable (.list [2]) (.list [.ok (.integer (-2))]) :=
    .list_single (eventually fun _ => rfl) (comparable_integer _ (-2))
  have answers : negative.Answers (.list [1]) (.list [3]) true :=
    (first.completes.answers_iff whole second.completes).mpr (by decide +kernel)
  have answers' : negative.Answers (.list [3]) (.list [2]) true :=
    (second.completes.answers_iff whole third.completes).mpr (by decide +kernel)
  have narrow : Tree.Narrow (.list [.ok (.integer (-2))]) := narrow_list_single (by decide)
  obtain ⟨_, _, _, _, transitive⟩ := equality_equivalence whole first second third
  exact ⟨whole, first, second, third, answers, answers', transitive narrow narrow answers answers'⟩

end ByNeed.Heap
