import ByNeed.Proofs.Heap.Task

set_option autoImplicit false

-- Two heaps may hold the same cells at different addresses. A relation says which address in one stands
-- for which in the other. It grows when a cell is made in both, so what a task does with paired addresses
-- is said for every wider relation.
namespace ByNeed

inductive Value.Paired (same : Ref → Ref → Prop) : Value → Value → Prop
  | single {value : Value} (single : value.isSingle = true) : Paired same value value
  | list {elements elements' : List Ref} (each : List.Forall₂ same elements elements') :
    Paired same (.list elements) (.list elements')
  | record {type : String} {fields fields' : List (String × Value)}
    (names : fields.map Prod.fst = fields'.map Prod.fst)
    (each : List.Forall₂ (Paired same) (fields.map Prod.snd) (fields'.map Prod.snd)) :
    Paired same (.record type fields) (.record type fields')

inductive Pair.Paired (same : Ref → Ref → Prop) : Pair → Pair → Prop
  | cells {left right left' right' : Ref} (first : same left left') (second : same right right') :
    Paired same (.cells left right) (.cells left' right')
  | values {left right left' right' : Value} (first : left.Paired same left') (second : right.Paired same right') :
    Paired same (.values left right) (.values left' right')

inductive Task.Paired (same : Ref → Ref → Prop) : Task → Task → Prop
  | fail (fault : Fault) : Paired same (.fail fault) (.fail fault)
  | index : Paired same .index .index
  | create (type : String) (fields : List String) : Paired same (.create type fields) (.create type fields)
  | member (field : String) : Paired same (.member field) (.member field)
  | unary (op : UnaryOp) : Paired same (.unary op) (.unary op)
  | arithmetic (op : ArithmeticOp) : Paired same (.arithmetic op) (.arithmetic op)
  | shortCircuit (op : LogicalOp) {right right' : Ref} (second : same right right') :
    Paired same (.shortCircuit op right) (.shortCircuit op right')
  | logical (op : LogicalOp) {left left' : Value} (first : left.Paired same left') :
    Paired same (.logical op left) (.logical op left')
  | comparison (op : ComparisonOp) : Paired same (.comparison op) (.comparison op)
  | equality (negated : Bool) {pairs pairs' : List Pair} (each : List.Forall₂ (Pair.Paired same) pairs pairs') :
    Paired same (.equality negated pairs) (.equality negated pairs')

inductive Cell.Paired (same : Ref → Ref → Prop) : Cell Task → Cell Task → Prop
  | pending {inputs inputs' : List Ref} {task task' : Task} (each : List.Forall₂ same inputs inputs')
    (tasks : task.Paired same task') : Paired same (.pending inputs task) (.pending inputs' task')
  | running : Paired same .running .running
  | delegated {target target' : Ref} (targets : same target target') :
    Paired same (.delegated target) (.delegated target')
  | forced {value value' : Value} (values : value.Paired same value') : Paired same (.forced value) (.forced value')
  | failed (fault : Fault) : Paired same (.failed fault) (.failed fault)

def Outcome.Paired (same : Ref → Ref → Prop) (outcome outcome' : Outcome) : Prop :=
  (Cell.ofOutcome outcome).Paired same (.ofOutcome outcome')

/-- The steps do the same. What they are told of the cells that they make or force is paired, in whatever
way the addresses are paired by then. -/
inductive Step.Paired : (Ref → Ref → Prop) → Step Task → Step Task → Prop
  | done {same : Ref → Ref → Prop} {value value' : Value} (values : value.Paired same value') :
    Paired same (.done value) (.done value')
  | fail {same : Ref → Ref → Prop} (fault : Fault) : Paired same (.fail fault) (.fail fault)
  | defer {same : Ref → Ref → Prop} {target target' : Ref} (targets : same target target') :
    Paired same (.defer target) (.defer target')
  | alloc {same : Ref → Ref → Prop} {origin origin' : Fresh Task} {next next' : Ref → Step Task}
    (origins : origin.cell.Paired same origin'.cell)
    (later : ∀ same' ref ref', same ≤ same' → same' ref ref' → Paired same' (next ref) (next' ref')) :
    Paired same (.alloc origin next) (.alloc origin' next')
  | demand {same : Ref → Ref → Prop} {target target' : Ref} {next next' : Outcome → Step Task}
    (targets : same target target')
    (later : ∀ same' outcome outcome', same ≤ same' → Outcome.Paired same' outcome outcome' →
      Paired same' (next outcome) (next' outcome')) :
    Paired same (.demand target next) (.demand target' next')
  | become {same : Ref → Ref → Prop} {task task' : Task} (tasks : task.Paired same task') :
    Paired same (.become task) (.become task')

variable {same same' : Ref → Ref → Prop}

section Values

variable {value value' : Value}

theorem Value.Paired.mono (paired : value.Paired same value') (wider : same ≤ same') : value.Paired same' value' := by
  induction value using Value.fields_induction generalizing value' with
  | step value inner =>
    cases paired with
    | single single => exact .single single
    | list each => exact .list (each.imp wider)
    | @record type fields fields' names each =>
      have inner : ∀ value ∈ fields.map Prod.snd, ∀ value', value.Paired same value' → value.Paired same' value' := by
        simp only [List.mem_map]
        rintro _ ⟨field, member, rfl⟩ value' paired
        exact inner type fields rfl field member paired
      exact .record names (((List.forall₂_and_left _ _).mpr ⟨inner, each⟩).imp fun _ _ both => both.1 _ both.2)

theorem Value.paired_self (value : Value) (each : ∀ ref ∈ value.refs, same ref ref) : value.Paired same value := by
  induction value using Value.fields_induction with
  | step value inner =>
    cases value with
    | list elements => exact .list (List.forall₂_same.mpr each)
    | record type fields =>
      refine .record rfl (List.forall₂_same.mpr ?_)
      simp only [List.mem_map]
      rintro _ ⟨field, member, rfl⟩
      exact inner type fields rfl field member fun ref held =>
        each ref (Value.mem_refsOfFields.mpr ⟨field, member, held⟩)
    | _ => exact .single rfl

theorem eq_of_forall₂ {α : Type} {related : α → α → Prop} {left right : List α}
    (each : List.Forall₂ related left right) (only : ∀ item ∈ right, ∀ other, related other item → other = item) :
    left = right := by
  induction each with
  | nil => rfl
  | cons first _ ih =>
    rw [only _ List.mem_cons_self _ first, ih fun item member => only item (List.mem_cons_of_mem _ member)]

-- Where nothing else is paired with the addresses in a value, it is the value itself.
theorem Value.Paired.eq (paired : value.Paired same value')
    (only : ∀ ref ∈ value'.refs, ∀ other, same other ref → other = ref) : value = value' := by
  induction value' using Value.fields_induction generalizing value with
  | step value' inner =>
    cases paired with
    | single => rfl
    | list each => rw [eq_of_forall₂ each only]
    | @record type fields fields' names each =>
      have values : fields.map Prod.snd = fields'.map Prod.snd := by
        refine eq_of_forall₂ each ?_
        simp only [List.mem_map]
        rintro _ ⟨field, member, rfl⟩ value paired
        exact inner type fields' rfl field member paired fun ref held =>
          only ref (Value.mem_refsOfFields.mpr ⟨field, member, held⟩)
      rw [List.zip_of_prod names values, ← List.zip_of_prod rfl rfl]

end Values

section Tasks

theorem Pair.Paired.mono {pair pair' : Pair} (paired : pair.Paired same pair') (wider : same ≤ same') :
    pair.Paired same' pair' := by
  cases paired with
  | cells first second => exact .cells (wider _ _ first) (wider _ _ second)
  | values first second => exact .values (first.mono wider) (second.mono wider)

theorem Task.Paired.mono {task task' : Task} (paired : task.Paired same task') (wider : same ≤ same') :
    task.Paired same' task' := by
  cases paired with
  | shortCircuit op second => exact .shortCircuit op (wider _ _ second)
  | logical op first => exact .logical op (first.mono wider)
  | equality negated each => exact .equality negated (each.imp fun _ _ paired => paired.mono wider)
  | _ => constructor

theorem Cell.Paired.mono {cell cell' : Cell Task} (paired : cell.Paired same cell') (wider : same ≤ same') :
    cell.Paired same' cell' := by
  cases paired with
  | pending each tasks => exact .pending (each.imp wider) (tasks.mono wider)
  | running => exact .running
  | delegated targets => exact .delegated (wider _ _ targets)
  | forced values => exact .forced (values.mono wider)
  | failed fault => exact .failed fault

theorem Task.paired_self (task : Task) (each : ∀ ref ∈ task.refs, same ref ref) : task.Paired same task := by
  cases task with
  | shortCircuit op right => exact .shortCircuit op (each right List.mem_cons_self)
  | logical op left => exact .logical op (left.paired_self each)
  | equality negated pairs =>
    refine .equality negated (List.forall₂_same.mpr fun pair member => ?_)
    have inner : ∀ ref ∈ pair.refs, same ref ref := fun ref held => each ref (List.mem_flatMap.mpr ⟨pair, member, held⟩)
    cases pair with
    | cells left right => exact .cells (inner left (by simp [Pair.refs])) (inner right (by simp [Pair.refs]))
    | values left right =>
      simp only [Pair.refs, List.mem_append] at inner
      exact .values (left.paired_self fun ref held => inner ref (.inl held))
        (right.paired_self fun ref held => inner ref (.inr held))
  | _ => constructor

theorem Cell.paired_self (cell : Cell Task) (each : ∀ ref ∈ Task.reading.links cell, same ref ref) :
    cell.Paired same cell := by
  cases cell with
  | pending inputs task =>
    simp only [Reading.links, List.mem_append] at each
    exact .pending (List.forall₂_same.mpr fun ref member => each ref (.inl member))
      (task.paired_self fun ref member => each ref (.inr member))
  | running => exact .running
  | delegated target => exact .delegated (each target List.mem_cons_self)
  | forced value => exact .forced (value.paired_self each)
  | failed fault => exact .failed fault

theorem Pair.Paired.eq {pair pair' : Pair} (paired : pair.Paired same pair')
    (only : ∀ ref ∈ pair'.refs, ∀ other, same other ref → other = ref) : pair = pair' := by
  cases paired with
  | cells first second =>
    rw [only _ (by simp [Pair.refs]) _ first, only _ (by simp [Pair.refs]) _ second]
  | values first second =>
    simp only [Pair.refs, List.mem_append] at only
    rw [first.eq fun ref held => only ref (.inl held), second.eq fun ref held => only ref (.inr held)]

theorem Task.Paired.eq {task task' : Task} (paired : task.Paired same task')
    (only : ∀ ref ∈ task'.refs, ∀ other, same other ref → other = ref) : task = task' := by
  cases paired with
  | shortCircuit op second => rw [only _ (by simp [Task.refs]) _ second]
  | logical op first => rw [first.eq only]
  | equality negated each =>
    rw [eq_of_forall₂ each fun pair member other paired =>
      paired.eq fun ref held => only ref (List.mem_flatMap.mpr ⟨pair, member, held⟩)]
  | _ => rfl

theorem Cell.Paired.eq {cell cell' : Cell Task} (paired : cell.Paired same cell')
    (only : ∀ ref ∈ Task.reading.links cell', ∀ other, same other ref → other = ref) : cell = cell' := by
  cases paired with
  | pending each tasks =>
    simp only [Reading.links, List.mem_append] at only
    rw [eq_of_forall₂ each fun ref member => only ref (.inl member), tasks.eq fun ref held => only ref (.inr held)]
  | delegated targets => rw [only _ List.mem_cons_self _ targets]
  | forced values => rw [values.eq only]
  | running | failed => rfl

end Tasks

section Operators

variable {value value' left left' right right' : Value}

theorem Value.Paired.surface (meaning : Ref → Complete) (paired : value.Paired same value') :
    (value.tree meaning).surface = (value'.tree meaning).surface := by
  cases paired <;> rfl

theorem UnaryOp.apply_paired (op : UnaryOp) (paired : value.Paired same value') : op.apply value = op.apply value' := by
  let meaning : Ref → Complete := fun _ => .error .dependsOnItself
  rw [← op.apply_surface meaning value, paired.surface meaning, op.apply_surface]

theorem ArithmeticOp.apply_paired (op : ArithmeticOp) (first : left.Paired same left')
    (second : right.Paired same right') : op.apply left right = op.apply left' right' := by
  let meaning : Ref → Complete := fun _ => .error .dependsOnItself
  rw [← op.apply_surface meaning left, first.surface meaning, second.surface meaning, op.apply_surface]

theorem LogicalOp.apply_paired (op : LogicalOp) (first : left.Paired same left')
    (second : right.Paired same right') : op.apply left right = op.apply left' right' := by
  let meaning : Ref → Complete := fun _ => .error .dependsOnItself
  have swapped : op.apply left right = op.apply left' right := by
    cases first with
    | single => rfl
    | list | record => cases right <;> rfl
  rw [swapped, ← op.apply_surface meaning left', second.surface meaning, op.apply_surface]

theorem ordered_paired (operation : String) (onIntegers : Int64 → Int64 → Bool) (onFloats : Float → Float → Bool)
    (first : left.Paired same left') (second : right.Paired same right') :
    ordered operation onIntegers onFloats left right = ordered operation onIntegers onFloats left' right' := by
  let meaning : Ref → Complete := fun _ => .error .dependsOnItself
  rw [← ordered_surface meaning, first.surface meaning, second.surface meaning, ordered_surface]

theorem Step.need_paired {target target' : Ref} {use use' : Value → Step Task} (targets : same target target')
    (later : ∀ wider value value', same ≤ wider → value.Paired wider value' → (use value).Paired wider (use' value')) :
    (Step.need target use).Paired same (.need target' use') := by
  refine .demand targets fun wider outcome outcome' le paired => ?_
  cases outcome with
  | ok value =>
    cases outcome' with
    | ok value' => cases paired with | forced values => exact later wider value value' le values
    | error => cases paired
  | error fault =>
    cases outcome' with
    | ok => cases paired
    | error => cases paired with | failed fault => exact .fail fault

theorem Step.ofOutcome_paired {outcome : Outcome} (single : SingleOutcome outcome) :
    (Step.ofOutcome outcome).Paired same (.ofOutcome outcome) := by
  cases outcome with
  | error fault => exact .fail fault
  | ok value => exact .done (.single (single value rfl))

end Operators

section Steps

variable {value value' left left' right right' : Value}

theorem forall₂_zipWith {α : Type} {related : α → α → Prop} (join : α → α → Pair)
    (joined : ∀ item item' other other', related item item' → related other other' →
      (join item other).Paired same (join item' other'))
    {lefts rights lefts' rights' : List α} (first : List.Forall₂ related lefts lefts')
    (second : List.Forall₂ related rights rights') :
    List.Forall₂ (Pair.Paired same) (List.zipWith join lefts rights) (List.zipWith join lefts' rights') := by
  induction first generalizing rights rights' with
  | nil => simp
  | cons head _ ih =>
    cases second with
    | nil => simp
    | cons head' tail' => exact .cons (joined _ _ _ _ head head') (ih tail')

theorem Value.parts?_of_isSingle (single : left.isSingle = true) (right : Value) :
    left.parts? right = none ∨ left.parts? right = some [] := by
  unfold Value.parts?
  split <;> simp_all [isSingle] <;> grind

theorem Value.parts?_paired (first : left.Paired same left') (second : right.Paired same right') :
    Option.Rel (List.Forall₂ (Pair.Paired same)) (left.parts? right) (left'.parts? right') := by
  cases first with
  | single single =>
    have swapped : left.parts? right = left.parts? right' := by
      cases second with
      | single => rfl
      | list | record => cases left <;> first | rfl | cases single
    rw [← swapped]
    rcases left.parts?_of_isSingle single right with none | some
    · rw [none]
      exact .none
    · rw [some]
      exact .some .nil
  | list each =>
    cases second with
    | single single => cases right <;> first | exact .none | cases single
    | record => exact .none
    | list each' =>
      simp only [parts?, each.length_eq, each'.length_eq]
      split
      · exact .some (forall₂_zipWith Pair.cells (fun _ _ _ _ => .cells) each each')
      · exact .none
  | record names each =>
    cases second with
    | single single => cases right <;> first | exact .none | cases single
    | list => exact .none
    | record names' each' =>
      simp only [parts?, names, names', ← List.zipWith_map]
      split
      · exact .some (forall₂_zipWith Pair.values (fun _ _ _ _ => .values) each each')
      · exact .none

namespace Task

theorem getElem?_paired {refs refs' : List Ref} (each : List.Forall₂ same refs refs') (place : Nat) :
    Option.Rel same refs[place]? refs'[place]? := by
  induction each generalizing place with
  | nil => exact .none
  | cons first _ ih =>
    cases place with
    | zero => exact .some first
    | succ place => exact ih place

theorem find?_paired (name : String) {fields fields' : List (String × Value)}
    (names : fields.map Prod.fst = fields'.map Prod.fst)
    (each : List.Forall₂ (Value.Paired same) (fields.map Prod.snd) (fields'.map Prod.snd)) :
    Option.Rel (fun entry entry' => entry.2.Paired same entry'.2) (fields.find? fun entry => entry.1 = name)
      (fields'.find? fun entry => entry.1 = name) := by
  induction fields generalizing fields' with
  | nil =>
    cases List.map_eq_nil_iff.mp names.symm
    exact .none
  | cons entry rest ih =>
    cases fields' with
    | nil => cases names
    | cons entry' rest' =>
      simp only [List.map_cons, List.cons.injEq] at names
      cases each with
      | cons first others =>
        simp only [List.find?_cons, ← names.1]
        split
        · exact .some first
        · exact ih names.2 others

theorem select_paired (first : left.Paired same left') (second : right.Paired same right') :
    (select left right).Paired same (select left' right') := by
  cases first with
  | single single => cases left <;> first | exact .fail _ | cases single
  | record => exact .fail _
  | @list elements elements' each =>
    cases second with
    | list | record => exact .fail _
    | single single =>
      cases right with
      | integer position =>
        have found := getElem?_paired each (position.toInt - 1).toNat
        simp only [select, element, each.length_eq]
        generalize elements[(position.toInt - 1).toNat]? = element at found
        generalize elements'[(position.toInt - 1).toNat]? = element' at found
        by_cases counted : 1 ≤ position
        · simp only [counted, if_true]
          cases found with
          | none => exact .fail _
          | some related => exact .defer related
        · simp only [counted, if_false]
          exact .fail _
      | _ => exact .fail _

theorem build_paired (type : String) (fields : List String) {values values' : List Value}
    (each : List.Forall₂ (Value.Paired same) values values') :
    (build type fields values).Paired same (build type fields values') := by
  simp only [build, each.length_eq]
  split
  · next counted =>
    refine .done (.record ?_ ?_)
    · rw [List.map_fst_zip (by simp [counted, each.length_eq]), List.map_fst_zip (by simp [counted])]
    · rw [List.map_snd_zip (by simp [counted, each.length_eq]), List.map_snd_zip (by simp [counted])]
      exact each
  · exact .fail _

theorem field_paired (name : String) (paired : value.Paired same value') :
    (field name value).Paired same (field name value') := by
  cases paired with
  | single single => cases value <;> first | exact .fail _ | cases single
  | list => exact .fail _
  | @record type fields fields' names each =>
    have found := find?_paired name names each
    simp only [field]
    generalize (fields.find? fun entry => entry.1 = name) = entry at found
    generalize (fields'.find? fun entry => entry.1 = name) = entry' at found
    cases found with
    | none => exact .fail _
    | some paired => exact .done paired

theorem shortCut_paired (op : LogicalOp) {ref ref' : Ref} (related : same ref ref') (paired : value.Paired same value') :
    (shortCut op ref value).Paired same (shortCut op ref' value') := by
  cases paired with
  | list | record => exact .fail _
  | single single =>
    cases value with
    | boolean left =>
      simp only [shortCut]
      split
      · exact .done (.single rfl)
      · refine .alloc (.pending (.cons related .nil) (.logical op (.single rfl))) fun _ _ _ _ related' => ?_
        exact .defer related'
    | _ => exact .fail _

theorem comparePairs_paired (negated : Bool) {pairs pairs' : List Pair}
    (each : List.Forall₂ (Pair.Paired same) pairs pairs') :
    (comparePairs negated pairs).Paired same (comparePairs negated pairs') := by
  cases each with
  | nil => exact .done (.single rfl)
  | @cons pair pair' rest rest' first others =>
    cases first with
    | cells first second =>
      refine Step.need_paired first fun same₁ value value' le paired => ?_
      refine Step.need_paired (le _ _ second) fun same₂ other other' le' paired' => ?_
      refine .become (.equality negated (.cons (.values (paired.mono le') paired') ?_))
      exact others.imp fun _ _ pairs => pairs.mono (le.trans le')
    | @values left right left' right' first second =>
      simp only [comparePairs]
      have parts := Value.parts?_paired first second
      generalize left.parts? right = found at parts
      generalize left'.parts? right' = found' at parts
      cases parts with
      | none => exact .done (.single rfl)
      | some parts => exact .become (.equality negated (List.rel_append parts others))

theorem compare_paired (op : ComparisonOp) (first : left.Paired same left') (second : right.Paired same right') :
    (compare op left right).Paired same (compare op left' right') := by
  have pairs (negated : Bool) : (comparePairs negated [.values left right]).Paired same
      (comparePairs negated [.values left' right']) :=
    comparePairs_paired negated (.cons (.values first second) .nil)
  cases op with
  | less =>
    simp only [compare, less, ordered_paired _ _ _ first second]
    exact Step.ofOutcome_paired (ordered_single _ _ _ left' right')
  | greater =>
    simp only [compare, greater, ordered_paired _ _ _ first second]
    exact Step.ofOutcome_paired (ordered_single _ _ _ left' right')
  | equal => exact pairs false
  | notEqual => exact pairs true

theorem run_paired {task task' : Task} {values values' : List Value} (tasks : task.Paired same task')
    (each : List.Forall₂ (Value.Paired same) values values') : (run task values).Paired same (run task' values') := by
  -- A number of values that the task does not wait for is the same fault on either side.
  cases tasks with
  | fail fault =>
    rcases each with _ | ⟨first, _⟩
    all_goals exact .fail _
  | create type fields => exact build_paired type fields each
  | index =>
    rcases each with _ | ⟨first, _ | ⟨second, _ | _⟩⟩
    case cons.cons.nil => exact select_paired first second
    all_goals exact .fail _
  | member name =>
    rcases each with _ | ⟨first, _ | _⟩
    case cons.nil => exact field_paired name first
    all_goals exact .fail _
  | unary op =>
    rcases each with _ | ⟨first, _ | _⟩
    case cons.nil =>
      simp only [run, op.apply_paired first]
      exact Step.ofOutcome_paired (op.apply_single _)
    all_goals exact .fail _
  | arithmetic op =>
    rcases each with _ | ⟨first, _ | ⟨second, _ | _⟩⟩
    case cons.cons.nil =>
      simp only [run, op.apply_paired first second]
      exact Step.ofOutcome_paired (op.apply_single _ _)
    all_goals exact .fail _
  | shortCircuit op right =>
    rcases each with _ | ⟨first, _ | _⟩
    case cons.nil => exact shortCut_paired op right first
    all_goals exact .fail _
  | logical op left =>
    rcases each with _ | ⟨first, _ | _⟩
    case cons.nil =>
      simp only [run, op.apply_paired left first]
      exact Step.ofOutcome_paired (op.apply_single _ _)
    all_goals exact .fail _
  | comparison op =>
    rcases each with _ | ⟨first, _ | ⟨second, _ | _⟩⟩
    case cons.cons.nil => exact compare_paired op first second
    all_goals exact .fail _
  | equality negated pairs =>
    rcases each with _ | ⟨first, _⟩
    case nil => exact comparePairs_paired negated pairs
    all_goals exact .fail _

end Task

end Steps

end ByNeed
