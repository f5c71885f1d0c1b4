import ByNeed.Proofs.Heap.Display
import ByNeed.Proofs.Heap.Equality

set_option autoImplicit false

-- Forcing a value through and through ends with the deep fault of its tree if there is one. Otherwise every
-- cell inside the value is settled.
namespace ByNeed

theorem ok_of_bind {ε σ α β : Type} {computation : EStateM ε σ α} {next : α → EStateM ε σ β} {state state' : σ}
    {result : β} (ran : (computation >>= next) state = .ok result state') :
    ∃ value middle, computation state = .ok value middle ∧ next value middle = .ok result state' := by
  simp only [Bind.bind, EStateM.bind] at ran
  cases first : computation state with
  | error interrupt middle =>
    rw [first] at ran
    cases ran
  | ok value middle =>
    rw [first] at ran
    exact ⟨value, middle, rfl, ran⟩

namespace Heap

variable {τ : Type}

section Deepening

def Deepens (behaviour : Behaviour τ) (stack : List Value) (heap : Heap τ)
    (result : EStateM.Result Interrupt (Heap τ) Unit) : Prop :=
  ∃ bound, ∀ limit fuel, bound ≤ limit → bound ≤ fuel →
    deepen behaviour limit fuel stack heap = result

def ended {α : Type} (heap : Heap τ) : Except Fault α → EStateM.Result Interrupt (Heap τ) α
  | .ok result => .ok result heap
  | .error fault => .error (.fault fault) heap

variable {behaviour : Behaviour τ} {heap heap' : Heap τ} {rest : List Value}
  {result : EStateM.Result Interrupt (Heap τ) Unit}

-- One more turn in front of a stack that is dealt with.
theorem Deepens.turn {stack stack' : List Value}
    (later : Deepens behaviour stack' heap result)
    (turn : ∀ limit fuel, deepen behaviour limit (fuel + 1) stack heap =
      deepen behaviour limit fuel stack' heap) : Deepens behaviour stack heap result := by
  obtain ⟨bound, later⟩ := later
  refine ⟨bound + 1, fun limit fuel enough enough' => ?_⟩
  obtain ⟨fuel, rfl⟩ : ∃ spare, fuel = spare + 1 := ⟨fuel - 1, by omega⟩
  rw [turn]
  exact later limit fuel (by omega) (by omega)

theorem Deepens.list {refs : List Ref} {stack : List Value}
    (forced : Eventually (fun fuel => forceEach behaviour fuel refs rest) heap (.ok stack heap'))
    (later : Deepens behaviour stack heap' result) :
    Deepens behaviour (.list refs :: rest) heap result := by
  obtain ⟨bound, forced⟩ := forced
  obtain ⟨bound', later⟩ := later
  refine ⟨max bound bound' + 1, fun limit fuel enough enough' => ?_⟩
  obtain ⟨fuel, rfl⟩ : ∃ spare, fuel = spare + 1 := ⟨fuel - 1, by omega⟩
  have values := forced limit (by omega)
  simp only [deepen, bind, EStateM.bind, values]
  exact later limit fuel (by omega) (by omega)

theorem deepens_list_error {refs : List Ref} {interrupt : Interrupt}
    (forced : Eventually (fun fuel => forceEach behaviour fuel refs rest) heap
      (.error interrupt heap')) :
    Deepens behaviour (.list refs :: rest) heap (.error interrupt heap') := by
  obtain ⟨bound, forced⟩ := forced
  refine ⟨bound + 1, fun limit fuel enough enough' => ?_⟩
  obtain ⟨fuel, rfl⟩ : ∃ spare, fuel = spare + 1 := ⟨fuel - 1, by omega⟩
  have values := forced limit (by omega)
  simp only [deepen, bind, EStateM.bind, values]

theorem deepens_nil (behaviour : Behaviour τ) (heap : Heap τ) : Deepens behaviour [] heap (.ok () heap) := by
  refine ⟨1, fun limit fuel _ enough => ?_⟩
  obtain ⟨fuel, rfl⟩ : ∃ spare, fuel = spare + 1 := ⟨fuel - 1, by omega⟩
  rfl

theorem Deepens.deepen {stack : List Value} (deepens : Deepens behaviour stack heap result) :
    Eventually (fun fuel => deepen behaviour fuel fuel stack) heap result := by
  obtain ⟨bound, deepens⟩ := deepens
  exact ⟨bound, fun fuel enough => deepens fuel fuel enough enough⟩

end Deepening

section Full

variable {behaviour : Behaviour τ} {heap heap' : Heap τ} {value : Value} {ref : Ref} {limit : Nat}

theorem settled_of_force {fuel : Nat} (forced : force behaviour fuel ref heap = .ok value heap') :
    heap'.settled? ref = some (.ok value) := by
  obtain ⟨_, heap₁, _, last⟩ := ok_of_bind forced
  unfold read at last
  cases known : heap₁.settled? ref with
  | none =>
    rw [known] at last
    cases last
  | some outcome =>
    rw [known, Option.getD_some] at last
    cases outcome <;> cases last
    exact known

theorem forceEach_found {refs : List Ref} {rest found : List Value}
    (forced : forceEach behaviour limit refs rest heap = .ok found heap') :
    (∀ ref ∈ refs, ∃ inner ∈ found, heap'.settled? ref = some (.ok inner)) ∧
      ∀ value ∈ rest, value ∈ found := by
  induction refs generalizing rest heap with
  | nil =>
    cases forced
    exact ⟨nofun, fun _ member => member⟩
  | cons ref refs ih =>
    obtain ⟨value, heap₁, first, later⟩ := ok_of_bind forced
    obtain ⟨others, kept⟩ := ih later
    have settled := (forceEach_progress refs _ (.ok _ later)).keeps (settled_of_force first)
    refine ⟨List.forall_mem_cons.mpr ⟨⟨value, kept value List.mem_cons_self, settled⟩, others⟩, ?_⟩
    exact fun value member => kept value (List.mem_cons_of_mem _ member)

-- Each value is on the stack until its parts have taken its place.
theorem deepen_full {fuel : Nat} {stack : List Value}
    (ran : deepen behaviour limit fuel stack heap = .ok () heap') : ∀ value ∈ stack, heap'.Full value := by
  induction fuel generalizing stack heap with
  | zero => cases ran
  | succ fuel ih =>
    match stack with
    | [] => exact nofun
    | .list refs :: rest =>
      obtain ⟨found, heap₁, forced, later⟩ := ok_of_bind ran
      obtain ⟨each, kept⟩ := forceEach_found forced
      have full := ih later
      have others : ∀ value ∈ rest, heap'.Full value := fun value member => full value (kept value member)
      refine List.forall_mem_cons.mpr ⟨full_of_held fun ref member => ?_, others⟩
      obtain ⟨inner, among, settled⟩ := each ref member
      exact ⟨inner, (deepen_progress fuel found (.ok _ later)).keeps settled, full inner among⟩
    | .record type fields :: rest =>
      obtain ⟨entries, others⟩ := List.forall_mem_append.mp (ih ran)
      refine List.forall_mem_cons.mpr ⟨full_of_held fun ref member => ?_, others⟩
      obtain ⟨field, among, held⟩ := Value.mem_refsOfFields.mp member
      exact (entries field.2 (List.mem_reverse.mpr (List.mem_map_of_mem among))).held held
    | .integer _ :: rest | .float _ :: rest | .string _ :: rest | .boolean _ :: rest =>
      exact List.forall_mem_cons.mpr ⟨full_of_held (by simp [Value.refs]), ih ran⟩

theorem forceDeep_full {fuel : Nat} (ran : forceDeep behaviour fuel ref heap = .ok value heap') :
    heap'.Full value := by
  obtain ⟨value', heap₁, forced, later⟩ := ok_of_bind ran
  obtain ⟨_, heap₂, deepened, last⟩ := ok_of_bind later
  cases last
  exact deepen_full deepened value List.mem_cons_self

end Full

section Trees

variable {meaning : Ref → Complete}

theorem deepFaultOfElements_ok (values : List Tree) :
    Tree.deepFaultOfElements? (values.map .ok) = values.reverse.findSome? Tree.deepFault? := by
  induction values with
  | nil => rfl
  | cons value rest ih => simp [Tree.deepFaultOfElements?, ih, List.findSome?_append]

theorem deepFaultOfFields_eq (fields : List (String × Tree)) :
    Tree.deepFaultOfFields? fields = (fields.map Prod.snd).reverse.findSome? Tree.deepFault? := by
  induction fields with
  | nil => rfl
  | cons field rest ih => simp [Tree.deepFaultOfFields?, ih, List.findSome?_append]

theorem sizeOfElements_ok (values : List Tree) :
    (values.map Tree.size).sum ≤ Tree.sizeOfElements (values.map .ok) := by
  induction values with
  | nil => simp
  | cons value rest ih =>
    simp only [List.map_cons, List.sum_cons, Tree.sizeOfElements]
    omega

theorem sizeOfFields_eq (fields : List (String × Tree)) :
    ((fields.map Prod.snd).map Tree.size).sum = Tree.sizeOfFields fields := by
  induction fields with
  | nil => rfl
  | cons field rest ih => simp [Tree.sizeOfFields, ← ih]

def stackFault? (meaning : Ref → Complete) (stack : List Value) : Option Fault :=
  stack.findSome? fun value => (value.tree meaning).deepFault?

def stackSize (meaning : Ref → Complete) (stack : List Value) : Nat :=
  (stack.map fun value => (value.tree meaning).size).sum

theorem stackFault?_fields (type : String) (fields : List (String × Value)) (rest : List Value) :
    stackFault? meaning (.record type fields :: rest) =
      stackFault? meaning ((fields.map Prod.snd).reverse ++ rest) := by
  have fault : ((Value.record type fields).tree meaning).deepFault? =
      (fields.map Prod.snd).reverse.findSome? fun value => (value.tree meaning).deepFault? := by
    simp only [Value.tree, Tree.deepFault?, deepFaultOfFields_eq, Value.treesOfFields_eq_map,
      List.map_map, ← List.map_reverse, List.findSome?_map, Function.comp_def]
  simp only [stackFault?, List.findSome?_cons, List.findSome?_append, fault]
  cases (fields.map Prod.snd).reverse.findSome? fun value =>
    (value.tree meaning).deepFault? <;> rfl

theorem stackFault?_elements {refs : List Ref} {values : List Value} (rest : List Value)
    (all : refs.map meaning = (values.map (Value.tree meaning)).map .ok)
    (none : Tree.firstFault? (refs.map meaning) = none) :
    stackFault? meaning (.list refs :: rest) = stackFault? meaning (values.reverse ++ rest) := by
  have fault : ((Value.list refs).tree meaning).deepFault? =
      values.reverse.findSome? fun value => (value.tree meaning).deepFault? := by
    rw [Value.tree, Tree.deepFault?, none, Option.none_or, all, deepFaultOfElements_ok,
      ← List.map_reverse, List.findSome?_map]
    rfl
  simp only [stackFault?, List.findSome?_cons, List.findSome?_append, fault]
  cases values.reverse.findSome? fun value => (value.tree meaning).deepFault? <;> rfl

theorem stackSize_elements_lt {refs : List Ref} {values : List Value} (rest : List Value)
    (complete : refs.map meaning = (values.map (Value.tree meaning)).map .ok) :
    stackSize meaning (values.reverse ++ rest) < stackSize meaning (.list refs :: rest) := by
  have bound := sizeOfElements_ok (values.map (Value.tree meaning))
  rw [← complete] at bound
  simp only [stackSize, List.map_append, List.map_reverse, List.sum_append, List.sum_reverse,
    List.map_cons, List.sum_cons, Value.tree, Tree.size]
  simp only [List.map_map, Function.comp_def] at bound
  omega

theorem stackSize_fields_lt (type : String) (fields : List (String × Value)) (rest : List Value) :
    stackSize meaning ((fields.map Prod.snd).reverse ++ rest) <
      stackSize meaning (.record type fields :: rest) := by
  have bound := sizeOfFields_eq (Value.treesOfFields meaning fields)
  simp only [stackSize, List.map_append, List.map_reverse, List.sum_append, List.sum_reverse,
    List.map_cons, List.sum_cons, Value.tree, Tree.size, ← bound]
  simp only [Value.treesOfFields_eq_map, List.map_map, Function.comp_def]
  omega

theorem stackSize_lt (value : Value) (rest : List Value) :
    stackSize meaning rest < stackSize meaning (value :: rest) := by
  simp [stackSize, Tree.size_pos]

end Trees

end Heap

namespace Reading

variable {τ : Type} {reading : Reading τ} {behaviour : Behaviour τ} {plan plan' : Plan Promise}
  {heap heap' : Heap τ} {ref : Ref} {promise : Promise}

def Knows (plan : Plan Promise) (value : Value) : Prop :=
  ∀ ref ∈ value.refs, plan.Has ref

theorem Knows.extend {value : Value} (knows : Knows plan value) (extends' : plan.Extends plan') :
    Knows plan' value :=
  fun ref member => (knows ref member).extend extends'

theorem Knows.tree {value : Value} (knows : Knows plan value) (extends' : plan.Extends plan') :
    value.tree plan'.meaning = value.tree plan.meaning := by
  refine value.tree_congr fun ref member => ?_
  obtain ⟨promise, promises⟩ := knows ref member
  exact promises.meaning_extend extends'

theorem Knows.meanings {refs : List Ref} (knows : Knows plan (.list refs)) (extends' : plan.Extends plan') :
    refs.map plan'.meaning = refs.map plan.meaning := by
  refine List.map_congr_left fun ref member => ?_
  obtain ⟨promise, promises⟩ := knows ref member
  exact promises.meaning_extend extends'

theorem knows_fields {type : String} {fields : List (String × Value)} (knows : Knows plan (.record type fields)) :
    ∀ value ∈ (fields.map Prod.snd).reverse, Knows plan value := by
  intro value member ref held
  obtain ⟨field, among, rfl⟩ := List.mem_map.mp (List.mem_reverse.mp member)
  exact knows ref (Value.mem_refsOfFields.mpr ⟨field, among, held⟩)

theorem stack_extend {stack : List Value} (knows : ∀ value ∈ stack, Knows plan value)
    (extends' : plan.Extends plan') :
    Heap.stackFault? plan'.meaning stack = Heap.stackFault? plan.meaning stack ∧
      Heap.stackSize plan'.meaning stack = Heap.stackSize plan.meaning stack := by
  have same : stack.map (Value.tree plan'.meaning) = stack.map (Value.tree plan.meaning) :=
    List.map_congr_left fun value member => (knows value member).tree extends'
  constructor
  · simpa [Heap.stackFault?, List.findSome?_map, Function.comp_def] using congrArg (List.findSome? Tree.deepFault?) same
  · simpa [Heap.stackSize, List.map_map, Function.comp_def] using congrArg (fun trees => (trees.map Tree.size).sum) same

theorem Keeps.knows {value : Value} (keeps : reading.Keeps plan promise (.forced value)) : Knows plan value := by
  intro ref member
  obtain ⟨other, promises, _⟩ := keeps.lower ref member
  exact ⟨other, promises⟩

section Forcing

variable (describes : reading.Describes behaviour)
include describes

theorem force_eventually (holds : reading.terms.Holds plan heap) (promises : plan.Promises ref promise) :
    ∃ outcome plan' heap',
      Eventually (fun fuel => Heap.force behaviour fuel ref) heap (HeapM.ofOutcome outcome heap') ∧
      reading.terms.Grows plan heap plan' heap' ∧ heap.Finishes heap' ∧ heap'.settled? ref = some outcome ∧
      outcome.map (Value.tree plan'.meaning) = promise.complete ∧
      ∀ value, outcome = .ok value → Knows plan' value := by
  obtain ⟨outcome, plan', heap', forced, grows, finishes, known, keeps⟩ := holds.force describes.honoured promises
  refine ⟨outcome, plan', heap', forced, grows, finishes, known, keeps_ofOutcome keeps, ?_⟩
  rintro value rfl
  exact Keeps.knows keeps

inductive ForcedEach (plan : Plan Promise) (refs : List Ref) (plan' : Plan Promise) :
    Except Fault (List Value) → Prop
  | failed {fault : Fault} (first : Tree.firstFault? (refs.map plan.meaning) = some fault) :
    ForcedEach plan refs plan' (.error fault)
  | settled {values : List Value} (none : Tree.firstFault? (refs.map plan.meaning) = none)
    (trees : refs.map plan'.meaning = (values.map (Value.tree plan'.meaning)).map .ok)
    (knows : ∀ value ∈ values, Knows plan' value) : ForcedEach plan refs plan' (.ok values)

theorem forceEach_eventually (holds : reading.terms.Holds plan heap) (refs : List Ref)
    (each : Knows plan (.list refs)) (found : List Value) :
    ∃ result plan' heap', ForcedEach plan refs plan' result ∧ reading.terms.Grows plan heap plan' heap' ∧
      heap.Finishes heap' ∧ Eventually (fun fuel => Heap.forceEach behaviour fuel refs found) heap
        (heap'.ended (result.map fun values => values.reverse ++ found)) := by
  induction refs generalizing plan heap found with
  | nil =>
    exact ⟨.ok [], plan, heap, .settled rfl rfl nofun, .refl holds, .refl heap, eventually_of_forall fun _ => rfl⟩
  | cons ref rest ih =>
    obtain ⟨promise, promises⟩ := each ref List.mem_cons_self
    obtain ⟨outcome, plan₁, heap₁, forced, grows₁, finishes₁, _, complete, knows⟩ :=
      force_eventually describes holds promises
    rw [← promises.meaning] at complete
    cases outcome with
    | error fault =>
      refine ⟨.error fault, plan₁, heap₁, .failed ?_, grows₁, finishes₁, forced.bind_error⟩
      simp only [List.map_cons, ← complete, Except.map, Tree.firstFault?]
    | ok value =>
      have others : Knows plan (.list rest) := fun other member => each other (List.mem_cons_of_mem ref member)
      obtain ⟨result, plan₂, heap₂, forcedEach, grows₂, finishes₂, forced'⟩ :=
        ih grows₁.holds (others.extend grows₁.extends') (value :: found)
      have grows := grows₁.trans grows₂
      have finishes := finishes₁.trans finishes₂ (grows₁.size holds) fun _ => grows₂.isSettled
      have whole : Eventually (fun fuel => Heap.forceEach behaviour fuel (ref :: rest) found) heap
          (heap₂.ended (result.map fun values => values.reverse ++ value :: found)) := forced.bind forced'
      have first : Tree.firstFault? ((ref :: rest).map plan.meaning) =
          Tree.firstFault? (rest.map plan₁.meaning) := by
        have same := others.meanings grows₁.extends'
        simp only [List.map_cons, ← complete, Except.map, Tree.firstFault?, same]
      cases forcedEach with
      | @failed fault first' => exact ⟨.error fault, plan₂, heap₂, .failed (first.trans first'), grows, finishes, whole⟩
      | @settled values none trees knows' =>
        have tree := (knows value rfl).tree grows₂.extends'
        refine ⟨.ok (value :: values), plan₂, heap₂, .settled (first.trans none) ?_ ?_, grows, finishes, ?_⟩
        · rw [List.map_cons, trees, List.map_cons, List.map_cons, promises.meaning_extend grows.extends',
            ← complete, tree]
          rfl
        · exact List.forall_mem_cons.mpr ⟨(knows value rfl).extend grows₂.extends', knows'⟩
        · simpa [Heap.ended, Except.map] using whole

theorem deepen_eventually (holds : reading.terms.Holds plan heap) (stack : List Value)
    (knows : ∀ value ∈ stack, Knows plan value) :
    ∃ plan' heap', reading.terms.Grows plan heap plan' heap' ∧ heap.Finishes heap' ∧
      Heap.Deepens behaviour stack heap
        (heap'.ended ((Heap.stackFault? plan.meaning stack).elim (.ok ()) .error)) := by
  -- Each turn replaces the top of the stack by its parts, which are smaller together.
  induction size : Heap.stackSize plan.meaning stack using Nat.strongRecOn generalizing plan heap stack with
  | ind total smaller =>
    subst size
    match stack with
    | [] => exact ⟨plan, heap, .refl holds, .refl heap, Heap.deepens_nil behaviour heap⟩
    | .list refs :: rest =>
      obtain ⟨here, others⟩ := List.forall_mem_cons.mp knows
      obtain ⟨result, plan₁, heap₁, forcedEach, grows₁, finishes₁, forced⟩ :=
        forceEach_eventually describes holds refs here rest
      cases forcedEach with
      | @failed fault first =>
        refine ⟨plan₁, heap₁, grows₁, finishes₁, ?_⟩
        have found : Heap.stackFault? plan.meaning (.list refs :: rest) = some fault := by
          simp [Heap.stackFault?, Value.tree, Tree.deepFault?, first]
        rw [found]
        exact Heap.deepens_list_error forced
      | @settled values none trees knows₁ =>
        have same := stack_extend knows grows₁.extends'
        have less : Heap.stackSize plan₁.meaning (values.reverse ++ rest) <
            Heap.stackSize plan.meaning (.list refs :: rest) := by
          rw [← same.2]
          exact Heap.stackSize_elements_lt rest trees
        have parts : ∀ value ∈ values.reverse ++ rest, Knows plan₁ value := by
          refine List.forall_mem_append.mpr ⟨fun value member => knows₁ value (List.mem_reverse.mp member), ?_⟩
          exact fun value member => (others value member).extend grows₁.extends'
        obtain ⟨plan₂, heap₂, grows₂, finishes₂, deepens⟩ := smaller _ less grows₁.holds _ parts rfl
        have fault : Heap.stackFault? plan.meaning (.list refs :: rest) =
            Heap.stackFault? plan₁.meaning (values.reverse ++ rest) := by
          rw [← same.1]
          refine Heap.stackFault?_elements rest trees ?_
          rw [Knows.meanings here grows₁.extends']
          exact none
        rw [fault]
        exact ⟨plan₂, heap₂, grows₁.trans grows₂,
          finishes₁.trans finishes₂ (grows₁.size holds) fun _ => grows₂.isSettled, .list forced deepens⟩
    | .record type fields :: rest =>
      obtain ⟨here, others⟩ := List.forall_mem_cons.mp knows
      have parts : ∀ value ∈ (fields.map Prod.snd).reverse ++ rest, Knows plan value :=
        List.forall_mem_append.mpr ⟨knows_fields here, others⟩
      obtain ⟨plan', heap', grows, finishes, deepens⟩ :=
        smaller _ (Heap.stackSize_fields_lt type fields rest) holds _ parts rfl
      rw [Heap.stackFault?_fields]
      exact ⟨plan', heap', grows, finishes, deepens.turn fun _ _ => rfl⟩
    | .integer _ :: rest | .float _ :: rest | .string _ :: rest | .boolean _ :: rest =>
      obtain ⟨plan', heap', grows, finishes, deepens⟩ :=
        smaller _ (Heap.stackSize_lt _ rest) holds rest (fun value member => knows value (by simp [member])) rfl
      exact ⟨plan', heap', grows, finishes, deepens.turn fun _ _ => rfl⟩

inductive DeepOutcome (promise : Promise) (plan' : Plan Promise) (heap' : Heap τ) (ref : Ref) : Outcome → Prop
  | failed {fault : Fault} (complete : promise.complete = .error fault) :
    DeepOutcome promise plan' heap' ref (.error fault)
  | deepFailed {tree : Tree} {fault : Fault} (complete : promise.complete = .ok tree)
    (found : tree.deepFault? = some fault) : DeepOutcome promise plan' heap' ref (.error fault)
  | full {value : Value} (complete : promise.complete = .ok (value.tree plan'.meaning))
    (none : (value.tree plan'.meaning).deepFault? = none) (knows : Knows plan' value)
    (known : heap'.settled? ref = some (.ok value)) (full : heap'.Full value) :
    DeepOutcome promise plan' heap' ref (.ok value)

theorem forceDeep_eventually (holds : reading.terms.Holds plan heap) (promises : plan.Promises ref promise) :
    ∃ outcome plan' heap', DeepOutcome promise plan' heap' ref outcome ∧
      reading.terms.Grows plan heap plan' heap' ∧ heap.Finishes heap' ∧
      Eventually (fun fuel => Heap.forceDeep behaviour fuel ref) heap (HeapM.ofOutcome outcome heap') := by
  obtain ⟨outcome, plan₁, heap₁, forced, grows₁, finishes₁, known, complete, knows⟩ :=
    force_eventually describes holds promises
  cases outcome with
  | error fault =>
    exact ⟨.error fault, plan₁, heap₁, .failed complete.symm, grows₁, finishes₁, forced.bind_error⟩
  | ok value =>
    have knows := knows value rfl
    obtain ⟨plan₂, heap₂, grows₂, finishes₂, deepens⟩ :=
      deepen_eventually describes grows₁.holds [value] (by simpa using knows)
    have grows := grows₁.trans grows₂
    have finishes := finishes₁.trans finishes₂ (grows₁.size holds) fun _ => grows₂.isSettled
    have looked := deepens.deepen
    have single : Heap.stackFault? plan₁.meaning [value] = (value.tree plan₁.meaning).deepFault? := by
      simp [Heap.stackFault?]
    rw [single] at looked
    cases found : (value.tree plan₁.meaning).deepFault? with
    | some fault =>
      rw [found] at looked
      exact ⟨.error fault, plan₂, heap₂, .deepFailed complete.symm found, grows, finishes,
        forced.bind looked.bind_error⟩
    | none =>
      rw [found] at looked
      have ran : Eventually (fun fuel => Heap.forceDeep behaviour fuel ref) heap (.ok value heap₂) :=
        forced.bind (looked.bind (eventually_of_forall fun _ => rfl))
      obtain ⟨bound, all⟩ := ran
      have tree := knows.tree grows₂.extends'
      refine ⟨.ok value, plan₂, heap₂, .full ?_ (tree ▸ found) (knows.extend grows₂.extends')
        (grows₂.keeps known) (Heap.forceDeep_full (all bound (Nat.le_refl _))), grows, finishes, bound, all⟩
      rw [tree]
      exact complete.symm

end Forcing

end Reading

end ByNeed
