import ByNeed.Proofs.Heap.Fulfil
import ByNeed.Proofs.Strict.Tree

set_option autoImplicit false

-- The complete outcome of a cell, told without forcing anything from those of the cells it refers to.
namespace ByNeed

mutual

def Value.refs : Value → List Ref
  | .list elements => elements
  | .record _ fields => Value.refsOfFields fields
  | _ => []

def Value.refsOfFields : List (String × Value) → List Ref
  | [] => []
  | (_, value) :: rest => value.refs ++ Value.refsOfFields rest

end

mutual

def Value.tree (meaning : Ref → Complete) : Value → Tree
  | .integer value => .integer value
  | .float value => .float value
  | .string text => .string text
  | .boolean value => .boolean value
  | .list elements => .list (elements.map meaning)
  | .record type fields => .record type (Value.treesOfFields meaning fields)

def Value.treesOfFields (meaning : Ref → Complete) : List (String × Value) → List (String × Tree)
  | [] => []
  | (name, value) :: rest => (name, value.tree meaning) :: Value.treesOfFields meaning rest

end

section Congruence

variable {meaning meaning' : Ref → Complete}

mutual

theorem Value.tree_congr : ∀ value : Value, (∀ ref ∈ value.refs, meaning ref = meaning' ref) →
    value.tree meaning = value.tree meaning'
  | .integer _, _ | .float _, _ | .string _, _ | .boolean _, _ => rfl
  | .list elements, same => by
    simp only [Value.refs] at same
    simp only [Value.tree, List.map_congr_left same]
  | .record type fields, same => by
    simp only [Value.tree]
    rw [Value.treesOfFields_congr fields same]

theorem Value.treesOfFields_congr : ∀ fields : List (String × Value),
    (∀ ref ∈ Value.refsOfFields fields, meaning ref = meaning' ref) →
    Value.treesOfFields meaning fields = Value.treesOfFields meaning' fields
  | [], _ => rfl
  | (name, value) :: rest, same => by
    simp only [Value.refsOfFields, List.mem_append] at same
    simp only [Value.treesOfFields]
    rw [Value.tree_congr value fun ref member => same ref (.inl member),
      Value.treesOfFields_congr rest fun ref member => same ref (.inr member)]

end

theorem mapM_congr {α : Type} {read read' : Ref → Except Fault α} (refs : List Ref)
    (same : ∀ ref ∈ refs, read ref = read' ref) : refs.mapM read = refs.mapM read' := by
  induction refs with
  | nil => rfl
  | cons ref rest ih =>
    simp only [List.mapM_cons, same ref (by simp),
      ih fun other member => same other (by simp [member])]

theorem mem_of_mapM {α : Type} {read : Ref → Except Fault α} {refs : List Ref} {found : List α}
    {value : α} (got : refs.mapM read = .ok found) (member : value ∈ found) :
    ∃ ref ∈ refs, read ref = .ok value := by
  induction refs generalizing found with
  | nil =>
    cases got
    cases member
  | cons ref rest ih =>
    simp only [List.mapM_cons, bind, Except.bind, pure, Except.pure] at got
    cases first : read ref with
    | error fault => simp [first] at got
    | ok found₁ =>
      cases others : rest.mapM read with
      | error fault => simp [first, others] at got
      | ok found₂ =>
        simp only [first, others, Except.ok.injEq] at got
        subst got
        rcases List.mem_cons.mp member with rfl | member
        · exact ⟨ref, List.mem_cons_self, first⟩
        · obtain ⟨other, among, known⟩ := ih others member
          exact ⟨other, List.mem_cons_of_mem _ among, known⟩

end Congruence

structure Promise where
  complete : Complete
  rank : Nat

instance : Inhabited Promise :=
  ⟨⟨.error .dependsOnItself, 0⟩⟩

namespace Plan

variable {plan plan' : Plan Promise} {ref : Ref} {promise : Promise}

def meaning (plan : Plan Promise) (ref : Ref) : Complete :=
  (plan.promise ref).elim (.error .dependsOnItself) Promise.complete

theorem Promises.meaning (promises : plan.Promises ref promise) : plan.meaning ref = promise.complete := by
  rw [Plan.meaning, promises.2, Option.elim_some]

theorem Promises.meaning_extend (promises : plan.Promises ref promise) (extends' : plan.Extends plan') :
    plan'.meaning ref = plan.meaning ref := by
  rw [promises.meaning, (promises.extend extends').meaning]

end Plan

/-- What the tasks of a heap come to, told from the complete outcomes of the cells they have hold of and
of the values they wait for. There is room for the cells that a task makes on its way. -/
structure Reading (τ : Type) where
  refs : τ → List Ref
  complete : (Ref → Complete) → τ → List Tree → Complete
  room : (Ref → Complete) → τ → List Tree → Nat
  complete_congr : ∀ {meaning meaning' : Ref → Complete} (task : τ) (trees : List Tree),
    (∀ ref ∈ refs task, meaning ref = meaning' ref) → complete meaning task trees = complete meaning' task trees
  room_congr : ∀ {meaning meaning' : Ref → Complete} (task : τ) (trees : List Tree),
    (∀ ref ∈ refs task, meaning ref = meaning' ref) → room meaning task trees = room meaning' task trees

namespace Reading

variable {τ : Type} (reading : Reading τ)

def links : Cell τ → List Ref
  | .pending inputs task => inputs ++ reading.refs task
  | .delegated target => [target]
  | .forced value => value.refs
  | .running | .failed _ => []

def outcome (meaning : Ref → Complete) : Cell τ → Complete
  | .pending inputs task => do reading.complete meaning task (← inputs.mapM meaning)
  | .running => .error .dependsOnItself
  | .delegated target => meaning target
  | .forced value => .ok (value.tree meaning)
  | .failed fault => .error fault

def space (meaning : Ref → Complete) : Cell τ → Nat
  | .pending inputs task => (inputs.mapM meaning).toOption.elim 0 (reading.room meaning task)
  | _ => 0

structure Keeps (plan : Plan Promise) (promise : Promise) (cell : Cell τ) : Prop where
  idle : cell ≠ .running
  room : reading.space plan.meaning cell ≤ promise.rank
  lower : ∀ ref ∈ reading.links cell,
    ∃ other, plan.Promises ref other ∧ other.rank + reading.space plan.meaning cell < promise.rank
  outcome : reading.outcome plan.meaning cell = promise.complete

def terms : Terms τ Promise where
  rank := Promise.rank
  Keeps := reading.Keeps

/-- With any values for which there is room, the task leads its cell to the complete outcome that is
read off it. -/
def Describes (behaviour : Behaviour τ) : Prop :=
  ∀ (plan : Plan Promise) (promise : Promise) (task : τ) (values : List Value),
    reading.room plan.meaning task (values.map (Value.tree plan.meaning)) ≤ promise.rank →
    (∀ ref ∈ reading.refs task ++ values.flatMap Value.refs, ∃ other, plan.Promises ref other ∧
      other.rank + reading.room plan.meaning task (values.map (Value.tree plan.meaning)) < promise.rank) →
    reading.complete plan.meaning task (values.map (Value.tree plan.meaning)) = promise.complete →
    reading.terms.Realizes behaviour promise plan (behaviour task values)

section Laws

variable {reading} {plan plan' : Plan Promise} {promise : Promise} {cell : Cell τ} {meaning meaning' : Ref → Complete}

theorem outcome_congr (cell : Cell τ) (same : ∀ ref ∈ reading.links cell, meaning ref = meaning' ref) :
    reading.outcome meaning cell = reading.outcome meaning' cell := by
  cases cell with
  | pending inputs task =>
    simp only [links, List.mem_append] at same
    simp only [outcome]
    rw [mapM_congr inputs fun ref member => same ref (.inl member)]
    congr 1
    funext trees
    exact reading.complete_congr task trees fun ref member => same ref (.inr member)
  | delegated target => exact same target (by simp [links])
  | forced value => simp only [outcome, value.tree_congr same]
  | running | failed => rfl

theorem space_congr (cell : Cell τ) (same : ∀ ref ∈ reading.links cell, meaning ref = meaning' ref) :
    reading.space meaning cell = reading.space meaning' cell := by
  cases cell with
  | pending inputs task =>
    simp only [links, List.mem_append] at same
    simp only [space]
    rw [mapM_congr inputs fun ref member => same ref (.inl member)]
    congr 1
    funext trees
    exact reading.room_congr task trees fun ref member => same ref (.inr member)
  | _ => rfl

theorem Keeps.extend (keeps : reading.Keeps plan promise cell) (extends' : plan.Extends plan') :
    reading.Keeps plan' promise cell := by
  have same : ∀ ref ∈ reading.links cell, plan'.meaning ref = plan.meaning ref := by
    intro ref member
    obtain ⟨other, promises, _⟩ := keeps.lower ref member
    exact promises.meaning_extend extends'
  refine ⟨keeps.idle, space_congr cell same ▸ keeps.room, fun ref member => ?_,
    (outcome_congr cell same).trans keeps.outcome⟩
  obtain ⟨other, promises, lower⟩ := keeps.lower ref member
  exact ⟨other, promises.extend extends', (space_congr cell same).symm ▸ lower⟩

theorem keeps_ofOutcome {result : Outcome} (keeps : reading.Keeps plan promise (.ofOutcome result)) :
    result.map (Value.tree plan.meaning) = promise.complete := by
  have outcome := keeps.outcome
  cases result <;> exact outcome

theorem Keeps.take_over {other : Promise} {result : Outcome}
    (keeps : reading.Keeps plan other (.ofOutcome result)) (lower : other.rank < promise.rank)
    (same : other.complete = promise.complete) : reading.Keeps plan promise (.ofOutcome result) := by
  refine ⟨Cell.ofOutcome_ne_running result, Nat.le_trans keeps.room (Nat.le_of_lt lower),
    fun ref member => ?_, keeps.outcome.trans same⟩
  obtain ⟨third, promises, below⟩ := keeps.lower ref member
  exact ⟨third, promises, Nat.lt_trans below lower⟩

theorem mapM_tree {outcomes : Ref → Outcome} (inputs : List Ref)
    (each : ∀ input ∈ inputs, (outcomes input).map (Value.tree meaning) = meaning input) :
    inputs.mapM meaning = (inputs.mapM outcomes).map (List.map (Value.tree meaning)) := by
  induction inputs with
  | nil => rfl
  | cons input rest ih =>
    simp only [List.mapM_cons, ih fun other member => each other (List.mem_cons_of_mem input member),
      ← each input List.mem_cons_self]
    cases outcomes input with
    | error fault => rfl
    | ok value => cases rest.mapM outcomes <;> rfl

theorem Keeps.supplied {inputs : List Ref} {task : τ} {outcomes : Ref → Outcome}
    (keeps : reading.Keeps plan promise (.pending inputs task))
    (supplies : reading.terms.Supplies plan inputs outcomes) :
    inputs.mapM plan.meaning = (inputs.mapM outcomes).map (List.map (Value.tree plan.meaning)) := by
  refine mapM_tree inputs fun input member => ?_
  obtain ⟨other, promises, _⟩ := keeps.lower input (List.mem_append_left _ member)
  rw [promises.meaning]
  exact keeps_ofOutcome (supplies input member other promises)

theorem Describes.honoured {behaviour : Behaviour τ} (describes : reading.Describes behaviour) :
    reading.terms.Honoured behaviour where
  idle keeps := keeps.idle rfl
  extend := Keeps.extend
  awaited {plan promise cell} keeps other member := by
    have held : other ∈ reading.links cell := by
      cases cell <;> simp_all [Cell.awaits, links]
    obtain ⟨promise', promises, lower⟩ := keeps.lower other held
    exact ⟨promise', promises, Nat.lt_of_le_of_lt (Nat.le_add_right _ _) lower⟩
  delegated {plan promise promise' target outcome} keeps promises keeps' := by
    obtain ⟨other, promises'', lower⟩ := keeps.lower target (by simp [links])
    cases promises.unique promises''
    exact keeps'.take_over lower (promises.meaning.symm.trans keeps.outcome)
  failed {plan promise inputs task outcomes fault} keeps supplies failed := by
    refine ⟨by simp, Nat.zero_le _, by simp [links], ?_⟩
    have outcome := keeps.outcome
    rw [Reading.outcome, keeps.supplied supplies, failed] at outcome
    exact outcome
  performed {plan promise inputs task outcomes values} keeps supplies got := by
    have trees := keeps.supplied supplies
    rw [got] at trees
    have space : reading.space plan.meaning (.pending inputs task) =
        reading.room plan.meaning task (values.map (Value.tree plan.meaning)) := by
      rw [Reading.space, trees]
      rfl
    have outcome := keeps.outcome
    rw [Reading.outcome, trees] at outcome
    refine describes plan promise task values (space ▸ keeps.room) (fun ref member => ?_) outcome
    rw [← space]
    rcases List.mem_append.mp member with held | inside
    · exact keeps.lower ref (List.mem_append_right _ held)
    · obtain ⟨value, among, inside⟩ := List.mem_flatMap.mp inside
      obtain ⟨input, isInput, known⟩ := mem_of_mapM got among
      obtain ⟨other, promises, lower⟩ := keeps.lower input (List.mem_append_left _ isInput)
      have keeps' := supplies input isInput other promises
      rw [known] at keeps'
      obtain ⟨third, promises', below⟩ := keeps'.lower ref inside
      have below : third.rank + 0 < other.rank := below
      exact ⟨third, promises', by omega⟩

end Laws

section Steps

variable {reading} {behaviour : Behaviour τ} {plan : Plan Promise} {own : Promise}

theorem realizes_fail {fault : Fault} (same : .error fault = own.complete) :
    reading.terms.Realizes behaviour own plan (.fail fault) :=
  .fail ⟨by simp, Nat.zero_le _, by simp [links], same⟩

theorem realizes_done {value : Value} (under : ∀ ref ∈ value.refs, reading.terms.Under plan own.rank ref)
    (same : .ok (value.tree plan.meaning) = own.complete) :
    reading.terms.Realizes behaviour own plan (.done value) :=
  .done ⟨by simp, Nat.zero_le _, under, same⟩

theorem realizes_defer {target : Ref} (under : reading.terms.Under plan own.rank target)
    (same : plan.meaning target = own.complete) :
    reading.terms.Realizes behaviour own plan (.defer target) := by
  refine .defer ⟨by simp, Nat.zero_le _, fun ref member => ?_, same⟩
  rw [List.mem_singleton.mp member]
  exact under

theorem realizes_need {target : Ref} {use : Value → Step τ} (under : reading.terms.Under plan own.rank target)
    (failed : ∀ fault, plan.meaning target = .error fault → .error fault = own.complete)
    (later : ∀ plan' value, plan.Extends plan' → plan'.meaning target = .ok (value.tree plan'.meaning) →
      (∀ ref ∈ value.refs, reading.terms.Under plan' own.rank ref) →
      reading.terms.Realizes behaviour own plan' (use value)) :
    reading.terms.Realizes behaviour own plan (.need target use) := by
  obtain ⟨promise, promises, lower⟩ := under
  refine .demand promises lower fun plan' outcome extends' keeps => ?_
  have meaning := keeps_ofOutcome keeps
  rw [← (promises.extend extends').meaning] at meaning
  cases outcome with
  | error fault => exact realizes_fail (failed fault ((promises.meaning_extend extends').symm.trans meaning.symm))
  | ok value =>
    refine later plan' value extends' meaning.symm fun ref member => ?_
    obtain ⟨other, promises', below⟩ := keeps.lower ref member
    exact ⟨other, promises', Nat.lt_trans below lower⟩

end Steps

section Heaps

variable {reading} {heap : Heap τ} {ref : Ref} {promise promise' : Promise}

/-- No reference leads from the cell to a running one, to an address without a cell, or in a circle. -/
inductive Acyclic (reading : Reading τ) (heap : Heap τ) : Ref → Prop
  | intro {ref : Ref} (idle : heap.get ref ≠ .running)
    (inner : ∀ other ∈ reading.links (heap.get ref), Acyclic reading heap other) : Acyclic reading heap ref

-- There are finitely many cells, so a way through them that does not end comes back.
theorem wellFounded_of_no_circle (size : Nat) {step : Ref → Ref → Prop}
    (noCircle : ∀ ref, ¬ Relation.TransGen step ref ref) :
    WellFounded fun first second : Fin size => Relation.TransGen step second.val first.val := by
  let below (first second : Fin size) : Prop := Relation.TransGen step second.val first.val
  have : IsTrans (Fin size) below := ⟨fun _ _ _ first second => second.trans first⟩
  have : Std.Irrefl below := ⟨fun ref => noCircle ref.val⟩
  exact Finite.wellFounded_of_trans_of_irrefl below

theorem Acyclic.no_circle (acyclic : reading.Acyclic heap ref) :
    ¬ Relation.TransGen (fun ref other => other ∈ reading.links (heap.get ref)) ref ref := by
  induction acyclic with
  | @intro ref idle inner ih =>
    intro circle
    obtain ⟨other, refers, back⟩ := Relation.TransGen.head'_iff.mp circle
    exact ih other refers (.tail' back refers)

theorem Acyclic.reached {other : Ref} (acyclic : reading.Acyclic heap ref)
    (path : Relation.ReflTransGen (fun ref other => other ∈ reading.links (heap.get ref)) ref other) :
    reading.Acyclic heap other := by
  induction path with
  | refl => exact acyclic
  | tail _ refers ih => cases ih with | intro _ inner => exact inner _ refers

theorem acyclic_of_older (idle : ∀ ref, ref < heap.cells.size → heap.get ref ≠ .running)
    (older : ∀ ref, ref < heap.cells.size → ∀ other ∈ reading.links (heap.get ref), other < ref)
    (within : ref < heap.cells.size) : reading.Acyclic heap ref := by
  induction ref using Nat.strongRecOn with
  | ind ref ih =>
    refine .intro (idle ref within) fun other member => ?_
    have before := older ref within other member
    exact ih other before (Nat.lt_trans before within)

def promised (reading : Reading τ) (others : Ref → Promise) (cell : Cell τ) : Promise where
  complete := reading.outcome (fun ref => (others ref).complete) cell
  rank := ((reading.links cell).map fun ref => (others ref).rank).sum +
    reading.space (fun ref => (others ref).complete) cell + 1

theorem promised_congr {others others' : Ref → Promise} (cell : Cell τ)
    (same : ∀ ref ∈ reading.links cell, others ref = others' ref) :
    reading.promised others cell = reading.promised others' cell := by
  have complete : ∀ ref ∈ reading.links cell, (others ref).complete = (others' ref).complete :=
    fun ref member => by rw [same ref member]
  have ranks : (reading.links cell).map (fun ref => (others ref).rank) =
      (reading.links cell).map fun ref => (others' ref).rank :=
    List.map_congr_left fun ref member => by rw [same ref member]
  simp only [promised, outcome_congr cell complete, space_congr cell complete, ranks]

theorem keeps_promised {plan : Plan Promise} {others : Ref → Promise} {cell : Cell τ} (idle : cell ≠ .running)
    (each : ∀ ref ∈ reading.links cell, plan.Promises ref (others ref)) :
    reading.Keeps plan (reading.promised others cell) cell := by
  have same : ∀ ref ∈ reading.links cell, plan.meaning ref = (others ref).complete :=
    fun ref member => (each ref member).meaning
  refine ⟨idle, ?_, fun ref member => ⟨others ref, each ref member, ?_⟩, outcome_congr cell same⟩
  · simp only [promised, space_congr cell same]
    omega
  have among : (others ref).rank ∈ (reading.links cell).map fun ref => (others ref).rank :=
    List.mem_map_of_mem member
  have least := List.le_sum_of_mem among
  simp only [promised, space_congr cell same]
  omega

-- A new cell can be promised what is told from the cells it refers to.
theorem exists_keeps {plan : Plan Promise} {cell : Cell τ} (idle : cell ≠ .running)
    (known : ∀ ref ∈ reading.links cell, plan.Has ref) : ∃ promise, reading.Keeps plan promise cell := by
  have each (ref : Ref) (member : ref ∈ reading.links cell) :
      plan.Promises ref ((plan.promise ref).getD default) := by
    obtain ⟨promise, promises⟩ := known ref member
    rw [promises.2]
    exact promises
  exact ⟨_, keeps_promised idle each⟩

inductive Reads (reading : Reading τ) (heap : Heap τ) : Ref → Promise → Prop
  | intro {ref : Ref} {others : Ref → Promise} (idle : heap.get ref ≠ .running)
    (each : ∀ other ∈ reading.links (heap.get ref), Reads reading heap other (others other)) :
    Reads reading heap ref (reading.promised others (heap.get ref))

theorem Reads.unique (reads : reading.Reads heap ref promise) (reads' : reading.Reads heap ref promise') :
    promise = promise' := by
  induction reads generalizing promise' with
  | intro idle each ih =>
    cases reads' with
    | intro idle' each' => exact promised_congr _ fun other member => ih other member (each' other member)

theorem Acyclic.reads (acyclic : reading.Acyclic heap ref) : ∃ promise, reading.Reads heap ref promise := by
  induction acyclic with
  | intro idle inner ih =>
    choose! others each using ih
    exact ⟨_, .intro idle each⟩

open Classical in
noncomputable def plan (reading : Reading τ) (heap : Heap τ) : Plan Promise where
  size := heap.cells.size
  promise ref := if reads : ∃ promise, reading.Reads heap ref promise then some reads.choose else none

theorem promises_plan : (reading.plan heap).Promises ref promise ↔ reading.Reads heap ref promise := by
  constructor
  · rintro ⟨_, given⟩
    simp only [plan] at given
    split at given
    · next reads =>
      cases given
      exact reads.choose_spec
    · cases given
  · intro reads
    have inside : ref < heap.cells.size := by
      cases reads with | intro idle => exact Heap.inside_of_get_ne idle
    have found : ∃ promise, reading.Reads heap ref promise := ⟨promise, reads⟩
    refine ⟨inside, ?_⟩
    simp only [plan, found, dif_pos]
    exact congrArg some (found.choose_spec.unique reads)

theorem holds_plan (reading : Reading τ) (heap : Heap τ) : reading.terms.Holds (reading.plan heap) heap := by
  refine fun bound => ⟨rfl, fun {ref promise} promises _ => ?_⟩
  cases promises_plan.mp promises with
  | intro idle each =>
    exact keeps_promised idle fun other member => promises_plan.mpr (each other member)

theorem Acyclic.promised (acyclic : reading.Acyclic heap ref) : (reading.plan heap).Has ref := by
  obtain ⟨promise, reads⟩ := acyclic.reads
  exact ⟨promise, promises_plan.mpr reads⟩

end Heaps

end Reading

end ByNeed
