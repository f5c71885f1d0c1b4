import ByNeed.Eval.Context
import ByNeed.Proofs.Heap.Invariant
import ByNeed.Proofs.Heap.Task

set_option autoImplicit false

-- A cell conforms to a registry if all records in the values that it holds, or that its task has captured,
-- have the fields that are registered for their type, and if its task makes only such records.
namespace ByNeed

inductive Value.Within (value : Value) : Value → Prop
  | self : Within value value
  | field {type : String} {fields : List (String × Value)} {entry : String × Value}
    (member : entry ∈ fields) (within : Within value entry.2) : Within value (.record type fields)

theorem Value.Within.trans {value inner outer : Value} (first : value.Within inner)
    (second : inner.Within outer) : value.Within outer := by
  induction second with
  | self => exact first
  | field member _ ih => exact .field member ih

def Registry.Extends (registry registry' : Registry) : Prop :=
  ∀ type fields, registry.fields? type = some fields → registry'.fields? type = some fields

theorem Registry.Extends.refl (registry : Registry) : registry.Extends registry :=
  fun _ _ defined => defined

theorem Registry.Extends.trans {registry registry' registry'' : Registry}
    (first : registry.Extends registry') (second : registry'.Extends registry'') :
    registry.Extends registry'' :=
  fun type fields defined => second type fields (first type fields defined)

theorem Registry.extends_define {registry registry' : Registry} {type : String} {fields : List String}
    (defined : registry.define type fields = .ok registry') : registry.Extends registry' := by
  intro other fields' found
  unfold Registry.define at defined
  by_cases known : registry.definitions.contains type = true
  · rw [if_pos known] at defined
    cases defined
  · rw [if_neg known] at defined
    cases defined
    have different : type ≠ other := by
      rintro rfl
      apply known
      rw [Std.TreeMap.contains_eq_isSome_getElem?]
      exact Option.isSome_of_eq_some found
    simpa [Registry.fields?, Std.TreeMap.getElem?_insert, different] using found

def Value.Conforms (registry : Registry) (value : Value) : Prop :=
  ∀ type fields, (Value.record type fields).Within value →
    registry.fields? type = some (fields.map Prod.fst)

def Pair.held : Pair → List Value
  | .cells _ _ => []
  | .values left right => [left, right]

def Task.held : Task → List Value
  | .logical _ left => [left]
  | .equality _ pairs => pairs.flatMap Pair.held
  | _ => []

def Cell.held : Cell Task → List Value
  | .forced value => [value]
  | .pending _ task => task.held
  | .running | .delegated _ | .failed _ => []

def Task.Makes (registry : Registry) : Task → Prop
  | .create type fields => registry.fields? type = some fields
  | _ => True

structure Task.Conforms (registry : Registry) (task : Task) : Prop where
  held : ∀ value ∈ task.held, value.Conforms registry
  makes : task.Makes registry

def Cell.Conforms (registry : Registry) : Cell Task → Prop
  | .forced value => value.Conforms registry
  | .pending _ task => task.Conforms registry
  | .running | .delegated _ | .failed _ => True

def Heap.Conforms (registry : Registry) (heap : Heap Task) : Prop :=
  ∀ ref, (heap.get ref).Conforms registry

variable {registry registry' : Registry}

section Values

variable {value : Value} {type : String} {fields : List (String × Value)}

theorem Value.conforms_of_isSingle (single : value.isSingle = true) : value.Conforms registry := by
  intro type fields within
  cases within <;> cases single

theorem Value.conforms_list (elements : List Ref) : (Value.list elements).Conforms registry := by
  intro type fields within
  cases within

theorem Value.conforms_record (defined : registry.fields? type = some (fields.map Prod.fst))
    (inner : ∀ entry ∈ fields, entry.2.Conforms registry) :
    (Value.record type fields).Conforms registry := by
  intro type' fields' within
  cases within with
  | self => exact defined
  | field member within => exact inner _ member type' fields' within

theorem Value.Conforms.field (conforms : (Value.record type fields).Conforms registry)
    {entry : String × Value} (member : entry ∈ fields) : entry.2.Conforms registry :=
  fun type' fields' within => conforms type' fields' (.field member within)

theorem Value.Conforms.within {inner : Value} (conforms : value.Conforms registry)
    (within : inner.Within value) : inner.Conforms registry :=
  fun type' fields' deeper => conforms type' fields' (deeper.trans within)

theorem Value.Conforms.mono (conforms : value.Conforms registry) (later : registry.Extends registry') :
    value.Conforms registry' :=
  fun type fields within => later type _ (conforms type fields within)

theorem Cell.conforms_pending {task : Task} {inputs : List Ref} (bare : task.held = [])
    (makes : task.Makes registry) : (Cell.pending inputs task).Conforms registry :=
  ⟨by simp [bare], makes⟩

theorem Cell.Conforms.of_held {cell : Cell Task} (conforms : cell.Conforms registry) :
    ∀ value ∈ cell.held, value.Conforms registry := by
  cases cell with
  | forced value => exact List.forall_mem_singleton.mpr conforms
  | pending inputs task => exact conforms.held
  | running | delegated | failed => exact nofun

theorem Cell.Conforms.mono {cell : Cell Task} (conforms : cell.Conforms registry)
    (later : registry.Extends registry') : cell.Conforms registry' := by
  cases cell with
  | forced value => exact Value.Conforms.mono conforms later
  | pending inputs task =>
    refine ⟨fun value member => (conforms.held value member).mono later, ?_⟩
    have makes := conforms.makes
    cases task with
    | create type fields => exact later type fields makes
    | _ => trivial
  | running | delegated | failed => trivial

end Values

section Tasks

theorem Step.conforms_ofOutcome {outcome : Outcome} (single : SingleOutcome outcome) :
    (Step.ofOutcome outcome).Good (Cell.Conforms registry) := by
  cases outcome with
  | error fault => trivial
  | ok value => exact Value.conforms_of_isSingle (single value rfl)

theorem Value.conforms_parts {left right : Value} {parts : List Pair}
    (found : left.parts? right = some parts) (first : left.Conforms registry)
    (second : right.Conforms registry) : ∀ value ∈ parts.flatMap Pair.held, value.Conforms registry := by
  intro value member
  obtain ⟨pair, among, inside⟩ := List.mem_flatMap.mp member
  rcases Value.part_cases found among with
    ⟨_, _, _, _, _, _, _, _, rfl⟩ | ⟨type, fields, type', fields', entry, entry', rfl, rfl, isFirst, isSecond, rfl⟩
  · cases inside
  · rcases List.mem_pair.mp inside with rfl | rfl
    · exact first.field isFirst
    · exact second.field isSecond

namespace Task

theorem select_conforms (collection position : Value) :
    (select collection position).Good (Cell.Conforms registry) := by
  unfold select
  split
  · unfold element
    simp only
    split <;> trivial
  · trivial
  · trivial

theorem build_conforms {type : String} {fields : List String} {values : List Value}
    (defined : registry.fields? type = some fields) (inner : ∀ value ∈ values, value.Conforms registry) :
    (build type fields values).Good (Cell.Conforms registry) := by
  unfold build
  split
  case isTrue counted =>
    apply Value.conforms_record
    · rw [List.map_fst_zip (Nat.le_of_eq counted.symm), defined]
    · intro entry member
      exact inner entry.2 (List.of_mem_zip member).2
  case isFalse => trivial

theorem field_conforms (name : String) {object : Value} (conforms : object.Conforms registry) :
    (field name object).Good (Cell.Conforms registry) := by
  unfold field
  split
  · split
    case h_1 found => exact conforms.field (List.mem_of_find?_eq_some found)
    case h_2 => trivial
  · trivial

theorem shortCut_conforms (op : LogicalOp) (right : Ref) (left : Value) :
    (shortCut op right left).Good (Cell.Conforms registry) := by
  unfold shortCut
  split
  case h_1 value =>
    have single : (Value.boolean value).Conforms registry := Value.conforms_of_isSingle rfl
    split
    · exact single
    · exact ⟨⟨List.forall_mem_singleton.mpr single, trivial⟩, fun _ => trivial⟩
  case h_2 => trivial

theorem comparePairs_conforms (negated : Bool) {pairs : List Pair}
    (inner : ∀ value ∈ pairs.flatMap Pair.held, value.Conforms registry) :
    (comparePairs negated pairs).Good (Cell.Conforms registry) := by
  unfold comparePairs
  split
  case h_1 => exact Value.conforms_of_isSingle rfl
  case h_2 left right rest =>
    refine Step.good_need fun value first => Step.good_need fun value' second => ⟨?_, trivial⟩
    exact List.forall_mem_cons.mpr ⟨first, List.forall_mem_cons.mpr ⟨second, inner⟩⟩
  case h_3 left right rest =>
    simp only [List.flatMap_cons, Pair.held, List.forall_mem_append, List.forall_mem_cons] at inner
    split
    case h_1 parts found =>
      refine ⟨?_, trivial⟩
      simp only [held, List.flatMap_append, List.forall_mem_append]
      exact ⟨Value.conforms_parts found inner.1.1 inner.1.2.1, inner.2⟩
    case h_2 => exact Value.conforms_of_isSingle rfl

theorem compare_conforms (op : ComparisonOp) {left right : Value} (first : left.Conforms registry)
    (second : right.Conforms registry) : (compare op left right).Good (Cell.Conforms registry) := by
  have both : ∀ value ∈ [Pair.values left right].flatMap Pair.held, value.Conforms registry := by
    simpa [Pair.held] using ⟨first, second⟩
  cases op with
  | less => exact Step.conforms_ofOutcome (ordered_single _ _ _ left right)
  | greater => exact Step.conforms_ofOutcome (ordered_single _ _ _ left right)
  | equal => exact comparePairs_conforms false both
  | notEqual => exact comparePairs_conforms true both

theorem run_conforms {task : Task} {values : List Value} (conforms : task.Conforms registry)
    (inner : ∀ value ∈ values, value.Conforms registry) : (run task values).Good (Cell.Conforms registry) := by
  unfold run
  split
  · trivial
  · exact select_conforms _ _
  · exact build_conforms conforms.makes inner
  · exact field_conforms _ (inner _ List.mem_cons_self)
  · exact Step.conforms_ofOutcome (UnaryOp.apply_single _ _)
  · exact Step.conforms_ofOutcome (ArithmeticOp.apply_single _ _ _)
  · exact shortCut_conforms _ _ _
  · exact Step.conforms_ofOutcome (LogicalOp.apply_single _ _ _)
  · exact compare_conforms _ (inner _ (by simp)) (inner _ (by simp))
  · exact comparePairs_conforms _ conforms.held
  · trivial

end Task

theorem Heap.conforms_robust (registry : Registry) : Heap.Robust Task.run (Cell.Conforms registry) where
  running := trivial
  failed _ := trivial
  preserves conforms _ inner := Task.run_conforms conforms inner

theorem Heap.Conforms.mono {heap : Heap Task} (conforms : heap.Conforms registry)
    (later : registry.Extends registry') : heap.Conforms registry' :=
  fun ref => (conforms ref).mono later

end Tasks

section Comparison

variable {type type' : String} {left right left' right' : List (String × Value)} {parts : List Pair}

theorem parts?_record (first : (Value.record type left).Conforms registry)
    (second : (Value.record type right).Conforms registry) :
    (Value.record type left).parts? (.record type right) =
      some (List.zipWith .values (left.map Prod.snd) (right.map Prod.snd)) := by
  have names : left.map Prod.fst = right.map Prod.fst :=
    Option.some.inj ((first type left .self).symm.trans (second type right .self))
  rw [Value.parts?, if_pos ⟨rfl, names⟩, List.zipWith_map]

-- The values are replaced by their parts, and nothing is left of them.
theorem comparePairs_record (negated : Bool)
    (found : (Value.record type left).parts? (.record type right) = some parts)
    (found' : (Value.record type' left').parts? (.record type' right') = some parts) :
    Task.comparePairs negated [.values (.record type left) (.record type right)] =
      Task.comparePairs negated [.values (.record type' left') (.record type' right')] := by
  simp only [Task.comparePairs, found, found']

end Comparison

section Access

variable {type name : String} {fields : List (String × Value)}

-- The first declared field of that name is the first one of the record.
theorem find?_of_declared (declared : name ∈ fields.map Prod.fst) :
    ∃ entry, fields.find? (fun entry => entry.1 = name) = some entry ∧
      (fields.map Prod.snd)[(fields.map Prod.fst).idxOf name]? = some entry.2 := by
  induction fields with
  | nil => cases declared
  | cons entry rest ih =>
    by_cases here : entry.1 = name
    · exact ⟨entry, by simp [here], by simp [here]⟩
    · have later : name ∈ rest.map Prod.fst := by simpa [Ne.symm here] using declared
      obtain ⟨found, first, place⟩ := ih later
      refine ⟨found, by simpa [here] using first, ?_⟩
      simpa [List.idxOf_cons_ne _ here] using place

theorem run_member (declared : name ∈ fields.map Prod.fst) :
    ∃ value, (fields.map Prod.snd)[(fields.map Prod.fst).idxOf name]? = some value ∧
      Task.run (.member name) [.record type fields] = .done value := by
  obtain ⟨entry, found, place⟩ := find?_of_declared declared
  refine ⟨entry.2, place, ?_⟩
  simp only [Task.run, Task.field, found]

theorem force_member {heap : Heap Task} {ref object : Ref} {record value : Value}
    (cell : heap.get ref = .pending [object] (.member name))
    (settled : heap.settled? object = some (.ok record))
    (accessed : Task.run (.member name) [record] = .done value) :
    ∃ heap', Eventually (fun fuel => Heap.force Task.run fuel ref) heap (.ok value heap') := by
  have inside : ref < heap.cells.size := Heap.inside_of_get_ne (by simp [cell])
  have ready : ∀ input ∈ [object], heap.isSettled input = true := by
    simp [Heap.isSettled, settled]
  have got : heap.values [object] = .ok [record] := by
    simp [Heap.values, settled]
  have performs := @Heap.performs_done Task Task.run value (heap.resume ref)
  rw [← accessed] at performs
  have performed : Heap.Moves Task.run [ref] heap [ref] _ := Heap.moves_perform cell ready got performs
  have settled' : ((heap.resume ref).set ref (.forced value)).settled? ref = some (.ok value) :=
    Heap.settled?_set_ofOutcome (by simpa using inside) (.ok value)
  exact ⟨_, (performed.trans (Heap.moves_pop (by simp [Heap.isSettled, settled']))).force settled'⟩

end Access

end ByNeed
