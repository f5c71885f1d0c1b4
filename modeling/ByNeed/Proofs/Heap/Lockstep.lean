import ByNeed.Proofs.Heap.Pairing
import ByNeed.Proofs.Heap.Turn

set_option autoImplicit false

-- In two heaps with paired cells, forcing paired cells takes the same course for any amount of fuel. Cells
-- that are not paired take no part in it, and the cells that are made are paired in the order in which
-- they are made.
namespace ByNeed

-- So many new addresses are paired too, in order and from the given ones on.
def widen (same : Ref → Ref → Prop) (size size' count : Nat) (ref ref' : Nat) : Prop :=
  same ref ref' ∨ ∃ place < count, ref = size + place ∧ ref' = size' + place

section Widen

variable {same : Ref → Ref → Prop} {size size' count count' : Nat}

theorem le_widen : same ≤ widen same size size' count :=
  fun _ _ => .inl

theorem widen_zero (same : Ref → Ref → Prop) (size size' : Nat) : widen same size size' 0 = same := by
  funext ref ref'
  simp [widen]

theorem widen_widen (same : Ref → Ref → Prop) (size size' count count' : Nat) :
    widen (widen same size size' count) (size + count) (size' + count) count' =
      widen same size size' (count + count') := by
  funext ref ref'
  apply propext
  constructor
  · rintro ((old | ⟨place, less, rfl, rfl⟩) | ⟨place, less, rfl, rfl⟩)
    · exact .inl old
    · exact .inr ⟨place, by omega, rfl, rfl⟩
    · exact .inr ⟨count + place, by omega, by omega, by omega⟩
  · rintro (old | ⟨place, less, rfl, rfl⟩)
    · exact .inl (.inl old)
    · by_cases first : place < count
      · exact .inl (.inr ⟨place, first, rfl, rfl⟩)
      · exact .inr ⟨place - count, by omega, by omega, by omega⟩

end Widen

namespace Heap

/-- Addresses are paired one to one, and the cells there are the same but for paired addresses in them. -/
structure Paired (same : Ref → Ref → Prop) (heap heap' : Heap Task) : Prop where
  inside : ∀ {ref ref' : Nat}, same ref ref' → ref < heap.cells.size ∧ ref' < heap'.cells.size
  unique : ∀ {ref ref' other other' : Nat}, same ref ref' → same other other' → (ref = other ↔ ref' = other')
  cells : ∀ {ref ref' : Ref}, same ref ref' → (heap.get ref).Paired same (heap'.get ref')

structure Lockstep (same : Ref → Ref → Prop) (heap heap' : Heap Task) (count : Nat) (heap₁ heap₁' : Heap Task) :
    Prop where
  paired : Paired (widen same heap.cells.size heap'.cells.size count) heap₁ heap₁'
  size : heap₁.cells.size = heap.cells.size + count
  size' : heap₁'.cells.size = heap'.cells.size + count
  kept : ∀ ref, ref < heap.cells.size → (∀ ref', ¬ same ref ref') → heap₁.get ref = heap.get ref
  kept' : ∀ ref', ref' < heap'.cells.size → (∀ ref, ¬ same ref ref') → heap₁'.get ref' = heap'.get ref'
  resumed : ∃ refs refs', List.Forall₂ (widen same heap.cells.size heap'.cells.size count) refs refs' ∧
    heap₁.resumed = refs ++ heap.resumed ∧ heap₁'.resumed = refs' ++ heap'.resumed

variable {same : Ref → Ref → Prop} {heap heap' heap₁ heap₁' heap₂ heap₂' : Heap Task} {ref ref' : Ref} {count count' : Nat}

theorem Lockstep.refl (paired : Paired same heap heap') : Lockstep same heap heap' 0 heap heap' where
  paired := (widen_zero _ _ _).symm ▸ paired
  size := rfl
  size' := rfl
  kept _ _ _ := rfl
  kept' _ _ _ := rfl
  resumed := ⟨[], [], .nil, rfl, rfl⟩

theorem Lockstep.trans (first : Lockstep same heap heap' count heap₁ heap₁')
    (second : Lockstep (widen same heap.cells.size heap'.cells.size count) heap₁ heap₁' count' heap₂ heap₂') :
    Lockstep same heap heap' (count + count') heap₂ heap₂' := by
  obtain ⟨refs, refs', each, resumed, resumed'⟩ := first.resumed
  obtain ⟨more, more', each', later, later'⟩ := second.resumed
  have paired := second.paired
  rw [first.size, first.size', widen_widen] at paired each'
  refine ⟨paired, by rw [second.size, first.size, Nat.add_assoc], by rw [second.size', first.size', Nat.add_assoc],
    fun ref inside single => ?_, fun ref' inside single => ?_, more ++ refs, more' ++ refs', ?_, ?_, ?_⟩
  · rw [second.kept ref (by rw [first.size]; omega), first.kept ref inside single]
    rintro ref' (old | ⟨place, _, rfl, _⟩)
    · exact single ref' old
    · omega
  · rw [second.kept' ref' (by rw [first.size']; omega), first.kept' ref' inside single]
    rintro ref (old | ⟨place, _, _, rfl⟩)
    · exact single ref old
    · omega
  · refine List.rel_append each' (each.imp ?_)
    rw [← widen_widen]
    exact le_widen
  · rw [later, resumed, List.append_assoc]
  · rw [later', resumed', List.append_assoc]

-- Paired cells are replaced by paired cells, while it may be recorded that their tasks are performed.
theorem Paired.replace (paired : Paired same heap heap') (related : same ref ref') {cell cell' : Cell Task}
    (cells : cell.Paired same cell') {resumed resumed' : List Ref}
    (recorded : ∃ refs refs', List.Forall₂ same refs refs' ∧ resumed = refs ++ heap.resumed ∧
      resumed' = refs' ++ heap'.resumed) :
    Lockstep same heap heap' 0 ⟨(heap.set ref cell).cells, resumed⟩ ⟨(heap'.set ref' cell').cells, resumed'⟩ := by
  obtain ⟨inside, inside'⟩ := paired.inside related
  have get (other : Ref) : Heap.get ⟨(heap.set ref cell).cells, resumed⟩ other = if ref = other then cell else heap.get other :=
    get_set heap cell inside other
  have get' (other : Ref) : Heap.get ⟨(heap'.set ref' cell').cells, resumed'⟩ other =
      if ref' = other then cell' else heap'.get other :=
    get_set heap' cell' inside' other
  refine ⟨?_, size_set heap ref cell, size_set heap' ref' cell', fun other _ single => ?_, fun other _ single => ?_, ?_⟩
  · rw [widen_zero]
    refine ⟨fun related => ?_, paired.unique, fun {other other'} related' => ?_⟩
    · simpa using paired.inside related
    · rw [get, get']
      have unique := paired.unique related related'
      by_cases here : ref = other
      · rw [if_pos here, if_pos (unique.mp here)]
        exact cells
      · rw [if_neg here, if_neg fun here' => here (unique.mpr here')]
        exact paired.cells related'
  · rw [get, if_neg]
    rintro rfl
    exact single ref' related
  · rw [get', if_neg]
    rintro rfl
    exact single ref related
  · rw [widen_zero]
    exact recorded

theorem Paired.set (paired : Paired same heap heap') (related : same ref ref') {cell cell' : Cell Task}
    (cells : cell.Paired same cell') : Lockstep same heap heap' 0 (heap.set ref cell) (heap'.set ref' cell') :=
  paired.replace related cells ⟨[], [], .nil, rfl, rfl⟩

theorem Paired.resume (paired : Paired same heap heap') (related : same ref ref') :
    Lockstep same heap heap' 0 (heap.resume ref) (heap'.resume ref') :=
  paired.replace related .running ⟨[ref], [ref'], .cons related .nil, rfl, rfl⟩

theorem Paired.push (paired : Paired same heap heap') {cell cell' : Cell Task} (cells : cell.Paired same cell') :
    Lockstep same heap heap' 1 (heap.push cell) (heap'.push cell') := by
  have only {ref ref' : Nat} : widen same heap.cells.size heap'.cells.size 1 ref ref' ↔
      same ref ref' ∨ (ref = heap.cells.size ∧ ref' = heap'.cells.size) := by
    simp [widen]
  refine ⟨⟨fun related => ?_, fun related related' => ?_, fun related => ?_⟩, size_push heap cell, size_push heap' cell',
    fun ref inside _ => get_push_of_lt heap cell inside, fun ref inside _ => get_push_of_lt heap' cell' inside,
    [], [], .nil, rfl, rfl⟩
  · simp only [size_push]
    rcases only.mp related with old | ⟨rfl, rfl⟩
    · have := paired.inside old
      omega
    · omega
  · rcases only.mp related with old | ⟨rfl, rfl⟩ <;> rcases only.mp related' with old' | ⟨rfl, rfl⟩
    · exact paired.unique old old'
    · have := paired.inside old
      omega
    · have := paired.inside old'
      omega
    · simp
  · rcases only.mp related with old | ⟨rfl, rfl⟩
    · rw [get_push_of_lt heap cell (paired.inside old).1, get_push_of_lt heap' cell' (paired.inside old).2]
      exact (paired.cells old).mono le_widen
    · rw [get_push_size, get_push_size]
      exact cells.mono le_widen

-- Two computations come to the same, but for the addresses of new cells.
inductive InStep {α : Type} (same : Ref → Ref → Prop) (heap heap' : Heap Task)
    (known : (Ref → Ref → Prop) → α → α → Prop) :
    EStateM.Result Interrupt (Heap Task) α → EStateM.Result Interrupt (Heap Task) α → Prop
  | ok {result result' : α} {count : Nat} {heap₁ heap₁' : Heap Task}
    (lockstep : Lockstep same heap heap' count heap₁ heap₁')
    (related : known (widen same heap.cells.size heap'.cells.size count) result result') :
    InStep same heap heap' known (.ok result heap₁) (.ok result' heap₁')
  | error {interrupt : Interrupt} {count : Nat} {heap₁ heap₁' : Heap Task}
    (lockstep : Lockstep same heap heap' count heap₁ heap₁') :
    InStep same heap heap' known (.error interrupt heap₁) (.error interrupt heap₁')

theorem InStep.after {α : Type} {known : (Ref → Ref → Prop) → α → α → Prop}
    {result result' : EStateM.Result Interrupt (Heap Task) α} (first : Lockstep same heap heap' count heap₁ heap₁')
    (later : InStep (widen same heap.cells.size heap'.cells.size count) heap₁ heap₁' known result result') :
    InStep same heap heap' known result result' := by
  cases later with
  | error second => exact .error (first.trans second)
  | ok second related =>
    refine .ok (first.trans second) ?_
    rwa [first.size, first.size', widen_widen] at related

-- A turn in which no cell is made.
theorem InStep.turn {α : Type} {known : (Ref → Ref → Prop) → α → α → Prop}
    {result result' : EStateM.Result Interrupt (Heap Task) α} (first : Lockstep same heap heap' 0 heap₁ heap₁')
    (later : Paired same heap₁ heap₁' → InStep same heap₁ heap₁' known result result') :
    InStep same heap heap' known result result' := by
  have paired := first.paired
  rw [widen_zero] at paired
  refine .after first ?_
  rw [widen_zero]
  exact later paired

section Reading

variable (paired : Paired same heap heap')
include paired

theorem Paired.settled? (related : same ref ref') :
    Option.Rel (Outcome.Paired same) (heap.settled? ref) (heap'.settled? ref') := by
  have cells := paired.cells related
  unfold Heap.settled?
  generalize heap.get ref = cell at cells
  generalize heap'.get ref' = cell' at cells
  cases cells with
  | forced values => exact .some (.forced values)
  | failed fault => exact .some (.failed fault)
  | pending | running | delegated => exact .none

theorem Paired.isSettled (related : same ref ref') : heap.isSettled ref = heap'.isSettled ref' := by
  have settled := paired.settled? related
  unfold Heap.isSettled
  generalize heap.settled? ref = found at settled
  generalize heap'.settled? ref' = found' at settled
  cases settled <;> rfl

theorem Paired.find? {inputs inputs' : List Ref} (each : List.Forall₂ same inputs inputs') :
    Option.Rel same (inputs.find? fun input => !heap.isSettled input)
      (inputs'.find? fun input => !heap'.isSettled input) := by
  induction each with
  | nil => exact .none
  | cons first _ ih =>
    simp only [List.find?_cons, paired.isSettled first]
    split
    · exact .some first
    · exact ih

-- Either all values are paired, or the first fault is the same.
theorem Paired.values {inputs inputs' : List Ref} (each : List.Forall₂ same inputs inputs') :
    (∃ fault, heap.values inputs = .error fault ∧ heap'.values inputs' = .error fault) ∨
      ∃ values values', heap.values inputs = .ok values ∧ heap'.values inputs' = .ok values' ∧
        List.Forall₂ (Value.Paired same) values values' := by
  induction each with
  | nil => exact .inr ⟨[], [], rfl, rfl, .nil⟩
  | @cons input input' rest rest' first _ ih =>
    have here : Outcome.Paired same ((heap.settled? input).getD (.error .dependsOnItself))
        ((heap'.settled? input').getD (.error .dependsOnItself)) := by
      have settled := paired.settled? first
      generalize heap.settled? input = found at settled
      generalize heap'.settled? input' = found' at settled
      cases settled with
      | none => exact .failed _
      | some outcomes => exact outcomes
    simp only [Heap.values, List.mapM_cons] at ih ⊢
    generalize (heap.settled? input).getD (.error .dependsOnItself) = outcome at here
    generalize (heap'.settled? input').getD (.error .dependsOnItself) = outcome' at here
    cases outcome with
    | error fault =>
      cases outcome' with
      | ok => cases here
      | error =>
        cases here
        exact .inl ⟨fault, rfl, rfl⟩
    | ok value =>
      cases outcome' with
      | error => cases here
      | ok value' =>
        cases here with
        | forced values =>
          rcases ih with ⟨fault, failed, failed'⟩ | ⟨others, others', got, got', each⟩
          · exact .inl ⟨fault, by rw [failed]; rfl, by rw [failed']; rfl⟩
          · exact .inr ⟨value :: others, value' :: others', by rw [got]; rfl, by rw [got']; rfl, .cons values each⟩

theorem Paired.read (related : same ref ref') :
    InStep same heap heap' Value.Paired (Heap.read ref heap) (Heap.read ref' heap') := by
  have settled := paired.settled? related
  unfold Heap.read
  generalize heap.settled? ref = found at settled
  generalize heap'.settled? ref' = found' at settled
  cases settled with
  | none => exact .error (.refl paired)
  | @some outcome outcome' outcomes =>
    cases outcome with
    | ok value =>
      cases outcome' with
      | ok value' =>
        cases outcomes with
        | forced values => exact .ok (.refl paired) (values.mono le_widen)
      | error => cases outcomes
    | error fault =>
      cases outcome' with
      | ok => cases outcomes
      | error =>
        cases outcomes
        exact .error (.refl paired)

end Reading

theorem InStep.bind {α β : Type} {known : (Ref → Ref → Prop) → α → α → Prop} {known' : (Ref → Ref → Prop) → β → β → Prop}
    {computation computation' : HeapM Task α} {next next' : α → HeapM Task β}
    (first : InStep same heap heap' known (computation heap) (computation' heap'))
    (second : ∀ count result result' heap₁ heap₁', Lockstep same heap heap' count heap₁ heap₁' →
      known (widen same heap.cells.size heap'.cells.size count) result result' →
      InStep (widen same heap.cells.size heap'.cells.size count) heap₁ heap₁' known' (next result heap₁)
        (next' result' heap₁')) :
    InStep same heap heap' known' ((computation >>= next) heap) ((computation' >>= next') heap') := by
  simp only [Bind.bind, EStateM.bind]
  generalize computation heap = ran at first
  generalize computation' heap' = ran' at first
  cases first with
  | error lockstep => exact .error lockstep
  | ok lockstep related => exact .after lockstep (second _ _ _ _ _ lockstep related)

-- What a task forces while it is performed takes the same course by assumption.
theorem perform_inStep {nested nested' : Ref → HeapM Task Value}
    (forces : ∀ same heap heap' ref ref', Paired same heap heap' → same ref ref' →
      InStep same heap heap' Value.Paired (nested ref heap) (nested' ref' heap'))
    (fuel : Nat) {step step' : Step Task} (paired : Paired same heap heap') (steps : step.Paired same step') :
    InStep same heap heap' Cell.Paired (perform Task.run nested fuel step heap)
      (perform Task.run nested' fuel step' heap') := by
  induction fuel generalizing same heap heap' step step' with
  | zero =>
    cases steps with
    | done values => exact .ok (.refl paired) (.forced (values.mono le_widen))
    | fail fault => exact .ok (.refl paired) (.failed fault)
    | defer targets => exact .ok (.refl paired) (.delegated (le_widen _ _ targets))
    | alloc | demand | become => exact .error (.refl paired)
  | succ fuel ih =>
    cases steps with
    | done values => exact .ok (.refl paired) (.forced (values.mono le_widen))
    | fail fault => exact .ok (.refl paired) (.failed fault)
    | defer targets => exact .ok (.refl paired) (.delegated (le_widen _ _ targets))
    | alloc origins later =>
      have first := paired.push origins
      exact .after first (ih first.paired (later _ _ _ le_widen (.inr ⟨0, Nat.one_pos, rfl, rfl⟩)))
    | become tasks => exact ih paired (Task.run_paired tasks .nil)
    | @demand _ target target' next next' targets later =>
      have first := forces same heap heap' target target' paired targets
      rw [perform, perform]
      generalize nested target heap = ran at first
      generalize nested' target' heap' = ran' at first
      cases first with
      | ok lockstep values => exact .after lockstep (ih lockstep.paired (later _ _ _ le_widen (.forced values)))
      | @error interrupt _ _ _ lockstep =>
        cases interrupt with
        | fault fault => exact .after lockstep (ih lockstep.paired (later _ _ _ le_widen (.failed fault)))
        | exhausted => exact .error lockstep

theorem drive_inStep (fuel : Nat) {stack stack' : List Ref} (paired : Paired same heap heap')
    (aligned : List.Forall₂ same stack stack') :
    InStep same heap heap' (fun _ _ _ => True) (drive Task.run fuel stack heap) (drive Task.run fuel stack' heap') := by
  induction fuel generalizing same heap heap' stack stack' with
  | zero => exact .error (.refl paired)
  | succ fuel ih =>
    cases aligned with
    | nil => exact .ok (.refl paired) trivial
    | @cons top top' rest rest' related others =>
      have aligned := List.Forall₂.cons related others
      have forces (same : Ref → Ref → Prop) (heap heap' : Heap Task) (ref ref' : Ref) (paired : Paired same heap heap')
          (related : same ref ref') :
          InStep same heap heap' Value.Paired (force Task.run fuel ref heap) (force Task.run fuel ref' heap') :=
        .bind (ih paired (.cons related .nil)) fun _ _ _ _ _ lockstep _ => lockstep.paired.read (le_widen _ _ related)
      have changed {cell cell' : Cell Task} (cells : cell.Paired same cell') :
          InStep same heap heap' (fun _ _ _ => True) (drive Task.run fuel (top :: rest) (heap.set top cell))
            (drive Task.run fuel (top' :: rest') (heap'.set top' cell')) :=
        .turn (paired.set related cells) fun paired => ih paired aligned
      rw [drive, drive]
      have cells := paired.cells related
      generalize found : heap.get top = cell at cells
      generalize found' : heap'.get top' = cell' at cells
      cases cells with
      | forced | failed => exact ih paired others
      | running => exact .error (.refl paired)
      | @delegated target target' targets =>
        have settled := paired.settled? targets
        simp only
        generalize heap.settled? target = known at settled
        generalize heap'.settled? target' = known' at settled
        cases settled with
        | none => exact ih paired (.cons targets aligned)
        | some outcomes => exact changed outcomes
      | @pending inputs inputs' task task' each tasks =>
        have opened := paired.find? each
        simp only
        generalize (inputs.find? fun input => !heap.isSettled input) = first at opened
        generalize (inputs'.find? fun input => !heap'.isSettled input) = first' at opened
        cases opened with
        | some input => exact ih paired (.cons input aligned)
        | none =>
          rcases paired.values each with ⟨fault, failed, failed'⟩ | ⟨values, values', got, got', supplied⟩
          · simp only [failed, failed']
            exact changed (.failed fault)
          · simp only [got, got']
            refine .turn (paired.resume related) fun resumed => ?_
            have performed := perform_inStep forces fuel resumed (Task.run_paired tasks supplied)
            unfold force at performed
            generalize perform Task.run _ fuel (Task.run task values) (heap.resume top) = ran at performed
            generalize perform Task.run _ fuel (Task.run task' values') (heap'.resume top') = ran' at performed
            cases performed with
            | ok lockstep cells =>
              refine .after lockstep (.turn (lockstep.paired.set (le_widen _ _ related) cells) fun paired => ?_)
              exact ih paired (aligned.imp le_widen)
            | error lockstep =>
              have put := lockstep.paired.set (le_widen _ _ related) ((Cell.Paired.pending each tasks).mono le_widen)
              exact .error (lockstep.trans put)

theorem force_inStep (fuel : Nat) (paired : Paired same heap heap') (related : same ref ref') :
    InStep same heap heap' Value.Paired (force Task.run fuel ref heap) (force Task.run fuel ref' heap') :=
  .bind (drive_inStep fuel paired (.cons related .nil)) fun _ _ _ _ _ lockstep _ =>
    lockstep.paired.read (le_widen _ _ related)

end Heap

end ByNeed
