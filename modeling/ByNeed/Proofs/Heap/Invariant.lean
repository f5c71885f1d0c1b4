import ByNeed.Proofs.Heap.Complete

set_option autoImplicit false

-- A property of single cells that every step of a task keeps holds of all cells that forcing leads to. It
-- may be added to what cells are promised, or be shown by itself if a failed cell has it in any case.
namespace ByNeed

variable {τ π α β : Type}

/-- The cells that a step makes and the state in which it leaves its own are good, if the outcomes are
that it gets from cells it forces. A task to go on as is good in a cell that waits for nothing. -/
def Step.Good (good : Cell τ → Prop) : Step τ → Prop
  | .done value => good (.forced value)
  | .fail fault => good (.failed fault)
  | .defer target => good (.delegated target)
  | .alloc origin next => good origin.cell ∧ ∀ ref, (next ref).Good good
  | .demand _ next => ∀ outcome, good (.ofOutcome outcome) → (next outcome).Good good
  | .become task => good (.pending [] task)

def Behaviour.Preserves (behaviour : Behaviour τ) (good : Cell τ → Prop) : Prop :=
  ∀ {inputs : List Ref} {task : τ} {values : List Value}, good (.pending inputs task) →
    values.length = inputs.length → (∀ value ∈ values, good (.forced value)) → (behaviour task values).Good good

variable {behaviour : Behaviour τ} {good : Cell τ → Prop}

theorem Step.good_need {target : Ref} {use : Value → Step τ}
    (later : ∀ value, good (.forced value) → (use value).Good good) : (Step.need target use).Good good := by
  intro outcome known
  cases outcome with
  | ok value => exact later value known
  | error fault => exact known

theorem length_of_mapM {read : Ref → Except Fault α} {refs : List Ref} {found : List α}
    (got : refs.mapM read = .ok found) : found.length = refs.length := by
  induction refs generalizing found with
  | nil =>
    cases got
    rfl
  | cons ref rest ih =>
    simp only [List.mapM_cons, bind, Except.bind, pure, Except.pure] at got
    cases first : read ref with
    | error fault => simp [first] at got
    | ok value =>
      cases others : rest.mapM read with
      | error fault => simp [first, others] at got
      | ok values =>
        simp only [first, others, Except.ok.injEq] at got
        subst got
        simp [ih others]

theorem error_of_mapM {read : Ref → Except Fault α} {refs : List Ref} {fault : Fault}
    (failed : refs.mapM read = .error fault) : ∃ ref ∈ refs, read ref = .error fault := by
  induction refs with
  | nil => cases failed
  | cons ref rest ih =>
    simp only [List.mapM_cons, bind, Except.bind, pure, Except.pure] at failed
    cases first : read ref with
    | error fault' =>
      simp only [first] at failed
      cases failed
      exact ⟨ref, List.mem_cons_self, first⟩
    | ok value =>
      cases others : rest.mapM read with
      | error fault' =>
        simp only [first, others] at failed
        cases failed
        obtain ⟨other, member, known⟩ := ih others
        exact ⟨other, List.mem_cons_of_mem _ member, known⟩
      | ok values => simp [first, others] at failed

namespace Terms

variable {terms : Terms τ π} {plan : Plan π} {own promise : π} {heap : Heap τ}

def restrict (terms : Terms τ π) (good : Cell τ → Prop) : Terms τ π where
  rank := terms.rank
  Keeps plan promise cell := terms.Keeps plan promise cell ∧ good cell

theorem Realizes.restrict (preserves : behaviour.Preserves good) {step : Step τ}
    (realizes : terms.Realizes behaviour own plan step) (kept : step.Good good) :
    (terms.restrict good).Realizes behaviour own plan step := by
  induction realizes with
  | done keeps => exact .done ⟨keeps, kept⟩
  | fail keeps => exact .fail ⟨keeps, kept⟩
  | defer keeps => exact .defer ⟨keeps, kept⟩
  | @alloc plan _ _ promise lower keeps _ ih =>
    have lower : (terms.restrict good).rank promise < (terms.restrict good).rank own := lower
    exact .alloc lower ⟨keeps, kept.1⟩ (ih (kept.2 _))
  | @demand _ _ _ promise promises lower _ ih =>
    have lower : (terms.restrict good).rank promise < (terms.restrict good).rank own := lower
    exact .demand promises lower fun plan' outcome extends' keeps =>
      ih plan' outcome extends' keeps.1 (kept outcome keeps.2)
  | become _ ih => exact .become (ih (preserves kept rfl (by simp)))

theorem Honoured.restrict (honoured : terms.Honoured behaviour) (preserves : behaviour.Preserves good) :
    (terms.restrict good).Honoured behaviour := by
  -- What the inputs supply is good, since each of them is promised something.
  have supplied {plan : Plan π} {promise : π} {inputs : List Ref} {task : τ} {outcomes : Ref → Outcome}
      (keeps : (terms.restrict good).Keeps plan promise (.pending inputs task))
      (supplies : (terms.restrict good).Supplies plan inputs outcomes) :
      terms.Supplies plan inputs outcomes ∧ ∀ input ∈ inputs, good (.ofOutcome (outcomes input)) := by
    refine ⟨fun input member promise promises => (supplies input member promise promises).1, fun input member => ?_⟩
    obtain ⟨promise', promises, _⟩ := honoured.awaited keeps.1 input member
    exact (supplies input member promise' promises).2
  constructor
  · exact fun keeps => honoured.idle keeps.1
  · exact fun keeps extends' => ⟨honoured.extend keeps.1 extends', keeps.2⟩
  · exact fun keeps => honoured.awaited keeps.1
  · exact fun keeps promises keeps' => ⟨honoured.delegated keeps.1 promises keeps'.1, keeps'.2⟩
  · intro plan promise inputs task outcomes fault keeps supplies failed
    obtain ⟨supplies, each⟩ := supplied keeps supplies
    obtain ⟨input, member, known⟩ := error_of_mapM failed
    have failure := each input member
    rw [known] at failure
    exact ⟨honoured.failed keeps.1 supplies failed, failure⟩
  · intro plan promise inputs task outcomes values keeps supplies got
    obtain ⟨supplies, each⟩ := supplied keeps supplies
    refine (honoured.performed keeps.1 supplies got).restrict preserves
      (preserves keeps.2 (length_of_mapM got) fun value among => ?_)
    obtain ⟨input, member, known⟩ := mem_of_mapM got among
    have kept := each input member
    rw [known] at kept
    exact kept

theorem Holds.of_restrict (holds : (terms.restrict good).Holds plan heap) : terms.Holds plan heap :=
  fun bound => ⟨(holds bound).size, fun promises lower => ((holds bound).keeps promises lower).1⟩

end Terms

namespace Heap

variable {heap : Heap τ}

def Upholds (good : Cell τ → Prop) (known : α → Prop) : EStateM.Result Interrupt (Heap τ) α → Prop
  | .ok result heap => (∀ ref, good (heap.get ref)) ∧ known result
  | .error _ heap => ∀ ref, good (heap.get ref)

theorem upholds_bind {known : α → Prop} {known' : β → Prop} {computation : HeapM τ α}
    {next : α → HeapM τ β} (first : Upholds good known (computation heap))
    (second : ∀ result heap', (∀ ref, good (heap'.get ref)) → known result →
      Upholds good known' (next result heap')) : Upholds good known' ((computation >>= next) heap) := by
  simp only [Bind.bind, EStateM.bind]
  cases ran : computation heap with
  | error interrupt heap₁ =>
    rw [ran] at first
    exact first
  | ok result heap₁ =>
    rw [ran] at first
    exact second result heap₁ first.1 first.2

theorem good_set (all : ∀ ref, good (heap.get ref)) (ref : Ref) {cell : Cell τ} (kept : good cell)
    (other : Ref) : good ((heap.set ref cell).get other) := by
  by_cases inside : ref < heap.cells.size
  · rw [get_set heap cell inside]
    split
    · exact kept
    · exact all other
  · have outside : heap.cells.size ≤ ref := Nat.le_of_not_lt inside
    have same : heap.set ref cell = heap := by simp [set, Array.setIfInBounds, inside]
    rw [same]
    exact all other

theorem good_of_settled (all : ∀ ref, good (heap.get ref)) {ref : Ref} {outcome : Outcome}
    (known : heap.settled? ref = some outcome) : good (.ofOutcome outcome) :=
  get_of_settled? known ▸ all ref

theorem read_upholds (ref : Ref) (all : ∀ ref, good (heap.get ref)) :
    Upholds good (fun value => good (.forced value)) (read ref heap) := by
  unfold read
  cases known : heap.settled? ref with
  | none => exact all
  | some outcome =>
    have kept := good_of_settled all known
    cases outcome with
    | ok value => exact ⟨all, kept⟩
    | error fault => exact all

structure Robust (behaviour : Behaviour τ) (good : Cell τ → Prop) : Prop where
  running : good .running
  failed : ∀ fault, good (.failed fault)
  preserves : behaviour.Preserves good

section

variable (robust : Robust behaviour good)
include robust

theorem good_push (all : ∀ ref, good (heap.get ref)) {cell : Cell τ} (kept : good cell) (other : Ref) :
    good ((heap.push cell).get other) := by
  rcases Nat.lt_trichotomy other heap.cells.size with older | rfl | outside
  · rw [get_push_of_lt heap cell older]
    exact all other
  · rw [get_push_size]
    exact kept
  · rw [get_outside (by simpa using outside)]
    exact robust.running

theorem Performed.upholds {nested : Ref → HeapM τ Value} {step : Step τ}
    {result : EStateM.Result Interrupt (Heap τ) (Cell τ)}
    (forces : ∀ ref heap, (∀ other, good (heap.get other)) →
      Upholds good (fun value => good (.forced value)) (nested ref heap))
    (performed : Performed behaviour nested step heap result) (all : ∀ ref, good (heap.get ref))
    (kept : step.Good good) : Upholds good good result := by
  induction performed with
  | done | fail | defer => exact ⟨all, kept⟩
  | exhausted => exact all
  | alloc _ ih => exact ih (good_push robust all kept.1) (kept.2 _)
  | become _ ih => exact ih all (robust.preserves kept rfl (by simp))
  | @demand target _ heap _ outcome _ forced _ ih =>
    have nested := forces target heap all
    rw [forced] at nested
    cases outcome with
    | ok value => exact ih nested.1 (kept _ nested.2)
    | error fault => exact ih nested (kept _ (robust.failed fault))
  | @unforced target _ heap _ forced =>
    have nested := forces target heap all
    rwa [forced] at nested

theorem drive_upholds (fuel : Nat) (stack : List Ref) (all : ∀ ref, good (heap.get ref)) :
    Upholds good (fun _ => True) (drive behaviour fuel stack heap) := by
  induction fuel generalizing stack heap with
  | zero => exact all
  | succ fuel ih =>
    have forces (ref : Ref) (heap : Heap τ) (all : ∀ ref, good (heap.get ref)) :
        Upholds good (fun value => good (.forced value)) (force behaviour fuel ref heap) :=
      upholds_bind (ih [ref] all) fun _ heap' all' _ => read_upholds ref all'
    have steps {top : Ref} {inputs : List Ref} {task : τ} {values : List Value}
        (found : heap.get top = .pending inputs task) (got : heap.values inputs = .ok values) :
        good (.pending inputs task) ∧ (behaviour task values).Good good := by
      have cell := all top
      rw [found] at cell
      refine ⟨cell, robust.preserves cell (length_of_mapM got) fun value among => ?_⟩
      obtain ⟨input, _, known⟩ := mem_of_mapM got among
      cases settled : heap.settled? input with
      | none => simp [settled] at known
      | some outcome =>
        simp only [settled, Option.getD_some] at known
        cases known
        exact good_of_settled all settled
    have resumed (top : Ref) : ∀ ref, good ((heap.resume top).get ref) := good_set all top robust.running
    have turned := drive_turned behaviour fuel stack heap
    generalize drive behaviour (fuel + 1) stack heap = result at turned
    cases turned with
    | empty => exact ⟨all, trivial⟩
    | settled | waits => exact ih _ all
    | running => exact all
    | copied _ known => exact ih _ (good_set all _ (good_of_settled all known))
    | failed => exact ih _ (good_set all _ (robust.failed _))
    | @performed top _ _ _ _ _ _ _ found _ got performed =>
      have after := performed.upholds robust forces (resumed top) (steps found got).2
      exact ih _ (good_set after.1 top after.2)
    | @unperformed top _ _ _ _ _ _ found _ got performed =>
      have after := performed.upholds robust forces (resumed top) (steps found got).2
      exact good_set after top (steps found got).1

theorem force_upholds (fuel : Nat) (ref : Ref) (all : ∀ ref, good (heap.get ref)) :
    Upholds good (fun value => good (.forced value)) (force behaviour fuel ref heap) :=
  upholds_bind (drive_upholds robust fuel [ref] all) fun _ _ all' _ => read_upholds ref all'

theorem forceEach_upholds (fuel : Nat) (refs : List Ref) (found : List Value)
    (all : ∀ ref, good (heap.get ref)) :
    Upholds good (fun _ => True) (forceEach behaviour fuel refs found heap) := by
  induction refs generalizing heap found with
  | nil => exact ⟨all, trivial⟩
  | cons ref rest ih =>
    apply upholds_bind (force_upholds robust fuel ref all)
    intro value heap₁ all₁ _
    exact ih (value :: found) all₁

theorem deepen_upholds (limit fuel : Nat) (stack : List Value) (all : ∀ ref, good (heap.get ref)) :
    Upholds good (fun _ => True) (deepen behaviour limit fuel stack heap) := by
  induction fuel generalizing heap stack with
  | zero => exact all
  | succ fuel ih =>
    cases stack with
    | nil => exact ⟨all, trivial⟩
    | cons value rest =>
      cases value with
      | list elements =>
        apply upholds_bind (forceEach_upholds robust limit elements rest all)
        intro values heap₁ all₁ _
        exact ih values all₁
      | record type fields => exact ih _ all
      | _ => exact ih rest all

theorem forceDeep_upholds (fuel : Nat) (ref : Ref) (all : ∀ ref, good (heap.get ref)) :
    Upholds good (fun value => good (.forced value)) (forceDeep behaviour fuel ref heap) := by
  apply upholds_bind (force_upholds robust fuel ref all)
  intro value heap₁ all₁ held
  apply upholds_bind (deepen_upholds robust fuel fuel [value] all₁)
  intro _ heap₂ all₂ _
  exact ⟨all₂, held⟩

end

end Heap

end ByNeed
