import ByNeed.Heap.Script
import ByNeed.Proofs.Heap.Turn

set_option autoImplicit false

-- While a task is performed it may force any cell, also a cell that waits for its own one, or its own.
-- Such a force finds a running cell and gives up. What carries the proofs is that a running cell is
-- left alone by everybody except the performance of its own task.
namespace ByNeed

variable {τ : Type}

def Cell.isPending : Cell τ → Bool
  | .pending _ _ => true
  | _ => false

theorem Cell.isPending_ofOutcome (outcome : Outcome) : (ofOutcome outcome : Cell τ).isPending = false := by
  cases outcome <;> rfl

namespace Heap

def Runs (heap : Heap τ) (ref : Ref) : Prop :=
  ref < heap.cells.size ∧ heap.get ref = .running

def Idle (heap : Heap τ) : Prop :=
  ∀ ref, ¬ heap.Runs ref

-- No cell waits for an address without a cell.
def Closed (heap : Heap τ) : Prop :=
  ∀ ref, ref < heap.cells.size → ∀ other ∈ (heap.get ref).awaits, other < heap.cells.size

instance (heap : Heap τ) : Decidable heap.Closed :=
  inferInstanceAs (Decidable (∀ ref, ref < heap.cells.size →
    ∀ other ∈ (heap.get ref).awaits, other < heap.cells.size))

-- No task was performed twice, and none of those performed is waiting to be performed.
def Once (heap : Heap τ) : Prop :=
  heap.resumed.Nodup ∧
    ∀ ref ∈ heap.resumed, ref < heap.cells.size ∧ (heap.get ref).isPending = false

-- What happens to a heap between two moments at which the same tasks are being performed.
structure Progress (heap heap' : Heap τ) : Prop where
  size : heap.cells.size ≤ heap'.cells.size
  settled : ∀ ref, heap.isSettled ref = true → heap'.get ref = heap.get ref
  runs : ∀ ref, heap'.Runs ref ↔ heap.Runs ref
  once : heap.Once → heap'.Once

section Progress

variable {heap heap' heap'' : Heap τ} {ref : Ref}

theorem Progress.refl (heap : Heap τ) : heap.Progress heap where
  size := Nat.le_refl _
  settled _ _ := rfl
  runs _ := Iff.rfl
  once once := once

theorem Progress.isSettled (progress : heap.Progress heap')
    (settled : heap.isSettled ref = true) : heap'.isSettled ref = true := by
  unfold Heap.isSettled Heap.settled? at *
  rw [progress.settled ref settled]
  exact settled

theorem Progress.trans (first : heap.Progress heap')
    (second : heap'.Progress heap'') : heap.Progress heap'' where
  size := Nat.le_trans first.size second.size
  settled ref settled :=
    (second.settled ref (first.isSettled settled)).trans (first.settled ref settled)
  runs ref := (second.runs ref).trans (first.runs ref)
  once once := second.once (first.once once)

theorem Progress.idle (progress : heap.Progress heap') (idle : heap.Idle) : heap'.Idle :=
  fun ref runs => idle ref ((progress.runs ref).mp runs)

theorem Once.set (once : heap.Once) {cell : Cell τ} (inside : ref < heap.cells.size)
    (performed : cell.isPending = false) : (heap.set ref cell).Once := by
  refine ⟨once.1, fun other member => ?_⟩
  rw [size_set, get_set heap cell inside]
  refine ⟨(once.2 other member).1, ?_⟩
  by_cases same : ref = other
  · simp [same, performed]
  · simp [same, (once.2 other member).2]

theorem Once.resume (once : heap.Once) (suspended : (heap.get ref).isPending = true) :
    (heap.resume ref).Once := by
  have inside : ref < heap.cells.size := by
    apply inside_of_get_ne
    intro running
    simp [running, Cell.isPending] at suspended
  have new : ref ∉ heap.resumed := by
    intro member
    simp [(once.2 ref member).2] at suspended
  refine ⟨List.nodup_cons.mpr ⟨new, once.1⟩, fun other member => ?_⟩
  have inside' : other < heap.cells.size := by
    rcases List.mem_cons.mp member with rfl | older
    · exact inside
    · exact (once.2 other older).1
  refine ⟨by simpa [Heap.resume] using inside', ?_⟩
  rw [get_resume heap inside]
  by_cases same : ref = other
  · simp [same, Cell.isPending]
  · have older : other ∈ heap.resumed := by
      rcases List.mem_cons.mp member with rfl | older
      · exact absurd rfl same
      · exact older
    simp [same, (once.2 other older).2]

theorem progress_set {cell : Cell τ} (unsettled : heap.isSettled ref = false)
    (idle : heap.get ref ≠ .running) (other : cell ≠ .running) (performed : cell.isPending = false) :
    heap.Progress (heap.set ref cell) := by
  have inside := inside_of_get_ne idle
  refine ⟨by simp, fun third settled => ?_, fun third => ?_, fun once => once.set inside performed⟩
  · rw [get_set heap cell inside, if_neg]
    rintro rfl
    simp [unsettled] at settled
  · unfold Runs
    rw [size_set, get_set heap cell inside]
    by_cases same : ref = third
    · subst same
      simp [other, idle]
    · simp [same]

theorem progress_push (origin : Fresh τ) : heap.Progress (heap.push origin.cell) := by
  have idle := origin.cell_ne_running
  refine ⟨by simp, fun ref settled => ?_, fun ref => ?_, fun once => ⟨once.1, fun ref member => ?_⟩⟩
  · exact get_push_of_lt heap _ (inside_of_settled settled)
  · unfold Runs
    rw [size_push]
    rcases Nat.lt_trichotomy ref heap.cells.size with inside | rfl | outside
    · simp [get_push_of_lt heap _ inside, inside, Nat.lt_succ_of_lt inside]
    · simp [idle]
    · have beyond : ¬ ref < heap.cells.size + 1 := Nat.not_lt_of_le outside
      simp [beyond, Nat.not_lt_of_lt outside]
  · have older := once.2 ref member
    rw [size_push, get_push_of_lt heap _ older.1]
    exact ⟨Nat.lt_succ_of_lt older.1, older.2⟩

-- A task is performed: its cell runs from the first moment to the last, whatever else happens.
theorem Progress.perform {cell : Cell τ} (suspended : (heap.get ref).isPending = true)
    (progress : (heap.resume ref).Progress heap') (other : cell ≠ .running)
    (performed : cell.isPending = false) : heap.Progress (heap'.set ref cell) := by
  have idle : heap.get ref ≠ .running := by
    intro running
    simp [running, Cell.isPending] at suspended
  have inside := inside_of_get_ne idle
  have size := size_resume heap ref
  have inside' : ref < heap'.cells.size := Nat.lt_of_lt_of_le inside (size ▸ progress.size)
  refine ⟨?_, fun third settled => ?_, fun third => ?_, fun once => ?_⟩
  · rw [size_set, ← size]
    exact progress.size
  · have different : ref ≠ third := by
      rintro rfl
      unfold Heap.isSettled Heap.settled? at settled
      cases found : heap.get ref <;> simp_all [Cell.isPending, Cell.settled?]
    rw [get_set heap' cell inside', if_neg different, progress.settled third, get_resume heap inside,
      if_neg different]
    unfold Heap.isSettled Heap.settled? at *
    rw [get_resume heap inside, if_neg different]
    exact settled
  · by_cases same : ref = third
    · subst same
      simp [Runs, get_set heap' cell inside', other, idle]
    · have kept := progress.runs third
      unfold Runs at *
      rw [get_resume heap inside, if_neg same, size] at kept
      rw [size_set, get_set heap' cell inside', if_neg same]
      exact kept
  · exact (progress.once (once.resume suspended)).set inside' performed

end Progress

inductive Returns {α : Type} (result : EStateM.Result Interrupt (Heap τ) α) (heap : Heap τ) : Prop
  | ok (value : α) (ran : result = .ok value heap)
  | fault (fault : Fault) (ran : result = .error (.fault fault) heap)

section Force

variable {behaviour : Behaviour τ} {heap heap' : Heap τ} {ref : Ref}

theorem not_returns_exhausted {α : Type} :
    ¬ Returns (.error .exhausted heap : EStateM.Result Interrupt (Heap τ) α) heap' := by
  rintro (⟨_, ⟨⟩⟩ | ⟨_, ⟨⟩⟩)

theorem returns_ok {α : Type} {value : α} (returns : Returns (.ok value heap) heap') :
    heap' = heap := by
  rcases returns with ⟨_, ⟨⟩⟩ | ⟨_, ⟨⟩⟩
  rfl

theorem returns_read (returns : Returns (read ref heap) heap') : heap' = heap := by
  unfold read at returns
  generalize (heap.settled? ref).getD (.error .dependsOnItself) = outcome at returns
  cases outcome <;> rcases returns with ⟨_, ⟨⟩⟩ | ⟨_, ⟨⟩⟩ <;> rfl

theorem Progress.bind {α β : Type} {computation : HeapM τ α} {next : α → HeapM τ β}
    (returns : Returns ((computation >>= next) heap) heap')
    (first : ∀ heap', Returns (computation heap) heap' → heap.Progress heap')
    (second : ∀ value heap₁, computation heap = .ok value heap₁ →
      Returns (next value heap₁) heap' → heap₁.Progress heap') :
    heap.Progress heap' := by
  simp only [Bind.bind, EStateM.bind] at returns
  cases ran : computation heap with
  | ok value heap₁ =>
    rw [ran] at returns
    exact (first heap₁ (.ok value ran)).trans (second value heap₁ ran returns)
  | error interrupt heap₁ =>
    rw [ran] at returns
    rcases returns with ⟨_, ⟨⟩⟩ | ⟨fault, ⟨⟩⟩
    exact first heap' (.fault fault ran)

theorem Performed.progress {nested : Ref → HeapM τ Value}
    (forces : ∀ ref heap heap', Returns (nested ref heap) heap' → heap.Progress heap')
    {step : Step τ} {cell : Cell τ} (performed : Performed behaviour nested step heap (.ok cell heap')) :
    heap.Progress heap' ∧ cell ≠ .running ∧ cell.isPending = false := by
  generalize ended : EStateM.Result.ok cell heap' = result at performed
  induction performed with
  | done | fail | defer =>
    cases ended
    exact ⟨.refl _, by simp, rfl⟩
  | alloc _ ih =>
    obtain ⟨later, ends⟩ := ih ended
    exact ⟨(progress_push _).trans later, ends⟩
  | @demand target _ heap heap₁ outcome _ forced _ ih =>
    obtain ⟨later, ends⟩ := ih ended
    have first : heap.Progress heap₁ := by
      cases outcome with
      | ok value => exact forces target heap heap₁ (.ok value forced)
      | error fault => exact forces target heap heap₁ (.fault fault forced)
    exact ⟨first.trans later, ends⟩
  | become _ ih => exact ih ended
  | unforced | exhausted => cases ended

-- The whole performance of a task, from the moment its cell starts to run.
theorem performed_turn {nested : Ref → HeapM τ Value} {top : Ref} {inputs : List Ref} {task : τ}
    {step : Step τ} {cell : Cell τ}
    (forces : ∀ ref heap heap', Returns (nested ref heap) heap' → heap.Progress heap')
    (found : heap.get top = .pending inputs task)
    (performed : Performed behaviour nested step (heap.resume top) (.ok cell heap')) :
    heap.Progress (heap'.set top cell) := by
  obtain ⟨progress, other, ends⟩ := performed.progress forces
  exact progress.perform (by simp [found, Cell.isPending]) other ends

theorem drive_progress (fuel : Nat) (stack : List Ref)
    (returns : Returns (drive behaviour fuel stack heap) heap') : heap.Progress heap' := by
  induction fuel generalizing stack heap heap' with
  | zero => exact absurd returns not_returns_exhausted
  | succ fuel ih =>
    have turned := drive_turned behaviour fuel stack heap
    generalize drive behaviour (fuel + 1) stack heap = result at turned returns
    cases turned with
    | empty =>
      rw [returns_ok returns]
      exact .refl heap
    | settled | waits => exact ih _ returns
    | running =>
      rcases returns with ⟨_, ⟨⟩⟩ | ⟨_, ⟨⟩⟩
      exact .refl heap
    | copied found =>
      exact (progress_set (not_settled found rfl) (by simp [found]) (Cell.ofOutcome_ne_running _)
        (Cell.isPending_ofOutcome _)).trans (ih _ returns)
    | failed found =>
      exact (progress_set (not_settled found rfl) (by simp [found]) (by simp) rfl).trans (ih _ returns)
    | performed found _ _ performed =>
      refine (performed_turn (fun ref heap heap' returns => ?_) found performed).trans (ih _ returns)
      exact .bind returns (fun _ => ih [ref]) fun _ heap₁ _ read => by
        rw [returns_read read]
        exact .refl heap₁
    | unperformed => exact absurd returns not_returns_exhausted

theorem force_progress {fuel : Nat} (returns : Returns (force behaviour fuel ref heap) heap') :
    heap.Progress heap' :=
  .bind returns (fun _ => drive_progress fuel [ref]) fun _ heap₁ _ read => by
    rw [returns_read read]
    exact .refl heap₁

theorem Performs.not_pending {step : Step τ} {cell : Cell τ} (performs : Performs behaviour step heap (.ok cell heap')) :
    cell.isPending = false := by
  obtain ⟨fuel, ran⟩ := performs
  have performed := @perform_performed τ behaviour (force behaviour fuel) fuel step heap
  rw [ran fuel fuel (Nat.le_refl _) (Nat.le_refl _)] at performed
  exact (performed.progress fun _ _ _ => force_progress).2.2

theorem forceEach_progress {fuel : Nat} (refs : List Ref) (found : List Value)
    (returns : Returns (forceEach behaviour fuel refs found heap) heap') :
    heap.Progress heap' := by
  induction refs generalizing found heap with
  | nil =>
    rw [returns_ok returns]
    exact .refl heap
  | cons ref rest ih =>
    exact .bind returns (fun _ => force_progress) fun value _ _ later => ih (value :: found) later

theorem deepen_progress {limit : Nat} (fuel : Nat) (stack : List Value)
    (returns : Returns (deepen behaviour limit fuel stack heap) heap') :
    heap.Progress heap' := by
  induction fuel generalizing stack heap with
  | zero => exact absurd returns not_returns_exhausted
  | succ fuel ih =>
    match stack with
    | [] =>
      rw [returns_ok returns]
      exact .refl heap
    | .list elements :: rest =>
      exact .bind returns (fun _ => forceEach_progress elements rest) fun found _ _ => ih found
    | .record _ fields :: rest => exact ih _ returns
    | .integer _ :: rest | .float _ :: rest | .string _ :: rest | .boolean _ :: rest =>
      exact ih rest returns

theorem forceDeep_progress {fuel : Nat}
    (returns : Returns (forceDeep behaviour fuel ref heap) heap') :
    heap.Progress heap' :=
  .bind returns (fun _ => force_progress) fun value _ _ later =>
    .bind later (fun _ => deepen_progress fuel [value]) fun _ heap₂ _ last => by
      rw [returns_ok last]
      exact .refl heap₂

theorem drive_settles (fuel : Nat) (stack : List Ref)
    (drove : drive behaviour fuel stack heap = .ok () heap') :
    ∀ ref ∈ stack, heap'.isSettled ref = true := by
  induction fuel generalizing stack heap with
  | zero => cases drove
  | succ fuel ih =>
    have turned := drive_turned behaviour fuel stack heap
    generalize drive behaviour (fuel + 1) stack heap = result at turned drove
    cases turned with
    | empty => simp
    | @settled top rest _ outcome known =>
      intro ref member
      rcases List.mem_cons.mp member with rfl | later
      · exact (drive_progress fuel rest (.ok () drove)).isSettled (by simp [isSettled, known])
      · exact ih rest drove ref later
    | @waits top other => exact fun ref member => ih _ drove ref (List.mem_cons_of_mem other member)
    | copied | failed | performed => exact ih _ drove
    | running | unperformed => cases drove

-- The loop gives up only at a running cell, and in an idle heap there is none to be found.
theorem drive_gives_up (fuel : Nat) (stack : List Ref) {fault : Fault} (idle : heap.Idle)
    (inside : ∀ ref ∈ stack, ref < heap.cells.size)
    (drove : drive behaviour fuel stack heap = .error (.fault fault) heap') : ¬ heap'.Closed := by
  induction fuel generalizing stack heap with
  | zero => cases drove
  | succ fuel ih =>
    have changed {heap₁ : Heap τ} (progress : heap.Progress heap₁)
        (drove : drive behaviour fuel stack heap₁ = .error (.fault fault) heap') : ¬ heap'.Closed :=
      ih stack (progress.idle idle)
        (fun ref member => Nat.lt_of_lt_of_le (inside ref member) progress.size) drove
    have turned := drive_turned behaviour fuel stack heap
    generalize drive behaviour (fuel + 1) stack heap = result at turned drove
    cases turned with
    | empty | unperformed => cases drove
    | settled => exact ih _ idle (fun ref member => inside ref (List.mem_cons_of_mem _ member)) drove
    | @running top _ _ found => exact absurd ⟨inside top List.mem_cons_self, found⟩ (idle top)
    | @waits top other rest _ waits =>
      by_cases known : other < heap.cells.size
      · exact ih _ idle (List.forall_mem_cons.mpr ⟨known, inside⟩) drove
      · -- The address has no cell, so the loop stops at once.
        cases fuel with
        | zero => cases drove
        | succ fuel =>
          rw [drive, get_outside (Nat.le_of_not_lt known)] at drove
          cases drove
          exact fun closed => known (closed top (inside top List.mem_cons_self) other waits.awaited)
    | copied found =>
      exact changed (progress_set (not_settled found rfl) (by simp [found]) (Cell.ofOutcome_ne_running _)
        (Cell.isPending_ofOutcome _)) drove
    | failed found =>
      exact changed (progress_set (not_settled found rfl) (by simp [found]) (by simp) rfl) drove
    | performed found _ _ performed =>
      exact changed (performed_turn (fun _ _ _ returns => force_progress returns) found performed) drove

theorem force_settles {fuel : Nat} {outcome : Outcome} (idle : heap.Idle)
    (inside : ref < heap.cells.size) (closed : heap'.Closed)
    (forced : force behaviour fuel ref heap = HeapM.ofOutcome outcome heap') :
    heap'.settled? ref = some outcome := by
  simp only [force, Bind.bind, EStateM.bind] at forced
  cases drove : drive behaviour fuel [ref] heap with
  | error interrupt heap₁ =>
    rw [drove] at forced
    cases outcome with
    | ok value => cases forced
    | error fault =>
      cases forced
      exact absurd closed (drive_gives_up fuel [ref] idle (by simpa using inside) drove)
  | ok found heap₁ =>
    rw [drove] at forced
    have known := drive_settles fuel [ref] drove ref List.mem_cons_self
    obtain ⟨outcome', settled⟩ := Option.isSome_iff_exists.mp known
    simp only [read, settled, Option.getD_some] at forced
    cases outcome <;> cases outcome' <;> cases forced <;> exact settled

end Force

end Heap

inductive Operation (τ : Type) where
  | create (origin : Fresh τ)
  | force (ref : Ref)
  | forceDeep (ref : Ref)
  | settled (ref : Ref)
  | peek (ref : Ref)

inductive Answer where
  | cell (ref : Ref)
  | value (value : Value)
  | settled (outcome : Option Outcome)
  | peeked (value : Option Value)

def Operation.perform (behaviour : Behaviour τ) (fuel : Nat) : Operation τ → HeapM τ Answer
  | .create origin => do return .cell (← HeapM.alloc origin.cell)
  | .force ref => do return .value (← Heap.force behaviour fuel ref)
  | .forceDeep ref => do return .value (← Heap.forceDeep behaviour fuel ref)
  | .settled ref => fun heap => .ok (.settled (heap.settled? ref)) heap
  | .peek ref => fun heap => .ok (.peeked (heap.peek? ref)) heap

structure Call (τ : Type) where
  operation : Operation τ
  behaviour : Behaviour τ
  fuel : Nat

namespace Heap

-- All operations of the script return, and addresses are always those of cells.
inductive Plays : List (Call τ) → Heap τ → Heap τ → Prop
  | nil (heap : Heap τ) : Plays [] heap heap
  | cons {call : Call τ} {calls : List (Call τ)} {heap heap₁ heap₂ : Heap τ}
    (returns : Returns (call.operation.perform call.behaviour call.fuel heap) heap₁)
    (closed : heap₁.Closed) (rest : Plays calls heap₁ heap₂) :
    Plays (call :: calls) heap heap₂

variable {heap heap' : Heap τ}

theorem perform_operation_progress {behaviour : Behaviour τ} {fuel : Nat} (operation : Operation τ)
    (returns : Returns (operation.perform behaviour fuel heap) heap') :
    heap.Progress heap' := by
  cases operation with
  | create origin =>
    rw [returns_ok returns]
    exact progress_push origin
  | force ref =>
    exact .bind returns (fun _ => force_progress) fun _ heap₁ _ last => by
      rw [returns_ok last]
      exact .refl heap₁
  | forceDeep ref =>
    exact .bind returns (fun _ => forceDeep_progress) fun _ heap₁ _ last => by
      rw [returns_ok last]
      exact .refl heap₁
  | settled ref | peek ref =>
    rw [returns_ok returns]
    exact .refl heap

theorem Plays.progress {calls : List (Call τ)} (plays : Plays calls heap heap') : heap.Progress heap' := by
  induction plays with
  | nil heap => exact .refl heap
  | @cons call calls _ _ _ returns _ rest ih =>
    exact (perform_operation_progress call.operation returns).trans ih

theorem Progress.keeps {ref : Ref} {outcome : Outcome} (progress : heap.Progress heap')
    (known : heap.settled? ref = some outcome) : heap'.settled? ref = some outcome := by
  have kept := progress.settled ref (by simp [Heap.isSettled, known])
  unfold Heap.settled? at *
  rw [kept, known]

theorem idle_empty : ({} : Heap τ).Idle := by
  rintro ref ⟨inside, _⟩
  cases inside

theorem once_empty : ({} : Heap τ).Once :=
  ⟨List.nodup_nil, fun _ member => by cases member⟩

/-- Whatever the tasks do while they are performed, also if they force cells that wait for them or
that are running: no task is performed twice, a settled cell keeps its outcome, no cell is left
running, and a cell that was forced is settled with the outcome that forcing it gave. -/
theorem settled_once {earlier later : List (Call τ)} (reached : Plays earlier {} heap)
    (continued : Plays later heap heap') :
    heap.resumed.Nodup ∧
      (∀ ref outcome, heap.settled? ref = some outcome → heap'.settled? ref = some outcome) ∧
      (∀ ref, ref < heap.cells.size → heap.get ref ≠ .running) ∧
      ∀ (behaviour : Behaviour τ) (fuel : Nat) (ref : Ref) (outcome : Outcome) (heap₁ : Heap τ),
        ref < heap.cells.size → heap₁.Closed →
        force behaviour fuel ref heap = HeapM.ofOutcome outcome heap₁ →
        ∀ calls heap₂, Plays calls heap₁ heap₂ → heap₂.settled? ref = some outcome := by
  have idle := reached.progress.idle idle_empty
  refine ⟨(reached.progress.once once_empty).1, ?_, ?_, ?_⟩
  · intro ref outcome known
    exact continued.progress.keeps known
  · intro ref inside running
    exact idle ref ⟨inside, running⟩
  · intro behaviour fuel ref outcome heap₁ inside closed forced calls heap₂ plays
    exact plays.progress.keeps (force_settles idle inside closed forced)

end Heap

namespace Script

-- The first of two cells forces the second one, which waits for it.
def entangled : Heap Act where
  cells := #[.pending [] (.force "second"), .pending [0] .first]

def disentangled : Heap Act where
  cells := #[.failed .dependsOnItself, .failed .dependsOnItself]
  resumed := [0]

def second : Behaviour Act :=
  Act.run fun name => if name = "second" then some 1 else none

end Script

theorem settled_once_entangled :
    ∃ calls, Heap.Plays calls {} Script.entangled ∧
      Heap.force Script.second 9 1 Script.entangled =
        HeapM.ofOutcome (.error .dependsOnItself) Script.disentangled ∧
      Script.disentangled.resumed.Nodup ∧
      Script.disentangled.settled? 1 = some (.error .dependsOnItself) := by
  have made : Heap.Plays [⟨.create (.pending [] (.force "second")), Script.second, 0⟩,
      ⟨.create (.pending [0] .first), Script.second, 0⟩] {} Script.entangled :=
    .cons (.ok _ rfl) (by decide) (.cons (.ok _ rfl) (by decide) (.nil _))
  have forced : Heap.Plays [⟨.create (.pending [] (.force "second")), Script.second, 0⟩,
      ⟨.create (.pending [0] .first), Script.second, 0⟩, ⟨.force 1, Script.second, 9⟩] {}
      Script.disentangled :=
    .cons (.ok _ rfl) (by decide) (.cons (.ok _ rfl) (by decide)
      (.cons (.fault _ rfl) (by decide) (.nil _)))
  have once := (Heap.settled_once forced (.nil _)).1
  obtain ⟨_, _, _, settles⟩ := Heap.settled_once made (.nil _)
  exact ⟨_, made, rfl, once,
    settles Script.second 9 1 _ Script.disentangled (by decide) (by decide) rfl [] _ (.nil _)⟩

end ByNeed
