import ByNeed.Proofs.Heap.Memo

set_option autoImplicit false

-- A call for a cell leaves settled cells alone, and also the cells that wait, directly or not, for a
-- cell whose task is being performed. Hence a call that leads to an outcome leaves alone all the cells
-- that wait for its own cell, and the inputs of a cell are served one after another, always the first
-- one that is not settled.
namespace ByNeed.Heap

variable {τ : Type}

/-- The outcome of a cell, with calls for the cells that it needs. The cell takes over the outcome of
the cell it was handed over to. A suspended cell needs all its inputs, from the first to the last, also
when one of them fails; then it fails with the first fault among them, or its task is performed and it
goes on from what it has become. -/
def recurse (behaviour : Behaviour τ) : Nat → Ref → HeapM τ Outcome
  | 0, _, heap => .error .exhausted heap
  | fuel + 1, ref, heap =>
    match heap.get ref with
    | .forced value => .ok (.ok value) heap
    | .failed fault => .ok (.error fault) heap
    | .running => .error (.fault .dependsOnItself) heap
    | .delegated target =>
      match recurse behaviour fuel target heap with
      | .ok outcome heap => .ok outcome (heap.set ref (.ofOutcome outcome))
      | .error interrupt heap => .error interrupt heap
    | .pending inputs task =>
      match inputs.mapM (recurse behaviour fuel) heap with
      | .error interrupt heap => .error interrupt heap
      | .ok outcomes heap =>
        match outcomes.mapM id with
        | .error fault => .ok (.error fault) (heap.set ref (.failed fault))
        | .ok values =>
          let nested (other : Ref) : HeapM τ Value := do
            HeapM.ofOutcome (← recurse behaviour fuel other)
          match perform behaviour nested fuel (behaviour task values) (heap.resume ref) with
          | .ok cell heap => recurse behaviour fuel ref (heap.set ref cell)
          | .error interrupt heap => .error interrupt heap

def forceRecursively (behaviour : Behaviour τ) (fuel : Nat) (ref : Ref) : HeapM τ Value := do
  HeapM.ofOutcome (← recurse behaviour fuel ref)

inductive Recursed (behaviour : Behaviour τ) (fuel : Nat) (ref : Ref) (heap : Heap τ) :
    EStateM.Result Interrupt (Heap τ) Outcome → Prop
  | settled {outcome : Outcome} (known : heap.settled? ref = some outcome) :
    Recursed behaviour fuel ref heap (.ok outcome heap)
  | running (found : heap.get ref = .running) :
    Recursed behaviour fuel ref heap (.error (.fault .dependsOnItself) heap)
  | copied {target : Ref} {outcome : Outcome} {heap₁ : Heap τ}
    (found : heap.get ref = .delegated target)
    (recursed : recurse behaviour fuel target heap = .ok outcome heap₁) :
    Recursed behaviour fuel ref heap (.ok outcome (heap₁.set ref (.ofOutcome outcome)))
  | uncopied {target : Ref} {interrupt : Interrupt} {heap₁ : Heap τ}
    (found : heap.get ref = .delegated target)
    (recursed : recurse behaviour fuel target heap = .error interrupt heap₁) :
    Recursed behaviour fuel ref heap (.error interrupt heap₁)
  | unready {inputs : List Ref} {task : τ} {interrupt : Interrupt} {heap₁ : Heap τ}
    (found : heap.get ref = .pending inputs task)
    (recursed : inputs.mapM (recurse behaviour fuel) heap = .error interrupt heap₁) :
    Recursed behaviour fuel ref heap (.error interrupt heap₁)
  | failed {inputs : List Ref} {task : τ} {outcomes : List Outcome} {fault : Fault} {heap₁ : Heap τ}
    (found : heap.get ref = .pending inputs task)
    (recursed : inputs.mapM (recurse behaviour fuel) heap = .ok outcomes heap₁)
    (failed : outcomes.mapM id = .error fault) :
    Recursed behaviour fuel ref heap (.ok (.error fault) (heap₁.set ref (.failed fault)))
  | unperformed {inputs : List Ref} {task : τ} {outcomes : List Outcome} {values : List Value}
    {heap₁ heap₂ : Heap τ} (found : heap.get ref = .pending inputs task)
    (recursed : inputs.mapM (recurse behaviour fuel) heap = .ok outcomes heap₁)
    (got : outcomes.mapM id = .ok values)
    (performed : Performed behaviour (forceRecursively behaviour fuel) (behaviour task values)
      (heap₁.resume ref) (.error .exhausted heap₂)) :
    Recursed behaviour fuel ref heap (.error .exhausted heap₂)
  | performed {inputs : List Ref} {task : τ} {outcomes : List Outcome} {values : List Value}
    {heap₁ heap₂ : Heap τ} {cell : Cell τ} (found : heap.get ref = .pending inputs task)
    (recursed : inputs.mapM (recurse behaviour fuel) heap = .ok outcomes heap₁)
    (got : outcomes.mapM id = .ok values)
    (performed : Performed behaviour (forceRecursively behaviour fuel) (behaviour task values)
      (heap₁.resume ref) (.ok cell heap₂)) :
    Recursed behaviour fuel ref heap (recurse behaviour fuel ref (heap₂.set ref cell))

theorem recurse_succ (behaviour : Behaviour τ) (fuel : Nat) (ref : Ref) (heap : Heap τ) :
    Recursed behaviour fuel ref heap (recurse behaviour (fuel + 1) ref heap) := by
  rw [recurse]
  cases found : heap.get ref with
  | forced value => exact .settled (by simp [settled?, found, Cell.settled?])
  | failed fault => exact .settled (by simp [settled?, found, Cell.settled?])
  | running => exact .running found
  | delegated target =>
    simp only
    cases recursed : recurse behaviour fuel target heap with
    | ok outcome heap₁ => exact .copied found recursed
    | error interrupt heap₁ => exact .uncopied found recursed
  | pending inputs task =>
    simp only
    cases recursed : inputs.mapM (recurse behaviour fuel) heap with
    | error interrupt heap₁ => exact .unready found recursed
    | ok outcomes heap₁ =>
      simp only
      cases got : outcomes.mapM id with
      | error fault => exact .failed found recursed got
      | ok values =>
        simp only
        have performed := @perform_performed τ behaviour (forceRecursively behaviour fuel) fuel
          (behaviour task values) (heap₁.resume ref)
        unfold forceRecursively at performed
        split
        · next cell heap₂ ran =>
          rw [ran] at performed
          exact .performed found recursed got performed
        · next interrupt heap₂ ran =>
          rw [ran] at performed
          cases performed.exhausted_of_error
          exact .unperformed found recursed got performed

section Waiting

variable {heap heap' heap'' : Heap τ} {ref other last : Ref} {cell : Cell τ}

def Path (heap : Heap τ) : Ref → Ref → Prop :=
  Relation.ReflTransGen heap.Waits

-- Waiting leads to a cell whose task is being performed.
def Blocked (heap : Heap τ) (ref : Ref) : Prop :=
  ∃ last, heap.Runs last ∧ heap.Path ref last

theorem Waits.kept (waits : heap.Waits ref other) (same : heap'.get ref = heap.get ref)
    (settled : ∀ ref, heap.isSettled ref = true → heap'.isSettled ref = true)
    (unsettled : heap'.isSettled other = false) : heap'.Waits ref other := by
  unfold Waits at *
  rw [same]
  obtain ⟨_, before, after, split, ready⟩ := List.find?_eq_some_iff_append.mp waits
  refine List.find?_eq_some_iff_append.mpr ⟨by simp [unsettled], before, after, split, ?_⟩
  intro awaited member
  simpa using settled awaited (by simpa using ready awaited member)

-- The cells on a path before the last one are left alone.
theorem Path.kept (path : heap.Path ref last)
    (settled : ∀ ref, heap.isSettled ref = true → heap'.isSettled ref = true)
    (unsettled : heap'.isSettled last = false)
    (same : ∀ ref other, heap.Waits ref other → heap.Path other last → heap'.get ref = heap.get ref) :
    heap'.Path ref last := by
  induction path using Relation.ReflTransGen.head_induction_on with
  | refl => exact .refl
  | @head ref other waits path ih =>
    have open' : heap'.isSettled other = false := by
      rcases path.cases_head with rfl | ⟨third, waits', path'⟩
      · exact unsettled
      · have kept := same other third waits' path'
        simpa [isSettled, settled?, kept] using waits'.idle.2
    exact .head (waits.kept (same ref other waits path) settled open') ih

theorem Blocked.of_path (blocked : heap.Blocked other) (path : heap.Path ref other) :
    heap.Blocked ref := by
  obtain ⟨last, runs, path'⟩ := blocked
  exact ⟨last, runs, path.trans path'⟩

theorem Blocked.inside (blocked : heap.Blocked ref) : ref < heap.cells.size := by
  obtain ⟨last, runs, path⟩ := blocked
  rcases path.cases_head with rfl | ⟨other, waits, _⟩
  · exact runs.1
  · exact inside_of_get_ne waits.idle.1

theorem Blocked.unsettled (blocked : heap.Blocked ref) : heap.isSettled ref = false := by
  obtain ⟨last, runs, path⟩ := blocked
  rcases path.cases_head with rfl | ⟨other, waits, _⟩
  · simp [isSettled, settled?, runs.2, Cell.settled?]
  · exact waits.idle.2

-- Settled and blocked cells are left alone.
structure Respects (heap heap' : Heap τ) : Prop where
  size : heap.cells.size ≤ heap'.cells.size
  settled : ∀ ref, heap.isSettled ref = true → heap'.get ref = heap.get ref
  blocked : ∀ ref, heap.Blocked ref → heap'.get ref = heap.get ref

theorem Respects.refl (heap : Heap τ) : heap.Respects heap where
  size := Nat.le_refl _
  settled _ _ := rfl
  blocked _ _ := rfl

theorem Respects.isSettled (respects : heap.Respects heap') (settled : heap.isSettled ref = true) :
    heap'.isSettled ref = true := by
  unfold Heap.isSettled Heap.settled? at *
  rw [respects.settled ref settled]
  exact settled

theorem Respects.path (respects : heap.Respects heap') (blocked : heap.Blocked last)
    (path : heap.Path ref last) : heap'.Path ref last := by
  apply path.kept fun _ => respects.isSettled
  · have kept := respects.blocked last blocked
    simpa [Heap.isSettled, settled?, kept] using blocked.unsettled
  · intro ref other waits path
    exact respects.blocked ref (blocked.of_path (.head waits path))

theorem Respects.still_blocked (respects : heap.Respects heap') (blocked : heap.Blocked ref) :
    heap'.Blocked ref := by
  obtain ⟨last, runs, path⟩ := blocked
  have here : heap.Blocked last := ⟨last, runs, .refl⟩
  refine ⟨last, ⟨Nat.lt_of_lt_of_le runs.1 respects.size, ?_⟩, respects.path here path⟩
  rw [respects.blocked last here]
  exact runs.2

theorem Respects.trans (first : heap.Respects heap') (second : heap'.Respects heap'') :
    heap.Respects heap'' where
  size := Nat.le_trans first.size second.size
  settled ref settled :=
    (second.settled ref (first.isSettled settled)).trans (first.settled ref settled)
  blocked ref blocked :=
    (second.blocked ref (first.still_blocked blocked)).trans (first.blocked ref blocked)

theorem respects_push (heap : Heap τ) (cell : Cell τ) : heap.Respects (heap.push cell) where
  size := by simp
  settled ref settled := get_push_of_lt heap cell (inside_of_settled settled)
  blocked ref blocked := get_push_of_lt heap cell blocked.inside

theorem Respects.replace (respects : heap.Respects heap') (unsettled : heap.isSettled ref = false)
    (free : ¬ heap.Blocked ref) (size : heap''.cells.size = heap'.cells.size)
    (elsewhere : ∀ other, ref ≠ other → heap''.get other = heap'.get other) :
    heap.Respects heap'' where
  size := size ▸ respects.size
  settled other settled := by
    rw [elsewhere other, respects.settled other settled]
    rintro rfl
    simp [unsettled] at settled
  blocked other blocked := by
    rw [elsewhere other, respects.blocked other blocked]
    rintro rfl
    exact free blocked

theorem Respects.set (respects : heap.Respects heap') (unsettled : heap.isSettled ref = false)
    (free : ¬ heap.Blocked ref) (cell : Cell τ) : heap.Respects (heap'.set ref cell) :=
  respects.replace unsettled free (size_set heap' ref cell) fun _ => get_set_of_ne heap' cell

theorem Respects.resume (respects : heap.Respects heap') (unsettled : heap.isSettled ref = false)
    (free : ¬ heap.Blocked ref) : heap.Respects (heap'.resume ref) :=
  respects.replace unsettled free (size_set heap' ref .running) fun _ => get_set_of_ne heap' .running

-- A cell whose awaited cells get settled was not blocked.
theorem Respects.not_blocked (respects : heap.Respects heap') (idle : heap.get ref ≠ .running)
    (done : ∀ other ∈ (heap.get ref).awaits, heap'.isSettled other = true) :
    ¬ heap.Blocked ref := by
  rintro ⟨last, runs, path⟩
  rcases path.cases_head with rfl | ⟨other, waits, path⟩
  · exact idle runs.2
  · have blocked := respects.still_blocked ⟨last, runs, path⟩
    have unsettled := blocked.unsettled
    rw [done other waits.awaited] at unsettled
    cases unsettled

end Waiting

section Respect

variable {behaviour : Behaviour τ} {heap heap' : Heap τ} {ref : Ref} {fuel : Nat}

def Respectful (ref : Ref) (heap : Heap τ) : EStateM.Result Interrupt (Heap τ) Outcome → Prop
  | .ok outcome heap' => heap.Respects heap' ∧ heap'.settled? ref = some outcome
  | .error (.fault _) heap' => heap.Respects heap'
  | .error .exhausted _ => True

def RespectfulAll (refs : List Ref) (heap : Heap τ) :
    EStateM.Result Interrupt (Heap τ) (List Outcome) → Prop
  | .ok outcomes heap' => heap.Respects heap' ∧ refs.map heap'.settled? = outcomes.map some
  | .error (.fault _) heap' => heap.Respects heap'
  | .error .exhausted _ => True

theorem Respects.keeps (respects : heap.Respects heap') {outcome : Outcome}
    (known : heap.settled? ref = some outcome) : heap'.settled? ref = some outcome := by
  have kept := respects.settled ref (by simp [Heap.isSettled, known])
  unfold Heap.settled? at *
  rw [kept, known]

theorem mapM_respectful {force : Ref → HeapM τ Outcome}
    (each : ∀ ref heap, Respectful ref heap (force ref heap)) (refs : List Ref) (heap : Heap τ) :
    RespectfulAll refs heap (refs.mapM force heap) := by
  induction refs generalizing heap with
  | nil => exact ⟨.refl heap, rfl⟩
  | cons ref rest ih =>
    have here := each ref heap
    rw [List.mapM_cons]
    simp only [Bind.bind, EStateM.bind]
    cases forced : force ref heap with
    | error interrupt heap₁ =>
      rw [forced] at here
      cases interrupt <;> exact here
    | ok outcome heap₁ =>
      rw [forced] at here
      have later := ih heap₁
      simp only
      cases mapped : rest.mapM force heap₁ with
      | error interrupt heap₂ =>
        rw [mapped] at later
        cases interrupt with
        | exhausted => exact trivial
        | fault fault => exact here.1.trans later
      | ok outcomes heap₂ =>
        rw [mapped] at later
        refine ⟨here.1.trans later.1, ?_⟩
        rw [List.map_cons, List.map_cons, later.2, later.1.keeps here.2]

theorem Respectful.returns (respectful : Respectful ref heap (recurse behaviour fuel ref heap))
    (returns : Returns (forceRecursively behaviour fuel ref heap) heap') : heap.Respects heap' := by
  simp only [forceRecursively, Bind.bind, EStateM.bind] at returns
  cases recursed : recurse behaviour fuel ref heap with
  | error interrupt heap₁ =>
    rw [recursed] at respectful returns
    rcases returns with ⟨_, ⟨⟩⟩ | ⟨_, ⟨⟩⟩
    exact respectful
  | ok outcome heap₁ =>
    rw [recursed] at respectful returns
    cases outcome <;> rcases returns with ⟨_, ⟨⟩⟩ | ⟨_, ⟨⟩⟩ <;> exact respectful.1

theorem Performed.respects {nested : Ref → HeapM τ Value}
    (forces : ∀ ref heap heap', Returns (nested ref heap) heap' → heap.Respects heap')
    {step : Step τ} {cell : Cell τ} (performed : Performed behaviour nested step heap (.ok cell heap')) :
    heap.Respects heap' := by
  generalize ended : EStateM.Result.ok cell heap' = result at performed
  induction performed with
  | done | fail | defer =>
    cases ended
    exact .refl _
  | alloc _ ih => exact (respects_push _ _).trans (ih ended)
  | @demand target _ heap heap₁ outcome _ forced _ ih =>
    have first : heap.Respects heap₁ := by
      cases outcome with
      | ok value => exact forces target heap heap₁ (.ok value forced)
      | error fault => exact forces target heap heap₁ (.fault fault forced)
    exact first.trans (ih ended)
  | become _ ih => exact ih ended
  | unforced | exhausted => cases ended

theorem isSettled_of_map_settled? {refs : List Ref} {outcomes : List Outcome}
    (settled : refs.map heap.settled? = outcomes.map some) :
    ∀ ref ∈ refs, heap.isSettled ref = true := by
  intro ref member
  have known : heap.settled? ref ∈ outcomes.map some := settled ▸ List.mem_map_of_mem member
  obtain ⟨outcome, _, same⟩ := List.mem_map.mp known
  simp [isSettled, ← same]

theorem recurse_respectful (fuel : Nat) (ref : Ref) (heap : Heap τ) :
    Respectful ref heap (recurse behaviour fuel ref heap) := by
  induction fuel generalizing ref heap with
  | zero => exact trivial
  | succ fuel ih =>
    -- Only a cell that is not blocked gets as far as having an outcome, so it may be changed.
    have readied {cell : Cell τ} (found : heap.get ref = cell) (idle : cell ≠ .running)
        {outcomes : List Outcome} {heap₁ : Heap τ} (respects : heap.Respects heap₁)
        (settled : cell.awaits.map heap₁.settled? = outcomes.map some) :
        ¬ heap.Blocked ref ∧ ref < heap₁.cells.size := by
      subst found
      exact ⟨respects.not_blocked idle (isSettled_of_map_settled? settled),
        Nat.lt_of_lt_of_le (inside_of_get_ne idle) respects.size⟩
    have turn := recurse_succ behaviour fuel ref heap
    generalize recurse behaviour (fuel + 1) ref heap = result at turn
    cases turn with
    | settled known => exact ⟨.refl heap, known⟩
    | running found => exact .refl heap
    | @uncopied target interrupt heap₁ found recursed =>
      have first := ih target heap
      rw [recursed] at first
      cases interrupt <;> exact first
    | @unready inputs task interrupt heap₁ found recursed =>
      have first := mapM_respectful ih inputs heap
      rw [recursed] at first
      cases interrupt <;> exact first
    | @copied target outcome heap₁ found recursed =>
      have first := ih target heap
      rw [recursed] at first
      obtain ⟨free, inside⟩ := readied found (by simp) first.1
        (show [target].map heap₁.settled? = [outcome].map some by simp [first.2])
      exact ⟨first.1.set (not_settled found rfl) free _, settled?_set_ofOutcome inside outcome⟩
    | @failed inputs task outcomes fault heap₁ found recursed failed =>
      have first := mapM_respectful ih inputs heap
      rw [recursed] at first
      obtain ⟨free, inside⟩ := readied found (by simp) first.1 first.2
      exact ⟨first.1.set (not_settled found rfl) free _, settled?_set_ofOutcome inside (.error fault)⟩
    | unperformed => exact trivial
    | @performed inputs task outcomes values heap₁ heap₂ cell found recursed got performed =>
      have first := mapM_respectful ih inputs heap
      rw [recursed] at first
      obtain ⟨free, inside⟩ := readied found (by simp) first.1 first.2
      have unsettled := not_settled found rfl
      have second := performed.respects fun other heap _ => (ih other heap).returns
      have respects := ((first.1.resume unsettled free).trans second).set unsettled free cell
      have last := ih ref (heap₂.set ref cell)
      cases recursed : recurse behaviour fuel ref (heap₂.set ref cell) with
      | ok outcome heap₃ =>
        rw [recursed] at last
        exact ⟨respects.trans last.1, last.2⟩
      | error interrupt heap₃ =>
        rw [recursed] at last
        cases interrupt with
        | exhausted => exact trivial
        | fault fault => exact respects.trans last

end Respect

section Order

variable {behaviour : Behaviour τ} {heap heap' : Heap τ} {ref other : Ref} {fuel : Nat}
  {outcome : Outcome}

-- The cells that a cell waits for are called for one after another, the first unsettled one each time.
def Serves (behaviour : Behaviour τ) (fuel : Nat) (ref : Ref) : Heap τ → Heap τ → Prop :=
  Relation.ReflTransGen fun heap heap' => ∃ other outcome,
    heap.Waits ref other ∧ recurse behaviour fuel other heap = .ok outcome heap'

-- A cell with an outcome did not wait for itself, and those that wait for it are left alone.
def Keeps (behaviour : Behaviour τ) (fuel : Nat) : Prop :=
  ∀ ⦃ref heap outcome heap'⦄, recurse behaviour fuel ref heap = .ok outcome heap' →
    ∀ other, Relation.TransGen heap.Waits other ref →
      other ≠ ref ∧ heap'.get other = heap.get other

theorem recurse_respects (recursed : recurse behaviour fuel ref heap = .ok outcome heap') :
    heap.Respects heap' ∧ heap'.settled? ref = some outcome := by
  have respectful := @recurse_respectful τ behaviour fuel ref heap
  rwa [recursed] at respectful

theorem recurse_of_settled (known : heap.isSettled ref = true) :
    recurse behaviour fuel ref heap = .error .exhausted heap ∨
      ∃ outcome, recurse behaviour fuel ref heap = .ok outcome heap := by
  cases fuel with
  | zero => exact .inl rfl
  | succ fuel =>
    rw [recurse]
    cases found : heap.get ref with
    | forced value => exact .inr ⟨_, rfl⟩
    | failed fault => exact .inr ⟨_, rfl⟩
    | _ => simp [isSettled, settled?, found, Cell.settled?] at known

def Served (behaviour : Behaviour τ) (fuel : Nat) (ref : Ref) (heap : Heap τ) :
    EStateM.Result Interrupt (Heap τ) (List Outcome) → Prop
  | .ok _ heap' => Serves behaviour fuel ref heap heap'
  | .error (.fault fault) heap' => ∃ heap₁ other, Serves behaviour fuel ref heap heap₁ ∧
    heap₁.Waits ref other ∧ recurse behaviour fuel other heap₁ = .error (.fault fault) heap'
  | .error .exhausted _ => True

theorem bind_of_ok {α β : Type} {computation : HeapM τ α} {next : α → HeapM τ β} {value : α}
    (ran : computation heap = .ok value heap') : (computation >>= next) heap = next value heap' := by
  simp only [Bind.bind, EStateM.bind, ran]

theorem bind_of_error {α β : Type} {computation : HeapM τ α} {next : α → HeapM τ β}
    {interrupt : Interrupt} (ran : computation heap = .error interrupt heap') :
    (computation >>= next) heap = .error interrupt heap' := by
  simp only [Bind.bind, EStateM.bind, ran]

theorem Served.head {heap₁ : Heap τ} {result : EStateM.Result Interrupt (Heap τ) (List Outcome)}
    (waits : heap.Waits ref other) (recursed : recurse behaviour fuel other heap = .ok outcome heap₁)
    (served : Served behaviour fuel ref heap₁ result) : Served behaviour fuel ref heap result := by
  match result with
  | .ok outcomes heap' =>
    exact Relation.ReflTransGen.head ⟨other, outcome, waits, recursed⟩ served
  | .error .exhausted _ => exact trivial
  | .error (.fault fault) heap' =>
    obtain ⟨heap₂, third, serves, waits', recursed'⟩ := served
    exact ⟨heap₂, third, .head ⟨other, outcome, waits, recursed⟩ serves, waits', recursed'⟩

theorem Served.cons {todo : List Ref}
    (served : Served behaviour fuel ref heap (todo.mapM (recurse behaviour fuel) heap))
    (outcome : Outcome) :
    Served behaviour fuel ref heap ((do
      let outcomes ← todo.mapM (recurse behaviour fuel)
      return outcome :: outcomes : HeapM τ (List Outcome)) heap) := by
  simp only [Bind.bind, EStateM.bind]
  generalize todo.mapM (recurse behaviour fuel) heap = result at served
  match result with
  | .ok outcomes heap' => exact served
  | .error .exhausted _ => exact trivial
  | .error (.fault fault) heap' => exact served

theorem mapM_served (keeps : Keeps behaviour fuel) (todo : List Ref) {served : List Ref}
    (split : (heap.get ref).awaits = served ++ todo)
    (done : ∀ other ∈ served, heap.isSettled other = true) :
    Served behaviour fuel ref heap (todo.mapM (recurse behaviour fuel) heap) := by
  induction todo generalizing served heap with
  | nil => exact Relation.ReflTransGen.refl
  | cons input todo ih =>
    rw [List.mapM_cons]
    have split' : (heap.get ref).awaits = (served ++ [input]) ++ todo := by simp [split]
    by_cases known : heap.isSettled input = true
    · have done' : ∀ other ∈ served ++ [input], heap.isSettled other = true := by
        simpa [or_imp, forall_and, known] using done
      rcases recurse_of_settled known with exhausted | ⟨outcome, recursed⟩
      · rw [bind_of_error exhausted]
        exact trivial
      · rw [bind_of_ok recursed]
        exact (ih split' done').cons outcome
    · have waits : heap.Waits ref input := by
        have none : served.find? (fun other => !heap.isSettled other) = none := by simpa using done
        simp [Waits, split, List.find?_append, none, known]
      cases recursed : recurse behaviour fuel input heap with
      | error interrupt heap₁ =>
        rw [bind_of_error recursed]
        cases interrupt with
        | exhausted => exact trivial
        | fault fault => exact ⟨heap, input, .refl, waits, recursed⟩
      | ok outcome heap₁ =>
        rw [bind_of_ok recursed]
        have kept := (keeps recursed ref (.single waits)).2
        obtain ⟨respects, settled⟩ := recurse_respects recursed
        refine .head waits recursed ((ih (kept ▸ split') ?_).cons outcome)
        intro other member
        rcases List.mem_append.mp member with earlier | here
        · exact respects.isSettled (done other earlier)
        · simp [List.mem_singleton.mp here, isSettled, settled]

theorem Serves.keeps (keeps : Keeps behaviour fuel) (serves : Serves behaviour fuel ref heap heap') :
    ∀ other, heap.Path other ref → heap'.get other = heap.get other ∧ heap'.Path other ref := by
  induction serves using Relation.ReflTransGen.head_induction_on with
  | refl => exact fun other path => ⟨rfl, path⟩
  | @head heap heap₁ call _ ih =>
    obtain ⟨awaited, outcome, waits, recursed⟩ := call
    have same {other : Ref} (path : heap.Path other ref) : heap₁.get other = heap.get other :=
      (keeps recursed other (Relation.TransGen.tail' path waits)).2
    intro other path
    have path' : heap₁.Path other ref := by
      apply path.kept fun _ => (recurse_respects recursed).1.isSettled
      · simpa [isSettled, settled?, same .refl] using waits.idle.2
      · exact fun ref other waits path => same (.head waits path)
    obtain ⟨kept, path''⟩ := ih other path'
    exact ⟨kept.trans (same path), path''⟩

theorem Path.replace (path : heap.Path other ref) (still : ∀ third, ¬ heap.Waits ref third)
    (unsettled : heap.isSettled ref = false) (unsettled' : heap'.isSettled ref = false)
    (elsewhere : ∀ third, ref ≠ third → heap'.get third = heap.get third) : heap'.Path other ref := by
  apply path.kept _ unsettled'
  · intro third fourth waits _
    apply elsewhere
    rintro rfl
    exact still fourth waits
  · intro third settled
    have different : ref ≠ third := by
      rintro rfl
      simp [unsettled] at settled
    simpa [isSettled, settled?, elsewhere third different] using settled

theorem not_waits {cell : Cell τ} (found : heap.get ref = cell)
    (ready : ∀ other ∈ cell.awaits, heap.isSettled other = true) (other : Ref) :
    ¬ heap.Waits ref other := by
  intro waits
  have unsettled := waits.unsettled
  rw [ready other (found ▸ waits.awaited)] at unsettled
  cases unsettled

-- A path that leads back to the cell would start with the first cell that was called for.
theorem Serves.apart (keeps : Keeps behaviour fuel) (serves : Serves behaviour fuel ref heap heap')
    (still : ∀ third, ¬ heap'.Waits ref third) (path : Relation.TransGen heap.Waits other ref) :
    other ≠ ref := by
  rintro rfl
  obtain ⟨first, waits, path'⟩ := Relation.TransGen.head'_iff.mp path
  rcases serves.cases_head with rfl | ⟨heap₁, ⟨called, outcome, waits', recursed⟩, _⟩
  · exact still first waits
  · have same : called = first := Option.some.inj (waits'.symm.trans waits)
    subst same
    exact (keeps recursed called (Relation.TransGen.tail' path' waits)).1 rfl

theorem mapM_singleton (target : Ref) (heap : Heap τ) :
    [target].mapM (recurse behaviour fuel) heap = (recurse behaviour fuel target >>= (return [·])) heap := by
  rw [List.mapM_cons]
  rfl

-- All that the cell waits for gets settled, and the cell is as it was.
theorem Keeps.readied (keeps : Keeps behaviour fuel) {cell : Cell τ} (found : heap.get ref = cell)
    {outcomes : List Outcome}
    (mapped : cell.awaits.mapM (recurse behaviour fuel) heap = .ok outcomes heap') :
    Serves behaviour fuel ref heap heap' ∧ heap'.get ref = cell ∧
      cell.awaits.map heap'.settled? = outcomes.map some := by
  subst found
  have served := mapM_served keeps (heap.get ref).awaits (List.nil_append _).symm (by simp)
  have respectful := mapM_respectful (@recurse_respectful τ behaviour fuel) (heap.get ref).awaits heap
  rw [mapped] at served respectful
  exact ⟨served, (Serves.keeps keeps served ref .refl).1, respectful.2⟩

-- While the task of the cell is performed, the cells that wait for it are blocked.
theorem perform_keeps {inputs : List Ref} {task : τ} {cell : Cell τ} {step : Step τ}
    (here : heap.get ref = .pending inputs task) (still : ∀ third, ¬ heap.Waits ref third)
    (apart : other ≠ ref) (path : heap.Path other ref)
    (performed : Performed behaviour (forceRecursively behaviour fuel) step (heap.resume ref)
      (.ok cell heap')) :
    (heap'.set ref cell).get other = heap.get other ∧
      ((heap'.set ref cell).isSettled ref = false → (heap'.set ref cell).Path other ref) := by
  have inside : ref < heap.cells.size := inside_of_get_ne (by simp [here])
  have runs : (heap.resume ref).Runs ref :=
    ⟨by simpa [resume] using inside, by simp [get_resume heap inside]⟩
  have blocked : (heap.resume ref).Blocked ref := ⟨ref, runs, .refl⟩
  have path₁ : (heap.resume ref).Path other ref :=
    path.replace still (not_settled here rfl) blocked.unsettled fun third => get_set_of_ne heap .running
  have respects := performed.respects fun other heap _ =>
    (@recurse_respectful τ behaviour fuel other heap).returns
  have running : heap'.get ref = .running := (respects.blocked ref blocked).trans runs.2
  constructor
  · rw [get_set_of_ne _ _ apart.symm, respects.blocked other (blocked.of_path path₁)]
    exact get_set_of_ne heap .running apart.symm
  · intro unsettled
    exact (respects.path blocked path₁).replace (not_waits running (by simp [Cell.awaits]))
      (respects.still_blocked blocked).unsettled unsettled fun third => get_set_of_ne heap' cell

theorem recurse_keeps (behaviour : Behaviour τ) (fuel : Nat) : Keeps behaviour fuel := by
  induction fuel with
  | zero => intro ref heap outcome heap' recursed; cases recursed
  | succ fuel ih =>
    intro ref heap outcome heap' recursed other path
    have turn := recurse_succ behaviour fuel ref heap
    generalize recurse behaviour (fuel + 1) ref heap = result at turn recursed
    -- All that the cell waits for is settled, and the cells that wait for it are as they were.
    have readied {cell : Cell τ} (found : heap.get ref = cell) {outcomes : List Outcome} {heap₁ : Heap τ}
        (mapped : cell.awaits.mapM (recurse behaviour fuel) heap = .ok outcomes heap₁) :
        other ≠ ref ∧ heap₁.get other = heap.get other ∧ heap₁.get ref = cell ∧ heap₁.Path other ref ∧
          ∀ third, ¬ heap₁.Waits ref third := by
      obtain ⟨serves, here, settled⟩ := ih.readied found mapped
      obtain ⟨kept, path'⟩ := serves.keeps ih other path.to_reflTransGen
      have still := not_waits here (isSettled_of_map_settled? settled)
      exact ⟨serves.apart ih still path, kept, here, path', still⟩
    cases turn with
    | running | uncopied | unready | unperformed => cases recursed
    | settled known =>
      cases recursed
      refine ⟨?_, rfl⟩
      rintro rfl
      obtain ⟨first, waits, _⟩ := Relation.TransGen.head'_iff.mp path
      have unsettled := waits.idle.2
      simp [isSettled, known] at unsettled
    | @copied target outcome heap₁ found recursed' =>
      cases recursed
      have mapped : [target].mapM (recurse behaviour fuel) heap = .ok [outcome] heap₁ := by
        rw [mapM_singleton, bind_of_ok recursed']
        rfl
      obtain ⟨apart, kept, _⟩ := readied found mapped
      exact ⟨apart, by rw [get_set_of_ne _ _ apart.symm, kept]⟩
    | @failed inputs task outcomes fault heap₁ found mapped failed =>
      cases recursed
      obtain ⟨apart, kept, _⟩ := readied found mapped
      exact ⟨apart, by rw [get_set_of_ne _ _ apart.symm, kept]⟩
    | @performed inputs task outcomes values heap₁ heap₂ cell found mapped got performed =>
      obtain ⟨apart, kept, here, path₁, still⟩ := readied found mapped
      obtain ⟨same, path₂⟩ := perform_keeps here still apart path₁ performed
      refine ⟨apart, ?_⟩
      rw [← kept, ← same]
      by_cases known : (heap₂.set ref cell).isSettled ref = true
      · rcases recurse_of_settled known with exhausted | ⟨outcome', again⟩
        · rw [exhausted] at recursed
          cases recursed
        · rw [again] at recursed
          cases recursed
          rfl
      · rcases Relation.reflTransGen_iff_eq_or_transGen.mp (path₂ (by simpa using known)) with same' | path₃
        · exact absurd same'.symm apart
        · exact (ih recursed other path₃).2

end Order

end ByNeed.Heap
