import ByNeed.Proofs.Heap.Promise

set_option autoImplicit false

namespace ByNeed

variable {τ π : Type}

namespace Heap

def Settles (behaviour : Behaviour τ) (ref : Ref) (heap heap' : Heap τ) : Prop :=
  ∀ rest, Moves behaviour (ref :: rest) heap rest heap'

def Continues (behaviour : Behaviour τ) (ref : Ref) (heap heap' : Heap τ) : Prop :=
  ∀ rest, Moves behaviour (ref :: rest) heap (ref :: rest) heap'

variable {behaviour : Behaviour τ} {heap heap' heap'' : Heap τ} {ref : Ref}

theorem Continues.trans (first : Continues behaviour ref heap heap')
    (second : Continues behaviour ref heap' heap'') : Continues behaviour ref heap heap'' :=
  fun rest => (first rest).trans (second rest)

theorem Continues.settles (first : Continues behaviour ref heap heap')
    (second : Settles behaviour ref heap' heap'') : Settles behaviour ref heap heap'' :=
  fun rest => (first rest).trans (second rest)

-- A cell that waits for one cell only gets on once that one is settled.
theorem Settles.continues {other : Ref} (settles : Settles behaviour other heap heap')
    (awaits : (heap.get ref).awaits = [other]) : Continues behaviour ref heap heap' := by
  by_cases known : heap.isSettled other = true
  · have same := (settles []).drains.unique (moves_pop known : Moves behaviour [other] heap [] heap).drains
    cases same
    exact fun _ => .refl _ _
  · have waits : heap.Waits ref other := by simp [Waits, awaits, known]
    exact fun rest => (moves_push waits).trans (settles _)

theorem Settles.isSettled (settles : Settles behaviour ref heap heap') : heap'.isSettled ref = true := by
  obtain ⟨bound, drains⟩ := (settles []).drains
  exact drive_settles bound [ref] (drains bound (Nat.le_refl _)) ref List.mem_cons_self

end Heap

namespace Terms

variable {terms : Terms τ π} {behaviour : Behaviour τ} {bound : Nat} {plan plan' : Plan π}
  {heap heap' : Heap τ} {ref : Ref} {promise own : π} {cell : Cell τ}

-- Whatever is promised something of lower rank than the bound gets settled.
def Reliable (terms : Terms τ π) (behaviour : Behaviour τ) (bound : Nat) : Prop :=
  ∀ (plan : Plan π) (heap : Heap τ) (ref : Ref), terms.Follows bound plan heap →
    terms.Under plan bound ref → ∃ heap', Heap.Settles behaviour ref heap heap'

section Settling

variable (honoured : terms.Honoured behaviour)
include honoured

theorem Advances.widen {bound' : Nat} (advances : terms.Advances bound plan heap plan' heap')
    (follows : terms.Follows bound' plan heap) (wider : bound ≤ bound') :
    terms.Advances bound' plan heap plan' heap' where
  extends' := advances.extends'
  follows.size := advances.follows.size
  follows.keeps {ref promise} promises lower := by
    by_cases below : terms.rank promise < bound
    · exact advances.follows.keeps promises below
    · have here : ref < plan.size := by
        by_contra outside
        exact below (advances.fresh promises (Nat.le_of_not_lt outside))
      have promises₀ := promises.restrict advances.extends' here
      rw [advances.frame ref here fun promise' promises' => by
        rw [promises'.unique promises₀]
        exact Nat.le_of_not_lt below]
      exact honoured.extend (follows.keeps promises₀ lower) advances.extends'
  fresh promises outside := Nat.lt_of_lt_of_le (advances.fresh promises outside) wider
  frame ref inside higher := advances.frame ref inside fun promise promises =>
    Nat.le_trans wider (higher promise promises)
  settled := advances.settled

theorem settles_advances (follows : terms.Follows bound plan heap) (under : terms.Under plan bound ref)
    (settles : Heap.Settles behaviour ref heap heap') :
    ∃ plan', terms.Advances bound plan heap plan' heap' ∧ heap.Finishes heap' := by
  obtain ⟨fuel, drains⟩ := (settles []).drains
  have drives := drive_follows honoured fuel [ref] follows (by simpa using under)
  have drove : Heap.drive behaviour fuel [ref] heap = .ok () heap' := drains fuel (Nat.le_refl _)
  rw [drove] at drives
  cases drives with
  | done advances finishes => exact ⟨_, advances, finishes⟩

-- The cells that a cell waits for are settled one after another, always the first unsettled one.
theorem Reliable.awaited (reliable : terms.Reliable behaviour bound)
    (follows : terms.Follows bound plan heap) (promises : plan.Promises ref promise)
    (same : bound = terms.rank promise) (served todo : List Ref)
    (split : (heap.get ref).awaits = served ++ todo)
    (ready : ∀ other ∈ served, heap.isSettled other = true)
    (under : ∀ other ∈ todo, terms.Under plan bound other) :
    ∃ plan₁ heap₁, terms.Advances bound plan heap plan₁ heap₁ ∧
      Heap.Continues behaviour ref heap heap₁ ∧
      ∀ other ∈ (heap.get ref).awaits, heap₁.isSettled other = true := by
  induction todo generalizing served plan heap with
  | nil => exact ⟨plan, heap, .refl follows, fun _ => .refl _ _, by simpa [split] using ready⟩
  | cons input todo ih =>
    have split' : (heap.get ref).awaits = (served ++ [input]) ++ todo := by simp [split]
    have here := under input List.mem_cons_self
    have later := fun other member => under other (List.mem_cons_of_mem input member)
    by_cases known : heap.isSettled input = true
    · refine ih follows promises (served ++ [input]) split' ?_ later
      simpa [or_imp, forall_and, known] using ready
    · have waits : heap.Waits ref input := by
        have none : served.find? (fun other => !heap.isSettled other) = none := by simpa using ready
        simp [Heap.Waits, split, List.find?_append, none, known]
      obtain ⟨heap₁, settles⟩ := reliable plan heap input follows here
      obtain ⟨plan₁, advances, _⟩ := settles_advances honoured follows here settles
      have kept : heap₁.get ref = heap.get ref := advances.frame ref promises.1 fun promise' promises' => by
        rw [promises'.unique promises]
        exact Nat.le_of_eq same
      obtain ⟨plan₂, heap₂, advances₂, continues, settled⟩ :=
        ih advances.follows (promises.extend advances.extends') (served ++ [input]) (kept ▸ split')
          (fun other member => by
            rcases List.mem_append.mp member with earlier | isInput
            · exact advances.isSettled (ready other earlier)
            · rw [List.mem_singleton.mp isInput]
              exact settles.isSettled)
          fun other member => (later other member).extend advances.extends'
      refine ⟨plan₂, heap₂, advances.trans advances₂, ?_, kept ▸ settled⟩
      exact Heap.Continues.trans (fun rest => (Heap.moves_push waits).trans (settles _)) continues

theorem Reliable.ready (reliable : terms.Reliable behaviour (terms.rank promise))
    (follows : terms.Follows bound plan heap) (promises : plan.Promises ref promise)
    (lower : terms.rank promise < bound) :
    ∃ plan₁ heap₁, terms.Advances bound plan heap plan₁ heap₁ ∧
      Heap.Continues behaviour ref heap heap₁ ∧ heap₁.get ref = heap.get ref ∧
      ∀ other ∈ (heap.get ref).awaits, heap₁.isSettled other = true := by
  obtain ⟨plan₁, heap₁, advances, continues, settled⟩ :=
    reliable.awaited honoured (follows.mono (Nat.le_of_lt lower)) promises rfl [] (heap.get ref).awaits rfl
      (by simp) (honoured.awaited (follows.keeps promises lower))
  refine ⟨plan₁, heap₁, advances.widen honoured follows (Nat.le_of_lt lower), continues, ?_, settled⟩
  exact advances.frame ref promises.1 fun promise' promises' => by rw [promises'.unique promises]

theorem Reliable.performs (reliable : terms.Reliable behaviour (terms.rank own)) {step : Step τ}
    (realizes : terms.Realizes behaviour own plan step)
    (follows : terms.Follows (terms.rank own) plan heap) :
    ∃ cell heap', Heap.Performs behaviour step heap (.ok cell heap') := by
  induction realizes generalizing heap with
  | done => exact ⟨_, _, Heap.performs_done _ heap⟩
  | fail => exact ⟨_, _, Heap.performs_fail _ heap⟩
  | defer => exact ⟨_, _, Heap.performs_defer _ heap⟩
  | alloc lower keeps _ ih =>
    have first := Advances.push honoured follows lower keeps
    obtain ⟨cell, heap', performs⟩ := ih first.follows
    rw [follows.size] at performs
    exact ⟨cell, heap', Heap.performs_alloc performs⟩
  | demand promises lower _ ih =>
    obtain ⟨heap₁, settles⟩ := reliable _ heap _ follows ⟨_, promises, lower⟩
    obtain ⟨plan₁, advances, _⟩ := settles_advances honoured follows ⟨_, promises, lower⟩ settles
    obtain ⟨outcome, known⟩ := Option.isSome_iff_exists.mp settles.isSettled
    have keeps := advances.follows.promised (promises.extend advances.extends') lower known
    obtain ⟨cell, heap', performs⟩ := ih plan₁ outcome advances.extends' keeps advances.follows
    exact ⟨cell, heap', Heap.performs_demand ((settles []).force known) performs⟩
  | become _ ih =>
    obtain ⟨cell, heap', performs⟩ := ih follows
    exact ⟨cell, heap', Heap.performs_become performs⟩

-- A cell that is not suspended is settled once the cell it was handed over to is.
theorem Reliable.settles (reliable : terms.Reliable behaviour (terms.rank promise))
    (follows : terms.Follows bound plan heap) (promises : plan.Promises ref promise)
    (lower : terms.rank promise < bound) (performed : (heap.get ref).isPending = false) :
    ∃ heap', Heap.Settles behaviour ref heap heap' := by
  cases found : heap.get ref with
  | pending => simp [found, Cell.isPending] at performed
  | running => exact absurd (found ▸ follows.keeps promises lower) honoured.idle
  | forced | failed =>
    exact ⟨heap, fun rest => Heap.moves_pop (by simp [Heap.isSettled, Heap.settled?, found, Cell.settled?])⟩
  | delegated target =>
    obtain ⟨plan₁, heap₁, advances, continues, kept, settled⟩ := reliable.ready honoured follows promises lower
    have here : heap₁.get ref = .delegated target := kept.trans found
    obtain ⟨outcome, known⟩ := Option.isSome_iff_exists.mp (settled target (by simp [found, Cell.awaits]))
    have inside : ref < heap₁.cells.size := Heap.inside_of_get_ne (by simp [here])
    refine ⟨_, continues.settles fun rest => (Heap.moves_copy here known).trans (Heap.moves_pop ?_)⟩
    simp [Heap.isSettled, Heap.settled?_set_ofOutcome inside outcome]

theorem reliable (bound : Nat) : terms.Reliable behaviour bound := by
  induction bound using Nat.strongRecOn with
  | ind bound ih =>
    intro plan heap ref follows ⟨promise, promises, lower⟩
    have below := ih (terms.rank promise) lower
    by_cases performed : (heap.get ref).isPending = false
    · exact below.settles honoured follows promises lower performed
    · obtain ⟨inputs, task, found⟩ : ∃ inputs task, heap.get ref = .pending inputs task := by
        cases found : heap.get ref <;> simp_all [Cell.isPending]
      obtain ⟨plan₁, heap₁, advances, continues, kept, settled⟩ := below.ready honoured follows promises lower
      have here : heap₁.get ref = .pending inputs task := kept.trans found
      have ready : ∀ input ∈ inputs, heap₁.isSettled input = true := by simpa [found, Cell.awaits] using settled
      have promises₁ := promises.extend advances.extends'
      have keeps := advances.follows.keeps promises₁ lower
      rw [here] at keeps
      have supplies := advances.follows.supplies honoured keeps lower ready
      have inside : ref < heap₁.cells.size := Heap.inside_of_get_ne (by simp [here])
      cases got : heap₁.values inputs with
      | error fault =>
        refine ⟨_, continues.settles fun rest => (Heap.moves_fail here ready got).trans (Heap.moves_pop ?_)⟩
        exact (congrArg Option.isSome (Heap.settled?_set_ofOutcome inside (.error fault)))
      | ok values =>
        have realizes := honoured.performed keeps supplies got
        have resumed := advances.follows.resume promises₁ lower
        obtain ⟨cell, heap₂, performs⟩ := below.performs honoured realizes resumed
        have moves := continues.trans fun rest => Heap.moves_perform here ready got performs
        have ended := performs.not_pending
        obtain ⟨fuel, ran⟩ := performs
        obtain ⟨plan₂, advances', _, keeps'⟩ := realizes.advances honoured resumed (ran fuel fuel (Nat.le_refl _) (Nat.le_refl _))
        have turn := Advances.perform honoured advances.follows (Heap.not_settled here rfl) promises₁ lower advances' keeps'
        have promises₂ := promises₁.extend advances'.extends'
        have inside₂ : ref < heap₂.cells.size := by
          rw [← advances'.follows.size]
          exact promises₂.1
        obtain ⟨heap₃, settles⟩ := below.settles honoured turn.follows promises₂ lower
          (by rw [Heap.get_set_self _ _ inside₂]; exact ended)
        exact ⟨heap₃, moves.settles settles⟩

-- Only cells of lower rank and the cell itself are touched.
theorem Honoured.settles (follows : terms.Follows bound plan heap) (promises : plan.Promises ref promise)
    (lower : terms.rank promise < bound) :
    ∃ outcome plan' heap', Heap.Settles behaviour ref heap heap' ∧
      terms.Advances (terms.rank promise + 1) plan heap plan' heap' ∧ heap.Finishes heap' ∧
      heap'.settled? ref = some outcome ∧ terms.Keeps plan' promise (.ofOutcome outcome) := by
  have here := follows.mono (Nat.succ_le_of_lt lower)
  have under : terms.Under plan (terms.rank promise + 1) ref := ⟨promise, promises, Nat.lt_succ_self _⟩
  obtain ⟨heap', settles⟩ := reliable honoured _ plan heap ref here under
  obtain ⟨plan', advances, finishes⟩ := settles_advances honoured here under settles
  obtain ⟨outcome, known⟩ := Option.isSome_iff_exists.mp settles.isSettled
  exact ⟨outcome, plan', heap', settles, advances, finishes, known,
    advances.follows.promised (promises.extend advances.extends') (Nat.lt_succ_self _) known⟩

end Settling

-- All cells that are promised something are good for it.
def Holds (terms : Terms τ π) (plan : Plan π) (heap : Heap τ) : Prop :=
  ∀ bound, terms.Follows bound plan heap

structure Grows (terms : Terms τ π) (plan : Plan π) (heap : Heap τ) (plan' : Plan π) (heap' : Heap τ) :
    Prop where
  extends' : plan.Extends plan'
  holds : terms.Holds plan' heap'
  settled : ∀ ref, heap.isSettled ref = true → heap'.get ref = heap.get ref

theorem Holds.size (holds : terms.Holds plan heap) : plan.size = heap.cells.size :=
  (holds 0).size

theorem Holds.keeps (holds : terms.Holds plan heap) (promises : plan.Promises ref promise) :
    terms.Keeps plan promise (heap.get ref) :=
  (holds (terms.rank promise + 1)).keeps promises (Nat.lt_succ_self _)

theorem Holds.promised {outcome : Outcome} (holds : terms.Holds plan heap)
    (promises : plan.Promises ref promise) (known : heap.settled? ref = some outcome) :
    terms.Keeps plan promise (.ofOutcome outcome) :=
  Heap.get_of_settled? known ▸ holds.keeps promises

namespace Grows

variable {plan'' : Plan π} {heap'' : Heap τ}

theorem refl (holds : terms.Holds plan heap) : terms.Grows plan heap plan heap :=
  ⟨.refl plan, holds, fun _ _ => rfl⟩

theorem isSettled (grows : terms.Grows plan heap plan' heap') (known : heap.isSettled ref = true) :
    heap'.isSettled ref = true := by
  simpa [Heap.isSettled, Heap.settled?, grows.settled ref known] using known

theorem trans (first : terms.Grows plan heap plan' heap') (second : terms.Grows plan' heap' plan'' heap'') :
    terms.Grows plan heap plan'' heap'' where
  extends' := first.extends'.trans second.extends'
  holds := second.holds
  settled ref known := (second.settled ref (first.isSettled known)).trans (first.settled ref known)

theorem keeps {outcome : Outcome} (grows : terms.Grows plan heap plan' heap')
    (known : heap.settled? ref = some outcome) : heap'.settled? ref = some outcome := by
  have same := grows.settled ref (by simp [Heap.isSettled, known])
  simpa [Heap.settled?, same] using known

theorem size (grows : terms.Grows plan heap plan' heap') (holds : terms.Holds plan heap) :
    heap.cells.size ≤ heap'.cells.size := by
  rw [← holds.size, ← grows.holds.size]
  exact grows.extends'.size

end Grows

inductive ForceEnds (terms : Terms τ π) (plan : Plan π) (heap : Heap τ) (ref : Ref) (promise : π) :
    EStateM.Result Interrupt (Heap τ) Value → Prop
  | outcome {outcome : Outcome} {plan' : Plan π} {heap' : Heap τ} (grows : terms.Grows plan heap plan' heap')
    (finishes : heap.Finishes heap') (known : heap'.settled? ref = some outcome)
    (keeps : terms.Keeps plan' promise (.ofOutcome outcome)) :
    ForceEnds terms plan heap ref promise (HeapM.ofOutcome outcome heap')
  | exhausted {plan' : Plan π} {heap' : Heap τ} (grows : terms.Grows plan heap plan' heap') :
    ForceEnds terms plan heap ref promise (.error .exhausted heap')

section Holding

variable (honoured : terms.Honoured behaviour)
include honoured

theorem Advances.grows (advances : terms.Advances bound plan heap plan' heap')
    (holds : terms.Holds plan heap) : terms.Grows plan heap plan' heap' where
  extends' := advances.extends'
  holds bound' := (advances.widen honoured (holds (max bound bound')) (Nat.le_max_left _ _)).follows.mono
    (Nat.le_max_right _ _)
  settled := advances.settled

theorem Holds.push (holds : terms.Holds plan heap) (keeps : terms.Keeps plan promise cell) :
    terms.Grows plan heap (plan.push promise) (heap.push cell) :=
  (Advances.push honoured (holds (terms.rank promise + 1)) (Nat.lt_succ_self _) keeps).grows honoured holds

theorem Holds.force_ends (holds : terms.Holds plan heap) (promises : plan.Promises ref promise) (fuel : Nat) :
    terms.ForceEnds plan heap ref promise (Heap.force behaviour fuel ref heap) := by
  have forces := force_follows honoured fuel (holds (terms.rank promise + 1)) ⟨promise, promises, Nat.lt_succ_self _⟩
  generalize Heap.force behaviour fuel ref heap = result at forces
  cases forces with
  | exhausted advances => exact .exhausted (advances.grows honoured holds)
  | outcome advances finishes known =>
    have grows := advances.grows honoured holds
    exact .outcome grows finishes known (grows.holds.promised (promises.extend grows.extends') known)

theorem Holds.force (holds : terms.Holds plan heap) (promises : plan.Promises ref promise) :
    ∃ outcome plan' heap',
      Eventually (fun fuel => Heap.force behaviour fuel ref) heap (HeapM.ofOutcome outcome heap') ∧
      terms.Grows plan heap plan' heap' ∧ heap.Finishes heap' ∧
      heap'.settled? ref = some outcome ∧ terms.Keeps plan' promise (.ofOutcome outcome) := by
  obtain ⟨outcome, plan', heap', settles, advances, finishes, known, keeps⟩ :=
    Honoured.settles honoured (holds (terms.rank promise + 1)) promises (Nat.lt_succ_self _)
  exact ⟨outcome, plan', heap', (settles []).force known, advances.grows honoured holds, finishes, known, keeps⟩

theorem Holds.performs (holds : terms.Holds plan heap) {step : Step τ}
    (realizes : terms.Realizes behaviour own plan step) :
    ∃ cell plan' heap', Heap.Performs behaviour step heap (.ok cell heap') ∧ terms.Grows plan heap plan' heap' ∧
      heap.Finishes heap' ∧ terms.Keeps plan' own cell := by
  obtain ⟨cell, heap', performs⟩ := (reliable honoured (terms.rank own)).performs honoured realizes (holds _)
  obtain ⟨fuel, ran⟩ := id performs
  obtain ⟨plan', advances, finishes, keeps⟩ :=
    realizes.advances honoured (holds _) (ran fuel fuel (Nat.le_refl _) (Nat.le_refl _))
  exact ⟨cell, plan', heap', performs, advances.grows honoured holds, finishes, keeps⟩

end Holding

end Terms

end ByNeed
