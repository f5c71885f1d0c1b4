import ByNeed.Proofs.Heap.Explore
import ByNeed.Proofs.Session.Safety

set_option autoImplicit false

-- A session runs programs one after another in one context, with cells forced in between. Some of that may
-- fail or run out of fuel.
namespace ByNeed

inductive Action where
  | run (program : Program)
  | force (ref : Ref)
  | forceDeep (ref : Ref)

def Action.perform (fuel : Nat) : Action → Eval (Option Ref)
  | .run program => program.exec fuel
  | .force ref => do
    let _ ← Eval.force fuel ref
    return none
  | .forceDeep ref => do
    let _ ← Eval.forceDeep fuel ref
    return none

def Heap.Has (heap : Heap Task) (ref : Ref) : Prop :=
  ref < heap.cells.size

def Action.Inside (heap : Heap Task) : Action → Prop
  | .run _ => True
  | .force ref | .forceDeep ref => heap.Has ref

structure Session where
  context : Context := {}
  results : List Ref := []

namespace Session

-- A cell that a name is bound to or that a program led to.
def Offers (session : Session) (ref : Ref) : Prop :=
  ref ∈ session.results ∨ ∃ id, session.context.environment.get? id = some ref

def after (session : Session) (fuel : Nat) (action : Action) : Session :=
  match action.perform fuel session.context with
  | .ok result context => ⟨context, result.toList ++ session.results⟩
  | .error _ context => ⟨context, session.results⟩

inductive Step (session : Session) : Session → Prop
  | act {fuel : Nat} {action : Action} (inside : action.Inside session.context.heap) :
    Step session (session.after fuel action)

def Steps : Session → Session → Prop :=
  Relation.ReflTransGen Step

def Reachable (session : Session) : Prop :=
  Steps {} session

structure Sound (session : Session) (plan : Plan Promise) : Prop where
  context : session.context.Sound plan
  results : ∀ ref ∈ session.results, plan.Has ref

end Session

theorem Context.Sound.has {context : Context} {plan : Plan Promise} (sound : context.Sound plan) {ref : Ref}
    (has : context.heap.Has ref) : plan.Has ref :=
  sound.total ref (sound.holds.size ▸ has)

theorem perform_safe (fuel : Nat) (action : Action) {context : Context} {plan : Plan Promise}
    (sound : context.Sound plan) (inside : action.Inside context.heap) :
    Safe plan Plan.HasResult (action.perform fuel context) := by
  cases action with
  | run program => exact execBlock_safe fuel program.statements none sound (hasResult_none _)
  | force ref =>
    refine .bind (force_safe fuel sound (sound.has inside)) ?_
    intro _ context₁ plan₁ sound₁ _ _
    exact .pure sound₁ (hasResult_none _)
  | forceDeep ref =>
    refine .bind (forceDeep_safe fuel sound (sound.has inside)) ?_
    intro _ context₁ plan₁ sound₁ _ _
    exact .pure sound₁ (hasResult_none _)

namespace Session

variable {session session' : Session} {plan : Plan Promise}

theorem sound_empty : Sound {} ⟨0, fun _ => none⟩ where
  context.holds _ := ⟨rfl, fun promises => absurd promises.1 (Nat.not_lt_zero _)⟩
  context.total _ inside := absurd inside (Nat.not_lt_zero _)
  context.inside id ref found := by simp [Environment.get?] at found
  results := nofun

theorem Step.safe (step : Step session session') (sound : session.Sound plan) :
    ∃ plan', session'.Sound plan' ∧ plan.Extends plan' := by
  cases step with
  | @act fuel action inside =>
    have safe := perform_safe fuel action sound.context inside
    unfold after
    generalize action.perform fuel session.context = ending at safe
    cases safe with
    | @ok _ _ plan' sound' extends' has =>
      refine ⟨plan', ⟨sound', fun ref member => ?_⟩, extends'⟩
      rcases List.mem_append.mp member with here | earlier
      · exact has ref (Option.mem_toList.mp here)
      · exact (sound.results ref earlier).extend extends'
    | @error _ _ plan' sound' extends' other =>
      exact ⟨plan', ⟨sound', fun ref member => (sound.results ref member).extend extends'⟩, extends'⟩

theorem Steps.safe (steps : Steps session session') (sound : session.Sound plan) :
    ∃ plan', session'.Sound plan' ∧ plan.Extends plan' := by
  induction steps with
  | refl => exact ⟨plan, sound, .refl plan⟩
  | tail _ step ih =>
    obtain ⟨plan₁, sound₁, extends₁⟩ := ih
    obtain ⟨plan₂, sound₂, extends₂⟩ := step.safe sound₁
    exact ⟨plan₂, sound₂, extends₁.trans extends₂⟩

theorem Reachable.sound (reachable : session.Reachable) : ∃ plan, session.Sound plan := by
  obtain ⟨plan, sound, _⟩ := Steps.safe reachable sound_empty
  exact ⟨plan, sound⟩

/-- Whatever a session does, no reference leads outside its heap. -/
theorem Reachable.whole (reachable : session.Reachable) : session.context.heap.Whole := by
  obtain ⟨plan, sound⟩ := reachable.sound
  refine Heap.whole_of_cells fun ref inside other member => ?_
  obtain ⟨promise, promises⟩ := sound.context.has inside
  obtain ⟨_, promises', _⟩ := (sound.context.holds.keeps promises).1.lower other member
  rw [← sound.context.holds.size]
  exact promises'.1

theorem Sound.has_of_offers (sound : session.Sound plan) {ref : Ref} (offers : session.Offers ref) :
    plan.Has ref := by
  rcases offers with result | ⟨id, bound⟩
  · exact sound.results ref result
  · exact sound.context.inside id ref bound

end Session

section Termination

variable {context : Context} {plan : Plan Promise}

-- With enough fuel, the action comes to an end: it succeeds, or it fails with a fault.
def Action.Ends (action : Action) (context : Context) : Prop :=
  (∃ result context', Eventually (fun fuel => action.perform fuel) context (.ok result context')) ∨
    ∃ fault context',
      Eventually (fun fuel => action.perform fuel) context (.error (.fault fault) context')

def Context.state (context : Context) (plan : Plan Promise) : Strict.State where
  bindings id := (context.environment.get? id).map plan.meaning
  registry := context.registry
  output := context.output

theorem Plan.Has.denotes {ref : Ref} (has : plan.Has ref) : plan.Denotes ref (plan.meaning ref) := by
  obtain ⟨promise, promises⟩ := has
  exact ⟨promise, promises, promises.meaning.symm⟩

theorem Context.Sound.represents (sound : context.Sound plan) : context.Represents plan (context.state plan) where
  holds := sound.holds.of_restrict
  total := sound.total
  bindings id := by
    simp only [Context.state]
    cases found : context.environment.get? id with
    | none => exact .none
    | some ref => exact .some (sound.inside id ref found).denotes
  registry := rfl
  output := rfl

theorem Action.ends_of_simulates {α β : Type} {action : Action} {computation : Nat → Eval α}
    {related : Plan Promise → α → β → Prop} {outcome : EStateM.Result Fault Strict.State β}
    (next : α → Option Ref)
    (performs : ∀ fuel, action.perform fuel = do return next (← computation fuel))
    (simulates : Simulates context plan computation related outcome) : action.Ends context := by
  unfold Action.Ends
  simp only [performs]
  cases simulates with
  | ok run _ _ _ => exact .inl ⟨_, _, run.bind (eventually_of_forall fun _ => rfl)⟩
  | error run _ _ => exact .inr ⟨_, _, run.bind_error⟩

theorem Action.ends (action : Action) (sound : context.Sound plan) (inside : action.Inside context.heap) :
    action.Ends context := by
  have represents := sound.represents
  cases action with
  | run program =>
    exact ends_of_simulates id (fun fuel => (bind_pure _).symm)
      (execBlock_simulates program.statements represents .none)
  | force ref =>
    exact ends_of_simulates (fun _ => none) (fun _ => rfl) (force_simulates represents (sound.has inside).denotes)
  | forceDeep ref =>
    have simulates : Simulates context plan (fun fuel => Eval.forceDeep fuel ref >>= fun _ => pure none)
        (fun _ (_ : Option Ref) (_ : Unit) => True)
        ((Strict.Exec.demandDeep (plan.meaning ref) >>= fun _ => pure ()) (context.state plan)) :=
      forceDeep_simulates represents (sound.has inside).denotes
        fun _ _ _ _ represents' _ _ _ => .pure represents' trivial
    exact ends_of_simulates id (fun fuel => (bind_pure _).symm) simulates

end Termination

/-- The cell has an input, a deferred cell or a target, or holds or captures a value with a list
element, that is the other one. -/
def Heap.Refers (heap : Heap Task) (ref other : Ref) : Prop :=
  other ∈ Task.reading.links (heap.get ref)

-- Along references the rank goes down, whichever cell was made first.
theorem Context.Sound.lower {context : Context} {plan : Plan Promise} (sound : context.Sound plan) {ref other : Ref}
    (path : Relation.TransGen context.heap.Refers ref other) :
    ∃ promise promise', plan.Promises ref promise ∧ plan.Promises other promise' ∧ promise'.rank < promise.rank := by
  have below {ref other : Ref} (refers : context.heap.Refers ref other) :
      ∃ promise promise', plan.Promises ref promise ∧ plan.Promises other promise' ∧ promise'.rank < promise.rank := by
    have inside : context.heap.Has ref := by
      by_contra outside
      rw [Heap.Refers, Heap.get_outside (Nat.le_of_not_lt outside)] at refers
      cases refers
    obtain ⟨promise, promises⟩ := sound.has inside
    obtain ⟨promise', promises', lower⟩ := (sound.holds.keeps promises).1.lower other refers
    exact ⟨promise, promise', promises, promises', Nat.lt_of_le_of_lt (Nat.le_add_right _ _) lower⟩
  induction path with
  | single refers => exact below refers
  | tail _ refers ih =>
    obtain ⟨promise, promise₁, promises, promises₁, lower⟩ := ih
    obtain ⟨promise₁', promise₂, promises₁', promises₂, lower'⟩ := below refers
    cases promises₁.unique promises₁'
    exact ⟨promise, promise₂, promises, promises₂, Nat.lt_trans lower' lower⟩

-- While the task of a cell is performed, no force that it makes comes back to that cell.
theorem Context.Sound.performed {context : Context} {plan : Plan Promise} (sound : context.Sound plan) {ref : Ref}
    {inputs : List Ref} {task : Task} {values : List Value} (found : context.heap.get ref = .pending inputs task)
    (ready : ∀ input ∈ inputs, context.heap.isSettled input = true)
    (got : context.heap.values inputs = .ok values) {fuel : Nat} {cell : Cell Task} {heap' : Heap Task}
    (ran : Heap.perform Task.run (Heap.force Task.run fuel) fuel (Task.run task values) (context.heap.resume ref) =
      .ok cell heap') : cell.Proper := by
  have inside : context.heap.Has ref := Heap.inside_of_get_ne (by simp [found])
  obtain ⟨promise, promises⟩ := sound.has inside
  have keeps := sound.holds.keeps promises
  rw [found] at keeps
  have follows := sound.holds (promise.rank + 1)
  have lower : Task.terms.rank promise < promise.rank + 1 := Nat.lt_succ_self _
  have realizes := Task.honoured.performed keeps (follows.supplies Task.honoured keeps lower ready) got
  obtain ⟨_, _, _, keeps'⟩ := realizes.advances Task.honoured (follows.resume promises lower) ran
  exact keeps'.2

namespace Session

variable {session session' : Session}

/-- In a session, no cell depends on itself. No path of references leads from a cell back to it. No
cell is left with its task being performed or has failed for depending on itself, and no suspended
task gives up for want of a value. If the task of a cell is performed, which may force other cells
meanwhile, that does not fail for depending on itself either. Every action comes to an end, and none
ends with that fault, however much fuel there is. -/
theorem never_dependsOnItself (reachable : session.Reachable) :
    (∀ ref, ¬ Relation.TransGen session.context.heap.Refers ref ref) ∧
      (∀ ref, session.context.heap.Has ref →
        session.context.heap.get ref ≠ .running ∧
        session.context.heap.get ref ≠ .failed .dependsOnItself ∧
        ∀ inputs task values, session.context.heap.get ref = .pending inputs task →
          (values.length = inputs.length → Task.run task values ≠ .fail .dependsOnItself) ∧
          ((∀ input ∈ inputs, session.context.heap.isSettled input = true) →
            session.context.heap.values inputs = .ok values → ∀ fuel heap',
              Heap.perform Task.run (Heap.force Task.run fuel) fuel (Task.run task values)
                (session.context.heap.resume ref) ≠ .ok (.failed .dependsOnItself) heap')) ∧
      ∀ action : Action, action.Inside session.context.heap →
        action.Ends session.context ∧
        ∀ fuel context,
          action.perform fuel session.context ≠ .error (.fault .dependsOnItself) context := by
  obtain ⟨plan, sound⟩ := reachable.sound
  have sound := sound.context
  refine ⟨fun ref path => ?_, fun ref has => ?_,
    fun action inside => ⟨action.ends sound inside, fun fuel context ran => ?_⟩⟩
  · obtain ⟨promise, promise', promises, promises', lower⟩ := sound.lower path
    cases promises.unique promises'
    exact Nat.lt_irrefl _ lower
  · obtain ⟨promise, promises⟩ := sound.has has
    have keeps := sound.holds.keeps promises
    refine ⟨keeps.1.idle, ?_, fun inputs task values found => ⟨fun counted failed => ?_, ?_⟩⟩
    · intro failed
      rw [failed] at keeps
      exact keeps.2 rfl
    · rw [found] at keeps
      have good := Task.run_good (fun count known => counted.trans (keeps.2.1 count known)) keeps.2.2
      rw [failed] at good
      exact good rfl
    · exact fun ready got fuel heap' ran => sound.performed found ready got ran rfl
  · have safe := perform_safe fuel action sound inside
    rw [ran] at safe
    cases safe with
    | error _ _ other => exact other rfl

-- `a = 1`, a list with `a` and `a + a` that is bound to `b`, and whether it equals itself and is not empty.
def shared : Program where
  statements :=
    [.assign "a" (.literal (.integer 1)),
      .assign "b" (.list [.name "a", .arithmetic .add (.name "a") (.name "a")]),
      .evaluate (.logical .conjunction (.comparison .equal (.name "b") (.name "b"))
        (.comparison .notEqual (.name "b") (.list [])))]

-- `a` goes up by one, and then `b` is bound to what it was bound to together with `a`.
def rebound : Program where
  statements :=
    [.evaluate (.unary .increment (.name "a")),
      .assign "b" (.list [.name "b", .name "a"])]

theorem never_dependsOnItself_shared :
    Reachable (Session.after {} 9 (.run shared)) ∧
      (Action.forceDeep 6).Ends (Session.after {} 9 (.run shared)).context := by
  have reachable : Reachable (Session.after {} 9 (.run shared)) := .single (.act trivial)
  have inside : (Action.forceDeep 6).Inside (Session.after {} 9 (.run shared)).context.heap := by
    simp only [Action.Inside, Heap.Has]
    decide +kernel
  exact ⟨reachable, ((never_dependsOnItself reachable).2.2 _ inside).1⟩

/-- The outcome of a cell is fixed when it is made. Exploring the cell at once finds what exploring
it later finds, whatever the session does in between. -/
theorem explore_unchanged {ref : Ref} (reachable : session.Reachable) (offers : session.Offers ref)
    (steps : Steps session session') :
    ∃ outcome before after,
      Eventually (fun fuel => Heap.explore fuel ref) session.context.heap (.ok outcome before) ∧
        Eventually (fun fuel => Heap.explore fuel ref) session'.context.heap (.ok outcome after) := by
  obtain ⟨plan, sound⟩ := reachable.sound
  obtain ⟨promise, promises⟩ := sound.has_of_offers offers
  obtain ⟨plan', sound', extends'⟩ := steps.safe sound
  obtain ⟨_, before, _, _, found⟩ := Heap.explore_eventually sound.context.holds.of_restrict promises
  obtain ⟨_, after, _, _, found'⟩ :=
    Heap.explore_eventually sound'.context.holds.of_restrict (promises.extend extends')
  exact ⟨promise.complete, before, after, found, found'⟩

theorem explore_unchanged_rebound :
    (Session.after {} 9 (.run shared)).results = [6] ∧ ∃ outcome before after,
      Eventually (fun fuel => Heap.explore fuel 6) (Session.after {} 9 (.run shared)).context.heap
        (.ok outcome before) ∧
      Eventually (fun fuel => Heap.explore fuel 6)
        ((Session.after {} 9 (.run shared)).after 9 (.run rebound)).context.heap
        (.ok outcome after) := by
  have results : (Session.after {} 9 (.run shared)).results = [6] := by decide +kernel
  exact ⟨results, explore_unchanged (.single (.act trivial)) (.inl (by simp [results]))
    (.single (.act trivial))⟩

end Session

end ByNeed
