import ByNeed.Proofs.Heap.Proper
import ByNeed.Proofs.Strict.Refinement

set_option autoImplicit false

-- Running a program keeps its context sound, for any amount of fuel and whether or not it fails. There is
-- one lemma for each primitive and one case for each form of the syntax.
namespace ByNeed

structure Context.Sound (context : Context) (plan : Plan Promise) : Prop where
  holds : Task.terms.Holds plan context.heap
  total : plan.Total
  inside : ∀ id ref, context.environment.get? id = some ref → plan.Has ref

inductive Safe {α : Type} (plan : Plan Promise) (known : Plan Promise → α → Prop) :
    EStateM.Result Interrupt Context α → Prop
  | ok {result : α} {context' : Context} {plan' : Plan Promise} (sound : context'.Sound plan')
    (extends' : plan.Extends plan') (holds : known plan' result) : Safe plan known (.ok result context')
  | error {interrupt : Interrupt} {context' : Context} {plan' : Plan Promise} (sound : context'.Sound plan')
    (extends' : plan.Extends plan') (other : interrupt ≠ .fault .dependsOnItself) :
    Safe plan known (.error interrupt context')

def Plan.HasResult (plan : Plan Promise) (result : Option Ref) : Prop :=
  ∀ ref ∈ result, plan.Has ref

section Primitives

variable {α β : Type} {context : Context} {plan : Plan Promise} {known : Plan Promise → α → Prop}
  {known' : Plan Promise → β → Prop}

theorem Safe.bind {computation : Eval α} {next : α → Eval β} (first : Safe plan known (computation context))
    (second : ∀ result context' plan', context'.Sound plan' → plan.Extends plan' → known plan' result →
      Safe plan' known' (next result context')) : Safe plan known' ((computation >>= next) context) := by
  simp only [Bind.bind, EStateM.bind]
  generalize computation context = outcome at first
  cases first with
  | error sound extends' other => exact .error sound extends' other
  | @ok result context₁ plan₁ sound extends' holds =>
    have later := second result context₁ plan₁ sound extends' holds
    simp only
    generalize next result context₁ = outcome at later
    cases later with
    | ok sound' extends'' holds' => exact .ok sound' (extends'.trans extends'') holds'
    | error sound' extends'' other => exact .error sound' (extends'.trans extends'') other

theorem Safe.pure {result : α} (sound : context.Sound plan) (holds : known plan result) :
    Safe plan known ((Pure.pure result : Eval α) context) :=
  .ok sound (.refl plan) holds

theorem Safe.raise {fault : Fault} (sound : context.Sound plan) (other : fault ≠ .dependsOnItself) :
    Safe plan known ((Eval.raise fault : Eval α) context) :=
  .error sound (.refl plan) fun same => other (Interrupt.fault.inj same)

theorem Context.Sound.onHeap {plan' : Plan Promise} {heap' : Heap Task} (sound : context.Sound plan)
    (grows : Task.terms.Grows plan context.heap plan' heap') :
    Context.Sound { context with heap := heap' } plan' where
  holds := grows.holds
  total := sound.total.extend grows.extends'
  inside id ref found := (sound.inside id ref found).extend grows.extends'

theorem onHeap_safe {computation : HeapM Task α} (sound : context.Sound plan)
    (sane : Heap.Sane plan context.heap known (computation context.heap)) :
    Safe plan known (Eval.onHeap computation context) := by
  unfold Eval.onHeap
  simp only
  generalize computation context.heap = outcome at sane
  cases sane with
  | ok grows holds => exact .ok (sound.onHeap grows) grows.extends' holds
  | error grows other => exact .error (sound.onHeap grows) grows.extends' other

theorem force_safe (fuel : Nat) {ref : Ref} (sound : context.Sound plan) (has : plan.Has ref) :
    Safe plan Reading.Knows (Eval.force fuel ref context) := by
  obtain ⟨promise, promises⟩ := has
  exact onHeap_safe sound (Heap.force_sane fuel sound.holds promises)

theorem forceDeep_safe (fuel : Nat) {ref : Ref} (sound : context.Sound plan) (has : plan.Has ref) :
    Safe plan Reading.Knows (Eval.forceDeep fuel ref context) := by
  obtain ⟨promise, promises⟩ := has
  exact onHeap_safe sound (Heap.forceDeep_sane fuel sound.holds promises)

theorem alloc_safe {cell : Cell Task} (sound : context.Sound plan) (proper : cell.Proper)
    (inside : ∀ ref ∈ Task.reading.links cell, plan.Has ref) :
    Safe plan Plan.Has (Eval.alloc cell context) := by
  have idle : cell ≠ .running := by
    rintro rfl
    exact proper
  obtain ⟨promise, keeps⟩ := Reading.exists_keeps idle inside
  have both : Task.terms.Keeps plan promise cell := ⟨keeps, proper⟩
  have grows := sound.holds.push Task.honoured both
  refine .ok (sound.onHeap grows) grows.extends' ⟨promise, ?_⟩
  rw [← sound.holds.size]
  exact plan.promises_push promise

theorem alloc_forced_safe {value : Value} (sound : context.Sound plan)
    (knows : Reading.Knows plan value) :
    Safe plan Plan.Has (Eval.alloc (.forced value) context) :=
  alloc_safe sound trivial knows

theorem assign_safe (id : String) {ref : Ref} (sound : context.Sound plan) (has : plan.Has ref) :
    Safe plan (fun _ _ => True) (Eval.assign id ref context) := by
  refine .ok { sound with inside := fun other ref' found => ?_ } (.refl plan) trivial
  simp only [Environment.get?_set] at found
  by_cases same : id = other
  · rw [if_pos same] at found
    cases found
    exact has
  · rw [if_neg same] at found
    exact sound.inside other ref' found

theorem lookup_safe (id : String) (sound : context.Sound plan) :
    Safe plan Plan.HasResult (Eval.lookup? id context) :=
  .ok sound (.refl plan) fun ref found => sound.inside id ref found

theorem get_safe (sound : context.Sound plan) :
    Safe plan (fun _ _ => True) ((get : Eval Context) context) :=
  .ok sound (.refl plan) trivial

theorem reassign_safe (id : String) {value : Value} (sound : context.Sound plan)
    (knows : Reading.Knows plan value) :
    Safe plan (fun _ _ => True) (Eval.reassign id value context) := by
  unfold Eval.reassign
  refine .bind (get_safe sound) ?_
  intro found context₁ plan₁ sound₁ extends' _
  by_cases bound : found.environment.contains id = true
  · simp only [bound, if_true]
    refine .bind (alloc_forced_safe sound₁ (knows.extend extends')) ?_
    intro ref context₂ plan₂ sound₂ _ has
    exact assign_safe id sound₂ has
  · simp only [bound, if_false, Bool.false_eq_true]
    exact .raise sound₁ (by simp)

theorem define_safe (type : String) (fields : List String) (sound : context.Sound plan) :
    Safe plan (fun _ _ => True) (Eval.define type fields context) := by
  unfold Eval.define Registry.define
  by_cases defined : context.registry.definitions.contains type = true
  · simp only [defined, if_true]
    exact .error sound (.refl plan) (by simp)
  · simp only [defined, if_false, Bool.false_eq_true]
    exact .ok { sound with } (.refl plan) trivial

theorem print_safe (text : String) (sound : context.Sound plan) :
    Safe plan (fun _ _ => True) (Eval.print text context) :=
  .ok { sound with } (.refl plan) trivial

theorem display_safe (fuel : Nat) (value : Value) (sound : context.Sound plan) :
    Safe plan (fun _ _ => True) (Eval.display fuel value context) := by
  unfold Eval.display
  cases context.heap.display fuel value with
  | none => exact .error sound (.refl plan) (by simp)
  | some text => exact .ok sound (.refl plan) trivial

theorem restoring_safe {computation : Eval α} (sound : context.Sound plan)
    (body : Safe plan known (computation context)) :
    Safe plan known (Eval.restoring context.environment computation context) := by
  have restored {context' : Context} {plan' : Plan Promise} (sound' : context'.Sound plan')
      (extends' : plan.Extends plan') :
      Context.Sound { context' with environment := context.environment } plan' :=
    { sound' with inside := fun id ref found => (sound.inside id ref found).extend extends' }
  unfold Eval.restoring
  generalize computation context = outcome at body
  cases body with
  | ok sound' extends' holds => exact .ok (restored sound' extends') extends' holds
  | error sound' extends' other => exact .error (restored sound' extends') extends' other

end Primitives

section Expressions

variable {context : Context} {plan : Plan Promise}

theorem suspend_one_safe {task : Task} {ref : Ref} (sound : context.Sound plan)
    (input : plan.Has ref) (captured : ∀ ref ∈ task.refs, plan.Has ref)
    (arity : task.arity? = some 1) :
    Safe plan Plan.Has (Eval.alloc (.pending [ref] task) context) := by
  refine alloc_safe sound ⟨fun count found => ?_, ?_⟩ (List.forall_mem_cons.mpr ⟨input, captured⟩)
  · rw [arity] at found
    exact Option.some.inj found
  · rintro rfl
    cases arity

theorem suspend_two_safe {task : Task} {left right : Ref} (sound : context.Sound plan)
    (first : plan.Has left) (second : plan.Has right) (captured : task.refs = [])
    (arity : task.arity? = some 2) :
    Safe plan Plan.Has (Eval.alloc (.pending [left, right] task) context) := by
  refine alloc_safe sound ⟨fun count found => ?_, ?_⟩ ?_
  · rw [arity] at found
    exact Option.some.inj found
  · rintro rfl
    cases arity
  · simpa [Reading.links, Task.reading, captured] using ⟨first, second⟩

theorem fail_safe {fault : Fault} (sound : context.Sound plan) (other : fault ≠ .dependsOnItself) :
    Safe plan Plan.Has (Eval.alloc (.pending [] (.fail fault)) context) := by
  refine alloc_safe sound ⟨fun count found => Option.some.inj found, ?_⟩ ?_
  · simpa using other
  · simp [Reading.links, Task.reading, Task.refs]

theorem step_safe (fuel : Nat) (op : UnaryOp) (operand : Expr) (sound : context.Sound plan) :
    Safe plan Plan.Has (Eval.step fuel op operand context) := by
  cases operand with
  | name id =>
    simp only [Eval.step]
    refine .bind (lookup_safe id sound) ?_
    intro found context₁ plan₁ sound₁ _ has
    cases found with
    | none => exact .raise sound₁ (by simp)
    | some current =>
      refine .bind (force_safe fuel sound₁ (has current rfl)) ?_
      intro value context₂ plan₂ sound₂ _ _
      have proper := op.apply_proper value
      cases applied : op.apply value with
      | error fault =>
        apply Safe.raise sound₂
        rintro rfl
        exact proper applied
      | ok updated =>
        have single := op.apply_single value updated applied
        have closed (plan : Plan Promise) : Reading.Knows plan updated := by
          simp [Reading.Knows, updated.refs_of_isSingle single]
        refine .bind (reassign_safe id sound₂ (closed _)) ?_
        intro _ context₃ plan₃ sound₃ _ _
        exact alloc_forced_safe sound₃ (closed _)
  | _ => exact .raise sound (by simp)

mutual

theorem delay_safe (fuel : Nat) : ∀ (expr : Expr) {context : Context} {plan : Plan Promise}, context.Sound plan →
    Safe plan Plan.Has (expr.delay fuel context)
  | .literal value, context, plan, sound => by
    simp only [Expr.delay]
    have closed : (Value.ofLiteral value).refs = [] := by cases value <;> rfl
    exact alloc_forced_safe sound (by simp [Reading.Knows, closed])
  | .name id, context, plan, sound => by
    simp only [Expr.delay]
    refine .bind (lookup_safe id sound) ?_
    intro found context₁ plan₁ sound₁ _ has
    cases found with
    | none => exact fail_safe sound₁ (by simp)
    | some ref => exact .pure sound₁ (has ref rfl)
  | .list elements, context, plan, sound => by
    simp only [Expr.delay]
    refine .bind (delayAll_safe fuel elements sound) ?_
    intro refs context₁ plan₁ sound₁ _ has
    exact alloc_forced_safe sound₁ has
  | .index collection position, context, plan, sound => by
    simp only [Expr.delay]
    refine .bind (delay_safe fuel collection sound) ?_
    intro left context₁ plan₁ sound₁ _ first
    refine .bind (delay_safe fuel position sound₁) ?_
    intro right context₂ plan₂ sound₂ extends' second
    exact suspend_two_safe sound₂ (first.extend extends') second rfl rfl
  | .create type arguments, context, plan, sound => by
    simp only [Expr.delay]
    refine .bind (delayAll_safe fuel arguments sound) ?_
    intro refs context₁ plan₁ sound₁ _ has
    refine .bind (get_safe sound₁) ?_
    intro found context₂ plan₂ sound₂ extends' _
    cases found.registry.fields? type with
    | none => exact fail_safe sound₂ (by simp)
    | some fields =>
      refine alloc_safe sound₂ ⟨by simp [Task.arity?], by simp⟩ fun ref member => ?_
      exact (has ref (by simpa [Reading.links, Task.reading, Task.refs, Value.refs] using member)).extend extends'
  | .member object field, context, plan, sound => by
    simp only [Expr.delay]
    refine .bind (delay_safe fuel object sound) ?_
    intro ref context₁ plan₁ sound₁ _ has
    exact suspend_one_safe sound₁ has nofun rfl
  | .unary op operand, context, plan, sound => by
    have suspended (plain : (Expr.unary op operand).delay fuel = (do
          let operand ← operand.delay fuel
          Eval.alloc (.pending [operand] (.unary op)))) :
        Safe plan Plan.Has ((Expr.unary op operand).delay fuel context) := by
      rw [plain]
      refine .bind (delay_safe fuel operand sound) ?_
      intro ref context₁ plan₁ sound₁ _ has
      exact suspend_one_safe sound₁ has nofun rfl
    cases op with
    | increment =>
      simp only [Expr.delay]
      exact step_safe fuel .increment operand sound
    | decrement =>
      simp only [Expr.delay]
      exact step_safe fuel .decrement operand sound
    | _ => exact suspended (by rw [Expr.delay] <;> nofun)
  | .arithmetic op left right, context, plan, sound => by
    simp only [Expr.delay]
    refine .bind (delay_safe fuel left sound) ?_
    intro left context₁ plan₁ sound₁ _ first
    refine .bind (delay_safe fuel right sound₁) ?_
    intro right context₂ plan₂ sound₂ extends' second
    exact suspend_two_safe sound₂ (first.extend extends') second rfl rfl
  | .logical op left right, context, plan, sound => by
    simp only [Expr.delay]
    refine .bind (delay_safe fuel left sound) ?_
    intro left context₁ plan₁ sound₁ _ first
    refine .bind (delay_safe fuel right sound₁) ?_
    intro right context₂ plan₂ sound₂ extends' second
    exact suspend_one_safe sound₂ (first.extend extends') (by simpa [Task.refs] using second) rfl
  | .comparison op left right, context, plan, sound => by
    simp only [Expr.delay]
    refine .bind (delay_safe fuel left sound) ?_
    intro left context₁ plan₁ sound₁ _ first
    refine .bind (delay_safe fuel right sound₁) ?_
    intro right context₂ plan₂ sound₂ extends' second
    exact suspend_two_safe sound₂ (first.extend extends') second rfl rfl

theorem delayAll_safe (fuel : Nat) : ∀ (exprs : List Expr) {context : Context} {plan : Plan Promise}, context.Sound plan →
    Safe plan (fun plan refs => Reading.Knows plan (.list refs)) (Expr.delayAll fuel exprs context)
  | [], context, plan, sound => by
    simp only [Expr.delayAll]
    exact .pure sound (by simp [Reading.Knows, Value.refs])
  | first :: rest, context, plan, sound => by
    simp only [Expr.delayAll]
    refine .bind (delay_safe fuel first sound) ?_
    intro ref context₁ plan₁ sound₁ _ has
    refine .bind (delayAll_safe fuel rest sound₁) ?_
    intro refs context₂ plan₂ sound₂ extends' hasAll
    exact .pure sound₂ (List.forall_mem_cons.mpr ⟨has.extend extends', hasAll⟩)

end

end Expressions

section Statements

variable {context : Context} {plan : Plan Promise}

theorem assignAll_safe (bindings : List (String × Value)) (sound : context.Sound plan)
    (knows : ∀ binding ∈ bindings, Reading.Knows plan binding.2) :
    Safe plan (fun _ _ => True) (Eval.assignAll bindings context) := by
  induction bindings generalizing context plan with
  | nil => exact .pure sound trivial
  | cons binding rest ih =>
    refine .bind (alloc_forced_safe sound (knows binding List.mem_cons_self)) ?_
    intro ref context₁ plan₁ sound₁ extends₁ has
    refine .bind (assign_safe binding.1 sound₁ has) ?_
    intro _ context₂ plan₂ sound₂ extends₂ _
    exact ih sound₂ fun other member =>
      (knows other (List.mem_cons_of_mem _ member)).extend (extends₁.trans extends₂)

theorem unmatched_safe (fuel : Nat) {value : Value} (sound : context.Sound plan)
    (knows : Reading.Knows plan value) :
    Safe plan Plan.HasResult (Eval.unmatched fuel value context) := by
  unfold Eval.unmatched
  refine .bind (alloc_forced_safe sound knows) ?_
  intro ref context₁ plan₁ sound₁ _ has
  refine .bind (forceDeep_safe fuel sound₁ has) ?_
  intro value' context₂ plan₂ sound₂ _ _
  refine .bind (display_safe fuel value' sound₂) ?_
  intro text context₃ plan₃ sound₃ _ _
  exact .raise sound₃ (by simp)

theorem forEach_safe (id : String) {body : Eval (Option Ref)}
    (once : ∀ {context : Context} {plan : Plan Promise}, context.Sound plan → Safe plan Plan.HasResult (body context))
    (elements : List Ref) (result : Option Ref) (sound : context.Sound plan)
    (knows : Reading.Knows plan (.list elements)) (leads : plan.HasResult result) :
    Safe plan Plan.HasResult (Eval.forEach id body elements result context) := by
  induction elements generalizing context plan result with
  | nil => exact .pure sound leads
  | cons element rest ih =>
    have inside : ∀ ref ∈ Task.reading.links (.delegated element), plan.Has ref := by
      simpa [Reading.links] using knows element List.mem_cons_self
    refine .bind (alloc_safe sound trivial inside) ?_
    intro ref context₁ plan₁ sound₁ extends₁ has'
    refine .bind (assign_safe id sound₁ has') ?_
    intro _ context₂ plan₂ sound₂ extends₂ _
    refine .bind (once sound₂) ?_
    intro result context₃ plan₃ sound₃ extends₃ leads
    exact ih result sound₃ (fun other member => (knows other (List.mem_cons_of_mem _ member)).extend
      (extends₁.trans (extends₂.trans extends₃))) leads

theorem hasResult_none (plan : Plan Promise) : plan.HasResult none := by
  simp [Plan.HasResult]

mutual

theorem exec_safe (fuel : Nat) : ∀ (statement : Statement) {context : Context} {plan : Plan Promise}, context.Sound plan →
    Safe plan Plan.HasResult (statement.exec fuel context)
  | .assign id value, context, plan, sound => by
    simp only [Statement.exec]
    refine .bind (delay_safe fuel value sound) ?_
    intro ref context₁ plan₁ sound₁ _ has
    refine .bind (assign_safe id sound₁ has) ?_
    intro _ context₂ plan₂ sound₂ _ _
    exact .pure sound₂ (hasResult_none _)
  | .print value, context, plan, sound => by
    simp only [Statement.exec]
    refine .bind (delay_safe fuel value sound) ?_
    intro ref context₁ plan₁ sound₁ _ has
    refine .bind (forceDeep_safe fuel sound₁ has) ?_
    intro value context₂ plan₂ sound₂ _ knows
    refine .bind (display_safe fuel value sound₂) ?_
    intro text context₃ plan₃ sound₃ extends₃ _
    refine .bind (print_safe text sound₃) ?_
    intro _ context₄ plan₄ sound₄ extends₄ _
    refine .bind (alloc_forced_safe sound₄ (knows.extend (extends₃.trans extends₄))) ?_
    intro ref context₅ plan₅ sound₅ _ has
    exact .pure sound₅ (by simpa [Plan.HasResult] using has)
  | .branch condition consequence none, context, plan, sound => by
    simp only [Statement.exec]
    refine .bind (delay_safe fuel condition sound) ?_
    intro ref context₁ plan₁ sound₁ _ has
    refine .bind (force_safe fuel sound₁ has) ?_
    intro value context₂ plan₂ sound₂ _ _
    split
    · exact execBlock_safe fuel consequence none sound₂ (hasResult_none _)
    · exact .pure sound₂ (hasResult_none _)
  | .branch condition consequence (some alternative), context, plan, sound => by
    simp only [Statement.exec]
    refine .bind (delay_safe fuel condition sound) ?_
    intro ref context₁ plan₁ sound₁ _ has
    refine .bind (force_safe fuel sound₁ has) ?_
    intro value context₂ plan₂ sound₂ _ _
    split
    · exact execBlock_safe fuel consequence none sound₂ (hasResult_none _)
    · exact execBlock_safe fuel alternative none sound₂ (hasResult_none _)
  | .iterate id items body, context, plan, sound => by
    simp only [Statement.exec]
    refine .bind (delay_safe fuel items sound) ?_
    intro ref context₁ plan₁ sound₁ _ has
    refine .bind (force_safe fuel sound₁ has) ?_
    intro value context₂ plan₂ sound₂ _ knows
    cases value with
    | list elements =>
      exact forEach_safe id (fun sound => execBlock_safe fuel body none sound (hasResult_none _))
        elements none sound₂ knows (hasResult_none _)
    | _ => exact .raise sound₂ (by simp [mismatch])
  | .select scrutinee cases none, context, plan, sound => by
    simp only [Statement.exec]
    refine .bind (delay_safe fuel scrutinee sound) ?_
    intro ref context₁ plan₁ sound₁ _ has
    refine .bind (force_safe fuel sound₁ has) ?_
    intro value context₂ plan₂ sound₂ _ knows
    exact execCases_safe fuel cases sound₂ knows (unmatched_safe fuel sound₂ knows)
  | .select scrutinee cases (some alternative), context, plan, sound => by
    simp only [Statement.exec]
    refine .bind (delay_safe fuel scrutinee sound) ?_
    intro ref context₁ plan₁ sound₁ _ has
    refine .bind (force_safe fuel sound₁ has) ?_
    intro value context₂ plan₂ sound₂ _ knows
    exact execCases_safe fuel cases sound₂ knows
      (execBlock_safe fuel alternative none sound₂ (hasResult_none _))
  | .define type fields, context, plan, sound => by
    simp only [Statement.exec]
    refine .bind (define_safe type fields sound) ?_
    intro _ context₁ plan₁ sound₁ _ _
    exact .pure sound₁ (hasResult_none _)
  | .evaluate value, context, plan, sound => by
    simp only [Statement.exec]
    refine .bind (delay_safe fuel value sound) ?_
    intro ref context₁ plan₁ sound₁ _ has
    exact .pure sound₁ (by simpa [Plan.HasResult] using has)

theorem execBlock_safe (fuel : Nat) : ∀ (statements : List Statement) (result : Option Ref)
    {context : Context} {plan : Plan Promise}, context.Sound plan → plan.HasResult result →
    Safe plan Plan.HasResult (Statement.execBlock fuel statements result context)
  | [], result, context, plan, sound, leads => by
    simp only [Statement.execBlock]
    exact .pure sound leads
  | first :: rest, result, context, plan, sound, leads => by
    simp only [Statement.execBlock]
    refine .bind (exec_safe fuel first sound) ?_
    intro result context₁ plan₁ sound₁ _ leads
    exact execBlock_safe fuel rest result sound₁ leads

theorem execCases_safe (fuel : Nat) : ∀ (cases : List (Pattern × List Statement))
    {otherwise : Eval (Option Ref)} {value : Value} {context : Context} {plan : Plan Promise}, context.Sound plan →
    Reading.Knows plan value → Safe plan Plan.HasResult (otherwise context) →
    Safe plan Plan.HasResult (Statement.execCases fuel value otherwise cases context)
  | [], otherwise, value, context, plan, _, _, fallback => by
    simp only [Statement.execCases]
    exact fallback
  | (pattern, body) :: rest, otherwise, value, context, plan, sound, knows, fallback => by
    simp only [Statement.execCases]
    cases matched : pattern.match? value with
    | none => exact execCases_safe fuel rest sound knows fallback
    | some bindings =>
      have held : ∀ binding ∈ bindings, Reading.Knows plan binding.2 := by
        intro binding member
        rw [value_of_match? matched binding member]
        exact knows
      refine restoring_safe sound ?_
      refine .bind (assignAll_safe bindings sound held) ?_
      intro _ context₁ plan₁ sound₁ _ _
      exact execBlock_safe fuel body none sound₁ (hasResult_none _)

end

end Statements

end ByNeed
