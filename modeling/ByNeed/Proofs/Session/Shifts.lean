import ByNeed.Proofs.Heap.Lockstep
import ByNeed.Proofs.Session.Frame

set_option autoImplicit false

-- The shifts of an expression are its outermost `++` and `--`, listed from the syntax. Performing them one
-- after the other and making the cell of the expression are followed side by side. The second one also
-- adds cells for the rest of the expression, so the addresses of new cells differ.
namespace ByNeed

def UnaryOp.delta : UnaryOp → Int
  | .decrement => -1
  | _ => 1

mutual

def Expr.shifts : Expr → List (UnaryOp × Expr)
  | .name _ | .literal _ => []
  | .list elements | .create _ elements => Expr.shiftsInAll elements
  | .member object _ => object.shifts
  | .unary .increment operand => [(.increment, operand)]
  | .unary .decrement operand => [(.decrement, operand)]
  | .unary _ operand => operand.shifts
  | .index left right | .arithmetic _ left right | .logical _ left right
  | .comparison _ left right => left.shifts ++ right.shifts

def Expr.shiftsInAll : List Expr → List (UnaryOp × Expr)
  | [] => []
  | first :: rest => first.shifts ++ Expr.shiftsInAll rest

end

namespace Eval

def shiftVariable (fuel : Nat) (op : UnaryOp) (id : String) : Option Ref → Eval Value
  | none => raise (.undefinedVariable id)
  | some current => do
    match op.step op.delta (← force fuel current) with
    | .ok updated => do
      assign id (← alloc (.forced updated))
      return updated
    | .error fault => raise fault

def shift (fuel : Nat) : UnaryOp × Expr → Eval Value
  | (op, .name id) => do shiftVariable fuel op id (← lookup? id)
  | (_, operand) => raise (.notAVariable operand.text)

def shiftAll (fuel : Nat) : List (UnaryOp × Expr) → Eval Unit
  | [] => return ()
  | first :: rest => do
    let _ ← shift fuel first
    shiftAll fuel rest

theorem shiftAll_append (fuel : Nat) (first second : List (UnaryOp × Expr)) :
    shiftAll fuel (first ++ second) = (do
      shiftAll fuel first
      shiftAll fuel second) := by
  induction first with
  | nil => simp [shiftAll]
  | cons node rest ih => simp [shiftAll, ih]

theorem shiftAll_singleton (fuel : Nat) (node : UnaryOp × Expr) :
    shiftAll fuel [node] = (do
      let _ ← shift fuel node
      return ()) :=
  rfl

section Step

variable {α β : Type} {context context' : Context}

theorem bind_congr_first {computation computation' : Eval α} (next : α → Eval β)
    (same : computation context = computation' context) :
    (computation >>= next) context = (computation' >>= next) context := by
  simp only [Bind.bind, EStateM.bind, same]

theorem bind_congr_second {computation : Eval α} {next next' : α → Eval β}
    (same : ∀ result context', computation context = .ok result context' →
      next result context' = next' result context') :
    (computation >>= next) context = (computation >>= next') context := by
  simp only [Bind.bind, EStateM.bind]
  cases ran : computation context with
  | error interrupt context₁ => rfl
  | ok result context₁ => exact same result context₁ ran

theorem reassign_of_bound {id : String} {ref : Ref} (value : Value)
    (bound : context.environment.get? id = some ref) :
    reassign id value context = (do assign id (← alloc (.forced value)) : Eval Unit) context := by
  have contained : context.environment.contains id = true := by
    rw [Environment.contains, Std.TreeMap.contains_eq_isSome_getElem?]
    exact Option.isSome_of_eq_some bound
  change (if context.environment.contains id then _ else _ : Eval Unit) context = _
  rw [if_pos contained]

theorem force_environment (fuel : Nat) (ref : Ref) (context : Context) :
    (endContext (force fuel ref context)).environment = context.environment := by
  unfold force onHeap
  simp only
  cases Heap.force Task.run fuel ref context.heap <;> rfl

theorem step_eq_shift (fuel : Nat) {op : UnaryOp} (shifts : op = .increment ∨ op = .decrement)
    (operand : Expr) :
    step fuel op operand = (do alloc (.forced (← shift fuel (op, operand)))) := by
  cases operand with
  | name id =>
    have applied (value : Value) : op.apply value = op.step op.delta value := by
      rcases shifts with rfl | rfl <;> rfl
    funext context
    simp only [step, shift, applied, bind_assoc]
    refine bind_congr_second fun found context₁ looked => ?_
    have bound : context₁.environment.get? id = found := by
      cases looked
      rfl
    cases found with
    | none => rfl
    | some current =>
      simp only [shiftVariable, bind_assoc]
      refine bind_congr_second fun value context₂ forced => ?_
      cases op.step op.delta value with
      | error fault => rfl
      | ok updated =>
        -- The variable is still bound, since forcing binds nothing.
        have kept := force_environment fuel current context₁
        rw [forced] at kept
        have still : context₂.environment.get? id = some current := by
          rw [← bound]
          exact congrArg (Environment.get? · id) kept
        simpa only [bind_assoc, pure_bind] using
          bind_congr_first (fun _ => alloc (.forced updated)) (reassign_of_bound updated still)
  | _ => rfl

end Step

end Eval

-- No reference leads outside the heap, and no name is bound to an address without a cell.
structure Context.Whole (context : Context) : Prop where
  heap : context.heap.Whole
  bindings : ∀ id ref, context.environment.get? id = some ref → ref < context.heap.cells.size

/-- Both contexts came from the same start, and differ in nothing but the addresses of cells made since
then. A cell that is paired with no other may have been added in one of them only, and nothing else leads
to it. -/
structure Context.Alike (start : Context) (same : Ref → Ref → Prop) (context context' : Context) : Prop where
  old : ∀ ref, ref < start.heap.cells.size → same ref ref
  paired : Heap.Paired same context.heap context'.heap
  bindings : ∀ id, Option.Rel same (context.environment.get? id) (context'.environment.get? id)
  resumed : ∃ refs refs', List.Forall₂ same refs refs' ∧
    context.heap.resumed = refs ++ start.heap.resumed ∧ context'.heap.resumed = refs' ++ start.heap.resumed
  registry : context'.registry = context.registry
  output : context'.output = context.output

-- Two computations both come to an end in alike contexts, or are stopped by the same interrupt.
inductive SameCourse {α β : Type} (start : Context) (related : (Ref → Ref → Prop) → α → β → Prop) :
    EStateM.Result Interrupt Context α → EStateM.Result Interrupt Context β → Prop
  | ok {result : α} {result' : β} {same : Ref → Ref → Prop} {context context' : Context}
    (alike : start.Alike same context context') (holds : related same result result') :
    SameCourse start related (.ok result context) (.ok result' context')
  | error {interrupt : Interrupt} {same : Ref → Ref → Prop} {context context' : Context}
    (alike : start.Alike same context context') :
    SameCourse start related (.error interrupt context) (.error interrupt context')

section Alike

variable {α β γ δ : Type} {start context context' : Context} {same : Ref → Ref → Prop}

theorem Context.Whole.alike (whole : context.Whole) :
    context.Alike (fun ref ref' => ref = ref' ∧ ref < context.heap.cells.size) context context where
  old ref inside := ⟨rfl, inside⟩
  paired.inside := by
    rintro ref _ ⟨rfl, inside⟩
    exact ⟨inside, inside⟩
  paired.unique := by
    rintro ref _ other _ ⟨rfl, _⟩ ⟨rfl, _⟩
    exact Iff.rfl
  paired.cells := by
    rintro ref _ ⟨rfl, _⟩
    exact Cell.paired_self _ fun other member => ⟨rfl, whole.heap ref other member⟩
  bindings id := by
    cases bound : context.environment.get? id with
    | none => exact .none
    | some ref => exact .some ⟨rfl, whole.bindings id ref bound⟩
  resumed := ⟨[], [], .nil, rfl, rfl⟩
  registry := rfl
  output := rfl

theorem SameCourse.bind {related : (Ref → Ref → Prop) → α → β → Prop} {related' : (Ref → Ref → Prop) → γ → δ → Prop}
    {computation : Eval α} {computation' : Eval β} {next : α → Eval γ} {next' : β → Eval δ}
    (first : SameCourse start related (computation context) (computation' context'))
    (second : ∀ result result' same context₁ context₁', Context.Alike start same context₁ context₁' →
      related same result result' → SameCourse start related' (next result context₁) (next' result' context₁')) :
    SameCourse start related' ((computation >>= next) context) ((computation' >>= next') context') := by
  simp only [Bind.bind, EStateM.bind]
  generalize computation context = ran at first
  generalize computation' context' = ran' at first
  cases first with
  | error alike => exact .error alike
  | ok alike holds => exact second _ _ _ _ _ alike holds

-- What happens in both heaps in step leaves the contexts alike.
theorem Context.Alike.lockstep {count : Nat} {heap₁ heap₁' : Heap Task} (alike : start.Alike same context context')
    (lockstep : Heap.Lockstep same context.heap context'.heap count heap₁ heap₁') :
    Context.Alike start (widen same context.heap.cells.size context'.heap.cells.size count)
      { context with heap := heap₁ } { context' with heap := heap₁' } where
  old ref inside := .inl (alike.old ref inside)
  paired := lockstep.paired
  bindings id := by
    have bound := alike.bindings id
    simp only
    generalize context.environment.get? id = found at bound
    generalize context'.environment.get? id = found' at bound
    cases bound with
    | none => exact .none
    | some related => exact .some (.inl related)
  resumed := by
    obtain ⟨refs, refs', each, earlier, earlier'⟩ := alike.resumed
    obtain ⟨more, more', each', later, later'⟩ := lockstep.resumed
    refine ⟨more ++ refs, more' ++ refs', List.rel_append each' (each.imp le_widen), ?_, ?_⟩
    · simp only [later, earlier, List.append_assoc]
    · simp only [later', earlier', List.append_assoc]
  registry := alike.registry
  output := alike.output

theorem force_sameCourse (fuel : Nat) {ref ref' : Ref} (alike : start.Alike same context context')
    (related : same ref ref') :
    SameCourse start Value.Paired (Eval.force fuel ref context) (Eval.force fuel ref' context') := by
  have inStep := Heap.force_inStep fuel alike.paired related
  unfold Eval.force Eval.onHeap
  simp only
  generalize Heap.force Task.run fuel ref context.heap = ran at inStep
  generalize Heap.force Task.run fuel ref' context'.heap = ran' at inStep
  cases inStep with
  | ok lockstep values => exact .ok (alike.lockstep lockstep) values
  | error lockstep => exact .error (alike.lockstep lockstep)

-- A cell is added in the first context only.
theorem Context.Alike.push (alike : start.Alike same context context') (cell : Cell Task) :
    Context.Alike start same { context with heap := context.heap.push cell } context' :=
  { alike with
    paired.inside := fun related => by
      have inside := alike.paired.inside related
      simp only [Heap.size_push]
      omega
    paired.unique := alike.paired.unique
    paired.cells := fun related => by
      rw [Heap.get_push_of_lt _ _ (alike.paired.inside related).1]
      exact alike.paired.cells related }

theorem Context.Alike.assign {ref ref' : Ref} (alike : start.Alike same context context') (id : String)
    (related : same ref ref') :
    Context.Alike start same { context with environment := context.environment.set id ref }
      { context' with environment := context'.environment.set id ref' } :=
  { alike with
    bindings := fun other => by
      simp only [Environment.get?_set]
      split
      · exact .some related
      · exact alike.bindings other }

-- The variable is bound to a new cell in both contexts.
theorem assign_sameCourse (alike : start.Alike same context context') (id : String) {value : Value}
    (single : value.isSingle = true) :
    SameCourse start (fun _ _ _ => True) ((do Eval.assign id (← Eval.alloc (.forced value)) : Eval Unit) context)
      ((do Eval.assign id (← Eval.alloc (.forced value)) : Eval Unit) context') := by
  have added := alike.lockstep (alike.paired.push (.forced (.single single)))
  exact .ok (added.assign id (.inr ⟨0, Nat.one_pos, rfl, rfl⟩)) trivial

theorem UnaryOp.step_paired (op : UnaryOp) (delta : Int) {value value' : Value} (paired : value.Paired same value') :
    op.step delta value = op.step delta value' := by
  cases paired <;> rfl

theorem shiftVariable_sameCourse (fuel : Nat) (op : UnaryOp) (id : String) {found found' : Option Ref}
    (alike : start.Alike same context context') (bound : Option.Rel same found found') :
    SameCourse start (fun _ => Eq) (Eval.shiftVariable fuel op id found context)
      (Eval.shiftVariable fuel op id found' context') := by
  cases bound with
  | none => exact .error alike
  | some related =>
    refine .bind (force_sameCourse fuel alike related) ?_
    intro value value' same₁ context₁ context₁' alike₁ paired
    rw [op.step_paired op.delta paired]
    cases stepped : op.step op.delta value' with
    | error fault => exact .error alike₁
    | ok updated =>
      have single := op.step_single op.delta value' updated stepped
      simp only [← bind_assoc]
      refine .bind (assign_sameCourse alike₁ id single) ?_
      intro _ _ same₂ context₂ context₂' alike₂ _
      exact .ok alike₂ rfl

theorem shift_sameCourse (fuel : Nat) (alike : start.Alike same context context') (node : UnaryOp × Expr) :
    SameCourse start (fun _ => Eq) (Eval.shift fuel node context) (Eval.shift fuel node context') := by
  obtain ⟨op, operand⟩ := node
  cases operand with
  | name id => exact shiftVariable_sameCourse fuel op id alike (alike.bindings id)
  | _ => exact .error alike

end Alike

section Delay

variable {α β : Type} {start : Context}

def Mirrors (start : Context) (fuel : Nat) (computation : Eval α) (shifts : List (UnaryOp × Expr)) : Prop :=
  ∀ same context context', Context.Alike start same context context' →
    SameCourse start (fun _ _ _ => True) (computation context) (Eval.shiftAll fuel shifts context')

variable {fuel : Nat} {shifts shifts' : List (UnaryOp × Expr)}

theorem Mirrors.bind {computation : Eval α} {next : α → Eval β}
    (first : Mirrors start fuel computation shifts)
    (second : ∀ result, Mirrors start fuel (next result) shifts') :
    Mirrors start fuel (computation >>= next) (shifts ++ shifts') := by
  intro same context context' alike
  rw [Eval.shiftAll_append]
  exact .bind (first same context context' alike) fun result _ same₁ context₁ context₁' alike₁ _ =>
    second result same₁ context₁ context₁' alike₁

theorem mirrors_pure (result : α) : Mirrors start fuel (pure result : Eval α) [] :=
  fun _ _ _ alike => .ok alike trivial

theorem mirrors_alloc (cell : Cell Task) : Mirrors start fuel (Eval.alloc cell) [] :=
  fun _ _ _ alike => .ok (alike.push cell) trivial

theorem Mirrors.alloc {computation : Eval α} (first : Mirrors start fuel computation shifts)
    (cell : α → Cell Task) : Mirrors start fuel (computation >>= fun result => Eval.alloc (cell result)) shifts := by
  have whole := first.bind fun result => mirrors_alloc (cell result)
  rwa [List.append_nil] at whole

theorem mirrors_step {op : UnaryOp} (isShift : op = .increment ∨ op = .decrement) (operand : Expr) :
    Mirrors start fuel (Eval.step fuel op operand) [(op, operand)] := by
  rw [Eval.step_eq_shift fuel isShift]
  refine Mirrors.alloc (fun same context context' alike => ?_) _
  rw [Eval.shiftAll_singleton, ← bind_pure (Eval.shift fuel (op, operand))]
  simp only [bind_assoc, pure_bind]
  refine .bind (shift_sameCourse fuel alike (op, operand)) ?_
  intro _ _ same₁ context₁ context₁' alike₁ _
  exact .ok alike₁ trivial

theorem Mirrors.pair {first second : Eval Ref} (mirrors : Mirrors start fuel first shifts)
    (mirrors' : Mirrors start fuel second shifts') (cell : Ref → Ref → Cell Task) :
    Mirrors start fuel (do
      let left ← first
      let right ← second
      Eval.alloc (cell left right)) (shifts ++ shifts') :=
  mirrors.bind fun left => mirrors'.alloc (cell left)

-- Names and record types are looked up without an effect.
theorem Mirrors.reading {computation : Eval β} {next : β → Eval α}
    (reads : ∀ context, ∃ found, computation context = .ok found context)
    (later : ∀ found, Mirrors start fuel (next found) shifts) :
    Mirrors start fuel (computation >>= next) shifts := by
  intro same context context' alike
  obtain ⟨found, read⟩ := reads context
  simp only [Bind.bind, EStateM.bind, read]
  exact later found same context context' alike

mutual

theorem delay_mirrors (start : Context) (fuel : Nat) : ∀ expr : Expr,
    Mirrors start fuel (expr.delay fuel) expr.shifts
  | .literal value => by
    simp only [Expr.delay, Expr.shifts]
    exact mirrors_alloc _
  | .name id => by
    simp only [Expr.delay, Expr.shifts]
    refine .reading (fun _ => ⟨_, rfl⟩) fun found => ?_
    cases found with
    | none => exact mirrors_alloc _
    | some ref => exact mirrors_pure ref
  | .list elements => by
    simp only [Expr.delay, Expr.shifts]
    exact (delayAll_mirrors start fuel elements).alloc _
  | .create type arguments => by
    simp only [Expr.delay, Expr.shifts]
    rw [← List.append_nil (Expr.shiftsInAll arguments)]
    refine (delayAll_mirrors start fuel arguments).bind fun refs => ?_
    refine .reading (fun _ => ⟨_, rfl⟩) fun context => ?_
    cases context.registry.fields? type <;> exact mirrors_alloc _
  | .member object field => by
    simp only [Expr.delay, Expr.shifts]
    exact (delay_mirrors start fuel object).alloc _
  | .unary op operand => by
    have suspended (plain : (Expr.unary op operand).delay fuel = (do
          let operand ← operand.delay fuel
          Eval.alloc (.pending [operand] (.unary op))))
        (others : (Expr.unary op operand).shifts = operand.shifts) :
        Mirrors start fuel ((Expr.unary op operand).delay fuel) (Expr.unary op operand).shifts := by
      rw [plain, others]
      exact (delay_mirrors start fuel operand).alloc _
    cases op with
    | increment =>
      simp only [Expr.delay, Expr.shifts]
      exact mirrors_step (.inl rfl) operand
    | decrement =>
      simp only [Expr.delay, Expr.shifts]
      exact mirrors_step (.inr rfl) operand
    | _ => exact suspended (by rw [Expr.delay] <;> nofun) (by rw [Expr.shifts] <;> nofun)
  | .index left right | .arithmetic op left right | .logical op left right
  | .comparison op left right => by
    simp only [Expr.delay, Expr.shifts]
    exact (delay_mirrors start fuel left).pair (delay_mirrors start fuel right) _

theorem delayAll_mirrors (start : Context) (fuel : Nat) : ∀ exprs : List Expr,
    Mirrors start fuel (Expr.delayAll fuel exprs) (Expr.shiftsInAll exprs)
  | [] => by
    simp only [Expr.delayAll, Expr.shiftsInAll]
    exact mirrors_pure []
  | first :: rest => by
    simp only [Expr.delayAll, Expr.shiftsInAll]
    refine (delay_mirrors start fuel first).bind fun ref => ?_
    rw [← List.append_nil (Expr.shiftsInAll rest)]
    exact (delayAll_mirrors start fuel rest).bind fun refs => mirrors_pure _

end

end Delay

section Failure

variable {fuel : Nat} {context context' : Context} {interrupt : Interrupt}

-- The first shift that fails ends the others, and those before it stay done.
theorem shiftAll_error {shifts : List (UnaryOp × Expr)}
    (failed : Eval.shiftAll fuel shifts context = .error interrupt context') :
    ∃ before node after context₁, shifts = before ++ node :: after ∧
      Eval.shiftAll fuel before context = .ok () context₁ ∧
      Eval.shift fuel node context₁ = .error interrupt context' := by
  induction shifts generalizing context with
  | nil => cases failed
  | cons node rest ih =>
    simp only [Eval.shiftAll, Bind.bind, EStateM.bind] at failed
    cases ran : Eval.shift fuel node context with
    | error interrupt₁ context₁ =>
      rw [ran] at failed
      cases failed
      exact ⟨[], node, rest, context, rfl, rfl, ran⟩
    | ok value context₁ =>
      rw [ran] at failed
      obtain ⟨before, last, after, context₂, rfl, done, failing⟩ := ih failed
      refine ⟨node :: before, last, after, context₂, rfl, ?_, failing⟩
      simp only [Eval.shiftAll, Bind.bind, EStateM.bind, ran]
      exact done

theorem shift_error_environment {node : UnaryOp × Expr}
    (failed : Eval.shift fuel node context = .error interrupt context') :
    context'.environment = context.environment := by
  obtain ⟨op, operand⟩ := node
  cases operand with
  | name id =>
    change Eval.shiftVariable fuel op id (context.environment.get? id) context = _ at failed
    cases found : context.environment.get? id with
    | none =>
      rw [found] at failed
      cases failed
      rfl
    | some current =>
      have kept := Eval.force_environment fuel current context
      simp only [found, Eval.shiftVariable, Bind.bind, EStateM.bind] at failed
      cases forced : Eval.force fuel current context with
      | error interrupt₁ context₁ =>
        rw [forced] at failed kept
        cases failed
        exact kept
      | ok value context₁ =>
        rw [forced] at failed kept
        simp only at failed
        cases stepped : op.step op.delta value with
        | error fault =>
          rw [stepped] at failed
          cases failed
          exact kept
        | ok updated =>
          rw [stepped] at failed
          cases failed
  | _ =>
    cases failed
    rfl

end Failure

section Start

variable {start context : Context} {same : Ref → Ref → Prop}

theorem Context.Alike.only (alike : start.Alike same context start) {ref : Ref} (inside : ref < start.heap.cells.size)
    (other : Ref) (related : same other ref) : other = ref :=
  (alike.paired.unique related (alike.old ref inside)).mpr rfl

-- Against the start itself, only cells were added.
theorem Context.Alike.get?_eq (alike : start.Alike same context start) (whole : start.Whole) (id : String) :
    context.environment.get? id = start.environment.get? id := by
  have bound := alike.bindings id
  generalize context.environment.get? id = found at bound
  cases found' : start.environment.get? id with
  | none =>
    rw [found'] at bound
    cases bound
    rfl
  | some ref =>
    rw [found'] at bound
    cases bound with
    | some related => rw [alike.only (whole.bindings id ref found') _ related]

theorem Context.Alike.get_eq (alike : start.Alike same context start) (whole : start.Whole) {ref : Ref}
    (inside : ref < start.heap.cells.size) : context.heap.get ref = start.heap.get ref :=
  (alike.paired.cells (alike.old ref inside)).eq fun other member => alike.only (whole.heap ref other member)

theorem Context.Alike.resumed_eq (alike : start.Alike same context start) :
    context.heap.resumed = start.heap.resumed := by
  obtain ⟨refs, refs', each, resumed, none⟩ := alike.resumed
  obtain rfl : refs' = [] := by simpa using none
  cases each
  exact resumed

end Start

/-- Making the cell of an expression does to the context what performing its shifts one after the
other does, apart from cells that it adds. If one of them fails, the first to do so gives the fault;
those before it stay done, and it binds nothing itself. Without a shift, a cell is always made, and
nothing is bound, forced or changed. -/
theorem delay_effect (fuel : Nat) (expr : Expr) {context : Context} (whole : context.Whole) :
    SameCourse context (fun _ _ _ => True) (expr.delay fuel context) (Eval.shiftAll fuel expr.shifts context) ∧
      (∀ interrupt context', Eval.shiftAll fuel expr.shifts context = .error interrupt context' →
        ∃ before node after context₁, expr.shifts = before ++ node :: after ∧
          Eval.shiftAll fuel before context = .ok () context₁ ∧
          Eval.shift fuel node context₁ = .error interrupt context' ∧
          context'.environment = context₁.environment) ∧
      (expr.shifts = [] → ∃ ref context', expr.delay fuel context = .ok ref context' ∧
        (∀ id, context'.environment.get? id = context.environment.get? id) ∧
        (∀ old, old < context.heap.cells.size → context'.heap.get old = context.heap.get old) ∧
        context'.heap.resumed = context.heap.resumed) := by
  have same := delay_mirrors context fuel expr _ context context whole.alike
  refine ⟨same, fun interrupt context' failed => ?_, fun pure => ?_⟩
  · obtain ⟨before, node, after, context₁, split, done, failing⟩ := shiftAll_error failed
    exact ⟨before, node, after, context₁, split, done, failing, shift_error_environment failing⟩
  · rw [pure] at same
    generalize expr.delay fuel context = ran at same
    cases same with
    | ok alike _ =>
      exact ⟨_, _, rfl, alike.get?_eq whole, fun old inside => alike.get_eq whole inside, alike.resumed_eq⟩

-- A variable that waits for another cell, and one that is no number, as will be found out by means of a new
-- cell.
def twoVariables : Context where
  heap := ⟨#[.forced (.integer 1), .pending [0] (.unary .minus), .forced (.boolean true),
    .pending [2] (.shortCircuit .conjunction 2)], []⟩
  environment := (Environment.set {} "balance" 1).set "flag" 3

theorem twoVariables_whole : twoVariables.Whole where
  heap := Heap.whole_of_cells (by decide)
  bindings id ref bound := by
    simp only [twoVariables, Environment.get?_set] at bound ⊢
    split at bound
    · cases bound
      decide
    · split at bound
      · cases bound
        decide
      · cases bound

-- The right operand is never demanded. Still its first shift is done before its second one fails.
theorem delay_effect_undemanded :
    let right := Expr.list [.unary .increment (.name "balance"), .unary .decrement (.name "flag")]
    let expr := Expr.logical .conjunction (.literal (.boolean false)) right
    twoVariables.Whole ∧
      SameCourse twoVariables (fun _ _ _ => True) (expr.delay 9 twoVariables)
        (Eval.shiftAll 9 [(.increment, .name "balance"), (.decrement, .name "flag")] twoVariables) ∧
      ∃ context', expr.delay 9 twoVariables = .error (.fault (.typeMismatch "--" "number" "boolean")) context' ∧
        context'.environment.get? "balance" = some 5 ∧ context'.heap.get 5 = .forced (.integer 0) ∧
        context'.heap.get 3 = .forced (.boolean true) :=
  ⟨twoVariables_whole, (delay_effect 9 _ twoVariables_whole).1, _, rfl, rfl, rfl, rfl⟩

end ByNeed
