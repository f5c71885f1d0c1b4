import ByNeed.Proofs.Heap.Deep
import ByNeed.Proofs.Heap.Lockstep

set_option autoImplicit false

-- An equality keeps the pairs it has left in one list, in which the parts of a pair take its place. Beside
-- it stands the recursion that compares the elements of two lists and the fields of two records one after
-- another. Both force the same cells in the same order.
namespace ByNeed

def Value.sameLeaf : Value → Value → Bool
  | .integer left, .integer right => left = right
  | .float left, .float right => left == right
  | .integer left, .float right => nearest left == right
  | .float left, .integer right => nearest right == left
  | .string left, .string right => left = right
  | .boolean left, .boolean right => left = right
  | _, _ => false

namespace Heap

def allSame {α : Type} (test : α → α → HeapM Task Bool) : List α → List α → HeapM Task Bool
  | left :: lefts, right :: rights => do
    if ← test left right then allSame test lefts rights else return false
  | _, _ => return true

def equate : Nat → Value → Value → HeapM Task Bool
  | 0, _, _ => throw .exhausted
  | fuel + 1, .list left, .list right =>
    if left.length = right.length then
      allSame (fun left right => do
        let value ← force Task.run fuel left
        let value' ← force Task.run fuel right
        equate fuel value value') left right
    else return false
  | fuel + 1, .record type left, .record type' right =>
    if type = type' ∧ left.map Prod.fst = right.map Prod.fst then
      allSame (equate fuel) (left.map Prod.snd) (right.map Prod.snd)
    else return false
  | _ + 1, left, right => return left.sameLeaf right

def equatePair (fuel : Nat) : Pair → HeapM Task Bool
  | .cells left right => do
    let value ← force Task.run fuel left
    let value' ← force Task.run fuel right
    equate fuel value value'
  | .values left right => equate fuel left right

variable {heap heap' heap'' : Heap Task} {result : Except Fault Bool}

inductive Compared : List Pair → Heap Task → Except Fault Bool → Heap Task → Prop
  | nil {heap : Heap Task} : Compared [] heap (.ok true) heap
  | same {pair : Pair} {rest : List Pair} {heap heap' heap'' : Heap Task} {result : Except Fault Bool}
    (first : Eventually (fun fuel => equatePair fuel pair) heap (.ok true heap'))
    (later : Compared rest heap' result heap'') : Compared (pair :: rest) heap result heap''
  | stop {pair : Pair} {rest : List Pair} {heap heap' : Heap Task} {result : Except Fault Bool}
    (first : Eventually (fun fuel => equatePair fuel pair) heap (heap'.ended result))
    (stops : result ≠ .ok true) : Compared (pair :: rest) heap result heap'

theorem allSame_stop {α : Type} {test : Nat → α → α → HeapM Task Bool} {left right : α}
    (lefts rights : List α) (first : Eventually (fun fuel => test fuel left right) heap (heap'.ended result))
    (stops : result ≠ .ok true) :
    Eventually (fun fuel => allSame (test fuel) (left :: lefts) (right :: rights)) heap
      (heap'.ended result) := by
  cases result with
  | error fault => exact first.bind_error
  | ok same =>
    cases same with
    | true => exact absurd rfl stops
    | false => exact first.bind (eventually_of_forall fun _ => rfl)

-- The elements of two lists, or the fields of two records.
theorem Compared.allSame {α : Type} {wrap : α → α → Pair} {lefts rights : List α}
    (compared : Compared (List.zipWith wrap lefts rights) heap result heap') :
    Eventually (fun fuel => Heap.allSame (fun left right => equatePair fuel (wrap left right)) lefts rights)
      heap (heap'.ended result) := by
  induction lefts generalizing rights heap with
  | nil =>
    cases compared
    exact eventually_of_forall fun _ => rfl
  | cons left lefts ih =>
    cases rights with
    | nil =>
      cases compared
      exact eventually_of_forall fun _ => rfl
    | cons right rights =>
      cases compared with
      | same first later => exact first.bind (ih later)
      | stop first stops => exact allSame_stop lefts rights first stops

theorem Compared.of_append {first second : List Pair}
    (compared : Compared (first ++ second) heap result heap'') :
    (∃ heap', Compared first heap (.ok true) heap' ∧ Compared second heap' result heap'') ∨
      (Compared first heap result heap'' ∧ result ≠ .ok true) := by
  induction first generalizing heap with
  | nil => exact .inl ⟨heap, .nil, compared⟩
  | cons pair rest ih =>
    cases compared with
    | same first later =>
      rcases ih later with ⟨heap', done, remaining⟩ | ⟨done, stops⟩
      · exact .inl ⟨heap', .same first done, remaining⟩
      · exact .inr ⟨.same first done, stops⟩
    | stop first stops => exact .inr ⟨.stop first stops, stops⟩

theorem equate_succ {left right : Value}
    (later : Eventually (fun fuel => equate (fuel + 1) left right) heap (heap'.ended result)) :
    Eventually (fun fuel => equate fuel left right) heap (heap'.ended result) := by
  obtain ⟨bound, later⟩ := later
  refine ⟨bound + 1, fun fuel enough => ?_⟩
  obtain ⟨spare, rfl⟩ : ∃ spare, fuel = spare + 1 := ⟨fuel - 1, by omega⟩
  exact later spare (by omega)

-- Values without parts differ at once.
theorem equate_of_differ {left right : Value} (found : left.parts? right = none) (heap : Heap Task) :
    Eventually (fun fuel => equate fuel left right) heap (heap.ended (.ok false)) := by
  refine equate_succ (eventually_of_forall fun fuel => ?_)
  unfold Value.parts? at found
  split at found
  case h_9 => cases left <;> cases right <;> first | rfl | grind
  all_goals
    split at found <;> cases found
    rename_i different
    simp [equate, Value.sameLeaf, different, ended, pure, EStateM.pure]

-- Else they are as equal as their parts.
theorem Compared.equate {left right : Value} {parts : List Pair} (found : left.parts? right = some parts)
    (compared : Compared parts heap result heap') :
    Eventually (fun fuel => Heap.equate fuel left right) heap (heap'.ended result) := by
  refine equate_succ ?_
  unfold Value.parts? at found
  split at found
  case h_7 elements elements' =>
    split at found <;> cases found
    rename_i sameLength
    simp only [Heap.equate, if_pos sameLength]
    exact compared.allSame
  case h_8 type fields type' fields' =>
    split at found <;> cases found
    rename_i sameShape
    simp only [Heap.equate, if_pos sameShape]
    rw [← List.zipWith_map] at compared
    exact compared.allSame
  case h_9 => cases found
  all_goals
    split at found <;> cases found
    rename_i same
    cases compared
    refine eventually_of_forall fun fuel => ?_
    simp [Heap.equate, Value.sameLeaf, same, ended, pure, EStateM.pure]

def verdict (negated : Bool) (result : Except Fault Bool) : Outcome :=
  result.map fun same => .boolean (same != negated)

section Work

variable {heap₁ heap₂ : Heap Task} {negated : Bool}

theorem Compared.values {left right : Value} {parts rest : List Pair} (found : left.parts? right = some parts)
    (compared : Compared (parts ++ rest) heap result heap') :
    Compared (.values left right :: rest) heap result heap' := by
  rcases compared.of_append with ⟨middle, done, remaining⟩ | ⟨done, stops⟩
  · exact .same (done.equate found) remaining
  · exact .stop (done.equate found) stops

theorem Compared.cells {left right : Ref} {value value' : Value} {rest : List Pair}
    (forced : Eventually (fun fuel => force Task.run fuel left) heap (.ok value heap₁))
    (forced' : Eventually (fun fuel => force Task.run fuel right) heap₁ (.ok value' heap₂))
    (compared : Compared (.values value value' :: rest) heap₂ result heap') :
    Compared (.cells left right :: rest) heap result heap' := by
  cases compared with
  | same first later => exact .same (forced.bind (forced'.bind first)) later
  | stop first stops => exact .stop (forced.bind (forced'.bind first)) stops

-- A cell that is needed was forced, or its fault is what the step comes to.
theorem perform_need {limit fuel : Nat} {target : Ref} {use : Value → Step Task} {cell : Cell Task}
    (ran : perform Task.run (force Task.run limit) fuel (.need target use) heap = .ok cell heap') :
    (∃ fault, Eventually (fun fuel => force Task.run fuel target) heap (.error (.fault fault) heap') ∧
      cell = .failed fault) ∨
    ∃ spare value heap₁, spare < fuel ∧ Eventually (fun fuel => force Task.run fuel target) heap (.ok value heap₁) ∧
      perform Task.run (force Task.run limit) spare (use value) heap₁ = .ok cell heap' := by
  cases fuel with
  | zero => cases ran
  | succ fuel =>
    rw [Step.need, perform] at ran
    cases forced : force Task.run limit target heap with
    | ok value heap₁ =>
      rw [forced] at ran
      have forced : force Task.run limit target heap = HeapM.ofOutcome (.ok value) heap₁ := forced
      exact .inr ⟨fuel, value, heap₁, Nat.lt_succ_self fuel, force_eventually_of_ran forced, ran⟩
    | error interrupt heap₁ =>
      rw [forced] at ran
      cases interrupt with
      | exhausted => cases ran
      | fault fault =>
        have forced : force Task.run limit target heap = HeapM.ofOutcome (.error fault) heap₁ := forced
        obtain ⟨rfl, rfl⟩ : cell = .failed fault ∧ heap' = heap₁ := by
          cases fuel <;> cases ran <;> exact ⟨rfl, rfl⟩
        exact .inl ⟨fault, force_eventually_of_ran forced, rfl⟩

theorem perform_become {limit fuel : Nat} {task : Task} {cell : Cell Task}
    (ran : perform Task.run (force Task.run limit) fuel (.become task) heap = .ok cell heap') :
    ∃ spare < fuel, perform Task.run (force Task.run limit) spare (Task.run task []) heap = .ok cell heap' := by
  cases fuel with
  | zero => cases ran
  | succ fuel => exact ⟨fuel, Nat.lt_succ_self fuel, ran⟩

-- By induction on the fuel: the pairs that are left after some actions are compared with less of it.
theorem compared_of_perform {limit : Nat} (fuel : Nat) {pairs : List Pair} {cell : Cell Task}
    (ran : perform Task.run (force Task.run limit) fuel (Task.comparePairs negated pairs) heap = .ok cell heap') :
    ∃ result, Compared pairs heap result heap' ∧ cell = .ofOutcome (verdict negated result) := by
  induction fuel using Nat.strongRecOn generalizing heap pairs with
  | ind fuel ih =>
    have done {value : Value} (ran : perform Task.run (force Task.run limit) fuel (.done value) heap = .ok cell heap') :
        cell = .forced value ∧ heap' = heap := by
      cases fuel <;> cases ran <;> exact ⟨rfl, rfl⟩
    match pairs with
    | [] =>
      obtain ⟨rfl, rfl⟩ := done ran
      exact ⟨.ok true, .nil, by cases negated <;> rfl⟩
    | .values left right :: rest =>
      simp only [Task.comparePairs] at ran
      cases found : left.parts? right with
      | none =>
        rw [found] at ran
        obtain ⟨rfl, rfl⟩ := done ran
        exact ⟨.ok false, .stop (equate_of_differ found heap') (by simp), by cases negated <;> rfl⟩
      | some parts =>
        rw [found] at ran
        obtain ⟨spare, less, ran⟩ := perform_become ran
        obtain ⟨result, compared, rfl⟩ := ih spare less ran
        exact ⟨result, compared.values found, rfl⟩
    | .cells left right :: rest =>
      rcases perform_need ran with ⟨fault, forced, rfl⟩ | ⟨spare, value, heap₁, less, forced, ran⟩
      · exact ⟨.error fault, .stop forced.bind_error (by simp), rfl⟩
      rcases perform_need ran with ⟨fault, forced', rfl⟩ | ⟨spare', value', heap₂, less', forced', ran⟩
      · exact ⟨.error fault, .stop (forced.bind forced'.bind_error) (by simp), rfl⟩
      obtain ⟨spare'', less'', ran⟩ := perform_become ran
      rw [Task.run] at ran
      obtain ⟨result, compared, rfl⟩ := ih spare'' (by omega) ran
      exact ⟨result, compared.cells forced forced', rfl⟩

theorem Compared.single {left right : Value} (compared : Compared [.values left right] heap result heap') :
    Eventually (fun fuel => Heap.equate fuel left right) heap (heap'.ended result) := by
  cases compared with
  | same first later =>
    cases later
    exact first
  | stop first _ => exact first

end Work

section Cut

variable {α : Type} {test : α → α → HeapM Task Bool}

theorem allSame_append {lefts rights : List α} (sameLength : lefts.length = rights.length) (more more' : List α) :
    allSame test (lefts ++ more) (rights ++ more') = do
      if ← allSame test lefts rights then allSame test more more' else return false := by
  induction lefts generalizing rights with
  | nil =>
    cases List.length_eq_zero_iff.mp sameLength.symm
    simp [allSame]
  | cons left lefts ih =>
    cases rights with
    | nil => cases sameLength
    | cons right rights =>
      simp only [List.cons_append, allSame, ih (Nat.succ.inj sameLength), bind_assoc]
      refine bind_congr fun same => ?_
      cases same <;> simp

theorem allSame_cut {lefts rights : List α} (sameLength : lefts.length = rights.length) (more more' : List α)
    (stopped : allSame test lefts rights heap = heap'.ended result) (stops : result ≠ .ok true) :
    allSame test (lefts ++ more) (rights ++ more') heap = heap'.ended result := by
  simp only [allSame_append sameLength, Bind.bind, EStateM.bind, stopped]
  cases result with
  | error fault => rfl
  | ok same =>
    cases same with
    | true => exact absurd rfl stops
    | false => rfl

/-- The first two values are the other two, cut off behind the same number of elements or fields. -/
inductive Cut : Value → Value → Value → Value → Prop
  | list {before before' after after' : List Ref} (sameLength : before.length = before'.length)
    (sameLength' : after.length = after'.length) :
    Cut (.list before) (.list before') (.list (before ++ after)) (.list (before' ++ after'))
  | record {type type' : String} {before before' after after' : List (String × Value)}
    (sameLength : before.length = before'.length) (sameNames : after.map Prod.fst = after'.map Prod.fst) :
    Cut (.record type before) (.record type' before') (.record type (before ++ after))
      (.record type' (before' ++ after'))

-- What lies behind the first difference or fault does not matter.
theorem Cut.equate {left right left' right' : Value} (cut : Cut left right left' right')
    (compared : Eventually (fun fuel => Heap.equate fuel left right) heap (heap'.ended result))
    (stops : result ≠ .ok true) :
    Eventually (fun fuel => Heap.equate fuel left' right') heap (heap'.ended result) := by
  obtain ⟨bound, compared⟩ := compared
  refine ⟨bound + 1, fun fuel enough => ?_⟩
  have compared := compared fuel (by omega)
  obtain ⟨spare, rfl⟩ : ∃ spare, fuel = spare + 1 := ⟨fuel - 1, by omega⟩
  cases cut with
  | list sameLength sameLength' =>
    simp only [Heap.equate, sameLength, sameLength', List.length_append, if_true] at compared ⊢
    exact allSame_cut sameLength _ _ compared stops
  | @record type type' before before' after after' sameLength sameNames =>
    have names : (before ++ after).map Prod.fst = (before' ++ after').map Prod.fst ↔
        before.map Prod.fst = before'.map Prod.fst := by
      simp [sameNames]
    simp only [Heap.equate, names] at compared ⊢
    split at compared
    · rename_i shape
      rw [if_pos shape, List.map_append, List.map_append]
      exact allSame_cut (by simpa using sameLength) _ _ compared stops
    · rename_i shape
      rw [if_neg shape]
      exact compared

end Cut

section Equality

variable {left right : Value} {own : Ref}

theorem comparePairs_performs (negated : Bool)
    (acyclic : ∀ ref ∈ left.refs ++ right.refs, Task.reading.Acyclic heap ref) :
    ∃ cell heap₁, Performs Task.run (Task.comparePairs negated [.values left right]) heap (.ok cell heap₁) ∧
      heap.Finishes heap₁ := by
  have honoured := Task.describes.honoured
  have links : Task.reading.links (.pending [] (.equality negated [.values left right])) = left.refs ++ right.refs := by
    simp [Reading.links, Task.reading, Task.refs, Pair.refs]
  obtain ⟨promise, keeps⟩ := Reading.exists_keeps (by simp) fun ref member => (acyclic ref (links ▸ member)).promised
  have supplies : Task.reading.terms.Supplies (Task.reading.plan heap) [] fun _ => .error .dependsOnItself :=
    fun _ member => absurd member List.not_mem_nil
  have realizes : Task.reading.terms.Realizes Task.run promise (Task.reading.plan heap)
      (Task.comparePairs negated [.values left right]) := honoured.performed keeps supplies rfl
  obtain ⟨cell, _, heap₁, performs, _, finishes, _⟩ := (Task.reading.holds_plan heap).performs honoured realizes
  exact ⟨cell, heap₁, performs, finishes⟩

def Below (heap : Heap Task) (starts : List Ref) (ref : Ref) : Prop :=
  ∃ start ∈ starts, Relation.ReflTransGen (fun ref other => other ∈ Task.reading.links (heap.get ref)) start ref

theorem Below.inside {starts : List Ref} {ref : Ref} (acyclic : ∀ start ∈ starts, Task.reading.Acyclic heap start)
    (below : heap.Below starts ref) : ref < heap.cells.size := by
  obtain ⟨start, member, path⟩ := below
  cases (acyclic start member).reached path with
  | intro idle => exact inside_of_get_ne idle

-- A cell lies above what its inputs refer to.
theorem not_below {starts : List Ref} (acyclic : Task.reading.Acyclic heap own)
    (inputs : ∀ start ∈ starts,
      ∃ input ∈ Task.reading.links (heap.get own), start ∈ Task.reading.links (heap.get input)) :
    ¬ heap.Below starts own := by
  rintro ⟨start, member, path⟩
  obtain ⟨input, isInput, held⟩ := inputs start member
  exact acyclic.no_circle (.head isInput (.head' held path))

theorem paired_resume {starts : List Ref} (acyclic : ∀ start ∈ starts, Task.reading.Acyclic heap start)
    (apart : ¬ heap.Below starts own) :
    Paired (fun ref ref' => ref = ref' ∧ heap.Below starts ref) heap (heap.resume own) := by
  refine ⟨?_, ?_, ?_⟩
  · rintro ref _ ⟨rfl, below⟩
    simpa using below.inside acyclic
  · rintro ref _ other _ ⟨rfl, _⟩ ⟨rfl, _⟩
    exact Iff.rfl
  · rintro ref _ ⟨rfl, below⟩
    have different : own ≠ ref := by
      rintro rfl
      exact apart below
    rw [get_resume_of_ne heap different]
    refine Cell.paired_self _ fun other refers => ⟨rfl, ?_⟩
    obtain ⟨start, member, path⟩ := below
    exact ⟨start, member, path.tail refers⟩

-- While the task of a cell is performed, cells from which no reference leads to it take the same course.
theorem perform_resumed {starts : List Ref} {step : Step Task} {cell : Cell Task} {heap₁ : Heap Task}
    (acyclic : ∀ start ∈ starts, Task.reading.Acyclic heap start) (apart : ¬ heap.Below starts own)
    (inside : own < heap.cells.size) (steps : step.Paired (fun ref ref' => ref = ref' ∧ heap.Below starts ref) step)
    (performs : Performs Task.run step heap (.ok cell heap₁)) :
    ∃ heap₂, Performs Task.run step (heap.resume own) (.ok cell heap₂) ∧ own < heap₂.cells.size ∧
      ∀ ref, ref ≠ own → heap₂.get ref = heap₁.get ref := by
  have paired := paired_resume acyclic apart
  obtain ⟨bound, ran⟩ := performs
  have inStep := perform_inStep (fun _ _ _ _ _ => force_inStep bound) bound paired steps
  rw [ran bound bound (Nat.le_refl _) (Nat.le_refl _)] at inStep
  generalize ran' : perform Task.run (force Task.run bound) bound step (heap.resume own) = ended at inStep
  cases inStep with
  | @ok _ cell' count _ heap₂ lockstep cells =>
    have equal (ref ref' : Ref)
        (related : widen (fun ref ref' => ref = ref' ∧ heap.Below starts ref) heap.cells.size
          (heap.resume own).cells.size count ref ref') : ref = ref' := by
      rcases related with ⟨same, _⟩ | ⟨place, _, rfl, rfl⟩
      · exact same
      · rw [size_resume]
    cases cells.eq fun ref _ other related => equal other ref related
    refine ⟨heap₂, performs_of_ran ran', ?_, fun (ref : Nat) different => ?_⟩
    · rw [lockstep.size', size_resume]
      exact Nat.lt_add_right count inside
    have same (related : widen (fun ref ref' => ref = ref' ∧ heap.Below starts ref) heap.cells.size
        (heap.resume own).cells.size count ref ref) : heap₂.get ref = heap₁.get ref :=
      ((lockstep.paired.cells related).eq fun other _ third related => equal third other related).symm
    by_cases old : ref < heap.cells.size
    · by_cases below : heap.Below starts ref
      · exact same (.inl ⟨rfl, below⟩)
      · rw [lockstep.kept ref old fun _ related => below related.2,
          lockstep.kept' ref (by simpa using old) fun other related => below (related.1 ▸ related.2),
          get_resume_of_ne heap different.symm]
    · by_cases new : ref < heap.cells.size + count
      · refine same (.inr ⟨ref - heap.cells.size, by omega, by omega, ?_⟩)
        rw [size_resume]
        omega
      · rw [get_outside (by rw [lockstep.size', size_resume]; omega), get_outside (by rw [lockstep.size]; omega)]

theorem comparison_equates {negated : Bool} {first second : Ref} {result : Except Fault Bool} {heap₁ : Heap Task}
    (acyclic : Task.reading.Acyclic heap own)
    (found : heap.get own = .pending [first, second] (.comparison (if negated then .notEqual else .equal)))
    (known : heap.settled? first = some (.ok left)) (known' : heap.settled? second = some (.ok right))
    (performs : Performs Task.run (Task.comparePairs negated [.values left right]) heap
      (.ok (.ofOutcome (verdict negated result)) heap₁)) :
    ∃ heap₂, Eventually (fun fuel => force Task.run fuel own) heap (HeapM.ofOutcome (verdict negated result) heap₂) ∧
      ∀ ref, ref ≠ own → heap₂.get ref = heap₁.get ref := by
  have inputs : ∀ start ∈ left.refs ++ right.refs,
      ∃ input ∈ Task.reading.links (heap.get own), start ∈ Task.reading.links (heap.get input) := by
    intro start member
    rcases List.mem_append.mp member with held | held
    · exact ⟨first, by simp [found, Reading.links], by rw [get_of_settled? known]; exact held⟩
    · exact ⟨second, by simp [found, Reading.links], by rw [get_of_settled? known']; exact held⟩
  have below : ∀ start ∈ left.refs ++ right.refs, Task.reading.Acyclic heap start := by
    intro start member
    obtain ⟨input, isInput, held⟩ := inputs start member
    cases acyclic with
    | intro _ inner => cases inner input isInput with | intro _ inner => exact inner start held
  have inside : own < heap.cells.size := inside_of_get_ne (by simp [found])
  have steps : (Task.comparePairs negated [.values left right]).Paired
      (fun ref ref' => ref = ref' ∧ heap.Below (left.refs ++ right.refs) ref)
      (Task.comparePairs negated [.values left right]) := by
    refine Task.comparePairs_paired negated (.cons (.values (left.paired_self ?_) (right.paired_self ?_)) .nil)
    · exact fun ref held => ⟨rfl, ref, List.mem_append_left _ held, .refl⟩
    · exact fun ref held => ⟨rfl, ref, List.mem_append_right _ held, .refl⟩
  obtain ⟨heap₂, performs₂, inside₂, same⟩ :=
    perform_resumed below (not_below acyclic inputs) inside steps performs
  have ready : ∀ input ∈ [first, second], heap.isSettled input = true := by simp [isSettled, known, known']
  have got : heap.values [first, second] = .ok [left, right] := by simp [values, known, known', pure, Except.pure, bind, Except.bind]
  have step : Task.run (.comparison (if negated then .notEqual else .equal)) [left, right] =
      Task.comparePairs negated [.values left right] := by
    cases negated <;> rfl
  rw [← step] at performs₂
  have settled := settled?_set_ofOutcome inside₂ (verdict negated result)
  have moves : Moves Task.run [own] heap [] (heap₂.set own (.ofOutcome (verdict negated result))) :=
    (moves_perform found ready got performs₂).trans (moves_pop (by simp [isSettled, settled]))
  refine ⟨_, moves.force settled, fun ref different => ?_⟩
  rw [get_set_of_ne _ _ different.symm, same ref different]

theorem ended_inj {heap heap' : Heap Task} {result result' : Except Fault Bool}
    (same : heap.ended result = heap'.ended result') : heap = heap' ∧ result = result' := by
  cases result <;> cases result' <;> cases same <;> exact ⟨rfl, rfl⟩

/-- Equality of values from which references lead to no running cell and in no circle is the recursion:
with the same result or fault, and with the same cells left behind, whether it is asked for by itself or
by the cell of an operator. The cells that were there before are settled or left as they are. If the
beginnings of two lists or records do not turn out equal, the rest of them is left alone. -/
theorem equality_structural (negated : Bool)
    (acyclic : ∀ ref ∈ left.refs ++ right.refs, Task.reading.Acyclic heap ref) :
    ∃ (result : Except Fault Bool) (heap₁ : Heap Task),
      Eventually (fun fuel => equate fuel left right) heap (heap₁.ended result) ∧
      heap.Finishes heap₁ ∧
      Eventually (fun fuel => HeapM.equality fuel negated left right) heap
        (HeapM.ofOutcome (verdict negated result) heap₁) ∧
      (∀ own first second, Task.reading.Acyclic heap own →
        heap.get own = .pending [first, second] (.comparison (if negated then .notEqual else .equal)) →
        heap.settled? first = some (.ok left) → heap.settled? second = some (.ok right) →
        ∃ heap₂, Eventually (fun fuel => force Task.run fuel own) heap
            (HeapM.ofOutcome (verdict negated result) heap₂) ∧
          ∀ ref, ref ≠ own → heap₂.get ref = heap₁.get ref) ∧
      ∀ left' right', Cut left' right' left right → ∀ (stopped : Except Fault Bool) (heap' : Heap Task),
        Eventually (fun fuel => equate fuel left' right') heap (heap'.ended stopped) → stopped ≠ .ok true →
        result = stopped ∧ heap₁ = heap' := by
  obtain ⟨cell, heap₁, performs, finishes⟩ := comparePairs_performs negated acyclic
  obtain ⟨result, compared, rfl⟩ : ∃ result, Compared [.values left right] heap result heap₁ ∧
      cell = .ofOutcome (verdict negated result) := by
    obtain ⟨bound, ran⟩ := performs
    exact compared_of_perform bound (ran bound bound (Nat.le_refl _) (Nat.le_refl _))
  have compared := compared.single
  refine ⟨result, heap₁, compared, finishes, ?_, fun own first second above found known known' =>
    comparison_equates above found known known' performs, fun left' right' cut stopped heap' compared' stops => ?_⟩
  · obtain ⟨bound, ran⟩ := performs
    refine ⟨bound, fun fuel enough => ?_⟩
    simp only [HeapM.equality, Bind.bind, EStateM.bind, ran fuel fuel enough enough, Cell.settled?_ofOutcome,
      Option.getD_some]
  · exact (ended_inj (compared.unique (cut.equate compared' stops))).symm

end Equality

-- The second cell negates the first one, the third one asks for both by means of a new cell, and the last one
-- fails.
def differing : Heap Task where
  cells := #[.forced (.boolean true), .pending [0] (.unary .negation), .pending [0] (.shortCircuit .conjunction 1),
    .pending [] (.fail .divisionByZero)]

def differed : Heap Task where
  cells := #[.forced (.boolean true), .forced (.boolean false), .forced (.boolean false),
    .pending [] (.fail .divisionByZero), .forced (.boolean false)]
  resumed := [4, 1, 2]

-- The second elements differ, so the third ones are not forced.
theorem equality_structural_differing :
    (∀ ref ∈ (Value.list [0, 2, 3]).refs ++ (Value.list [0, 0, 3]).refs, Task.reading.Acyclic differing ref) ∧
      Eventually (fun fuel => HeapM.equality fuel false (.list [0, 2, 3]) (.list [0, 0, 3])) differing
        (.ok (.boolean false) differed) := by
  have older : ∀ ref, ref < differing.cells.size → differing.get ref ≠ .running ∧
      ∀ other ∈ Task.reading.links (differing.get ref), other < ref := by
    intro ref inside
    have : ref < 4 := inside
    interval_cases ref <;> simp [differing, get, Reading.links, Task.reading, Task.refs, Value.refs]
  have acyclic : ∀ ref ∈ (Value.list [0, 2, 3]).refs ++ (Value.list [0, 0, 3]).refs, Task.reading.Acyclic differing ref := by
    intro ref member
    refine Reading.acyclic_of_older (fun ref inside => (older ref inside).1) (fun ref inside => (older ref inside).2) ?_
    simp only [Value.refs, List.mem_append, List.mem_cons, List.not_mem_nil, or_false] at member
    rcases member with (rfl | rfl | rfl) | (rfl | rfl | rfl) <;> decide
  have recursion : Eventually (fun fuel => equate fuel (.list [0, 2, 3]) (.list [0, 0, 3])) differing
      (differed.ended (.ok false)) := by
    refine ⟨12, fun fuel enough => ?_⟩
    obtain ⟨more, rfl⟩ := Nat.exists_eq_add_of_le' enough
    rfl
  obtain ⟨result, heap₁, compared, _, asked, _⟩ := equality_structural false acyclic
  obtain ⟨rfl, rfl⟩ := ended_inj (compared.unique recursion)
  exact ⟨acyclic, asked⟩

end Heap

end ByNeed
