import ByNeed.Value.Basic

set_option autoImplicit false

-- A cell is suspended until it is first needed. What a suspended cell does is a task; the type of
-- tasks and what they do once the values they wait for are known belong to the user of the heap.
namespace ByNeed

inductive Fresh (τ : Type) where
  | forced (value : Value)
  | delegated (target : Ref)
  | pending (inputs : List Ref) (task : τ)

/-- What a task does with the values it waited for. It settles the cell or hands it over to another
one. On the way it may make new cells, force cells, and go on as a task that waits for nothing. -/
inductive Step (τ : Type) where
  | done (value : Value)
  | fail (fault : Fault)
  | defer (target : Ref)
  | alloc (origin : Fresh τ) (next : Ref → Step τ)
  | demand (target : Ref) (next : Outcome → Step τ)
  | become (task : τ)

namespace Step

variable {τ : Type}

def ofOutcome : Outcome → Step τ
  | .ok value => .done value
  | .error fault => .fail fault

def need (target : Ref) (use : Value → Step τ) : Step τ :=
  .demand target fun
    | .ok value => use value
    | .error fault => .fail fault

end Step

abbrev Behaviour (τ : Type) := τ → List Value → Step τ

inductive Cell (τ : Type) where
  -- The task is performed once all inputs are settled.
  | pending (inputs : List Ref) (task : τ)
  -- The task is being performed.
  | running
  -- The outcome is that of another cell.
  | delegated (target : Ref)
  | forced (value : Value)
  | failed (fault : Fault)

def Fresh.cell {τ : Type} : Fresh τ → Cell τ
  | .forced value => .forced value
  | .delegated target => .delegated target
  | .pending inputs task => .pending inputs task

def Cell.settled? {τ : Type} : Cell τ → Option Outcome
  | .forced value => some (.ok value)
  | .failed fault => some (.error fault)
  | .pending _ _ | .running | .delegated _ => none

def Cell.ofOutcome {τ : Type} : Outcome → Cell τ
  | .ok value => .forced value
  | .error fault => .failed fault

structure Heap (τ : Type) where
  cells : Array (Cell τ) := #[]
  resumed : List Ref := []

namespace Heap

variable {τ : Type}

-- An address without a cell reads as a cell that can never be settled.
def get (heap : Heap τ) (ref : Ref) : Cell τ :=
  heap.cells[ref]?.getD .running

theorem get_outside {heap : Heap τ} {ref : Ref} (outside : heap.cells.size ≤ ref) :
    heap.get ref = .running := by
  simp [get, Array.getElem?_eq_none outside]

def set (heap : Heap τ) (ref : Ref) (cell : Cell τ) : Heap τ :=
  { heap with cells := heap.cells.setIfInBounds ref cell }

def push (heap : Heap τ) (cell : Cell τ) : Heap τ :=
  { heap with cells := heap.cells.push cell }

@[simp] theorem size_set (heap : Heap τ) (ref : Ref) (cell : Cell τ) :
    (heap.set ref cell).cells.size = heap.cells.size := by
  simp [set]

@[simp] theorem size_push (heap : Heap τ) (cell : Cell τ) :
    (heap.push cell).cells.size = heap.cells.size + 1 := by
  simp [push]

theorem get_set_self (heap : Heap τ) {ref : Ref} (cell : Cell τ)
    (inside : ref < heap.cells.size) : (heap.set ref cell).get ref = cell := by
  simp [get, set, inside]

theorem get_set_of_ne (heap : Heap τ) {ref other : Ref} (cell : Cell τ)
    (different : ref ≠ other) : (heap.set ref cell).get other = heap.get other := by
  simp [get, set, Array.getElem?_setIfInBounds_ne different]

@[simp] theorem get_push_size (heap : Heap τ) (cell : Cell τ) :
    (heap.push cell).get heap.cells.size = cell := by
  simp [get, push]

theorem get_push_of_lt (heap : Heap τ) {ref : Ref} (cell : Cell τ)
    (inside : ref < heap.cells.size) : (heap.push cell).get ref = heap.get ref := by
  simp [get, push, Array.getElem?_push, Nat.ne_of_lt inside]

def settled? (heap : Heap τ) (ref : Ref) : Option Outcome :=
  (heap.get ref).settled?

def isSettled (heap : Heap τ) (ref : Ref) : Bool :=
  (heap.settled? ref).isSome

theorem not_settled {heap : Heap τ} {ref : Ref} {cell : Cell τ} (found : heap.get ref = cell)
    (unsettled : cell.settled? = none) : heap.isSettled ref = false := by
  simp [isSettled, settled?, found, unsettled]

def peek? (heap : Heap τ) (ref : Ref) : Option Value :=
  match heap.settled? ref with
  | some (.ok value) => some value
  | _ => none

def resume (heap : Heap τ) (ref : Ref) : Heap τ :=
  { cells := heap.cells.setIfInBounds ref .running, resumed := ref :: heap.resumed }

def values (heap : Heap τ) (refs : List Ref) : Except Fault (List Value) :=
  refs.mapM fun ref => (heap.settled? ref).getD (.error .dependsOnItself)

end Heap

inductive Interrupt where
  | fault (fault : Fault)
  | exhausted
deriving Repr, DecidableEq

abbrev HeapM (τ : Type) := EStateM Interrupt (Heap τ)

namespace HeapM

variable {τ : Type}

def alloc (cell : Cell τ) : HeapM τ Ref := fun heap =>
  .ok heap.cells.size (heap.push cell)

def raise {α : Type} (fault : Fault) : HeapM τ α :=
  throw (.fault fault)

def outcome (computation : HeapM τ Value) : HeapM τ Outcome := fun heap =>
  match computation heap with
  | .ok value heap => .ok (.ok value) heap
  | .error (.fault fault) heap => .ok (.error fault) heap
  | .error .exhausted heap => .error .exhausted heap

def ofOutcome : Outcome → HeapM τ Value
  | .ok value => pure value
  | .error fault => raise fault

end HeapM

end ByNeed
