import ByNeed.Heap.Basic

set_option autoImplicit false

-- A stack holds the cells whose outcomes are needed, the most urgent on top. A cell on top waits until
-- its inputs, or the cell it was handed over to, are settled; then its task is performed or the outcome
-- is taken over. No call nests for a chain of cells, only for a task that forces cells itself.
namespace ByNeed.Heap

variable {τ : Type}

def perform (behaviour : Behaviour τ) (force : Ref → HeapM τ Value) : Nat → Step τ → HeapM τ (Cell τ)
  | _, .done value, heap => .ok (.forced value) heap
  | _, .fail fault, heap => .ok (.failed fault) heap
  | _, .defer target, heap => .ok (.delegated target) heap
  | 0, .alloc _ _, heap | 0, .demand _ _, heap | 0, .become _, heap => .error .exhausted heap
  | fuel + 1, .alloc origin next, heap =>
    perform behaviour force fuel (next heap.cells.size) (heap.push origin.cell)
  | fuel + 1, .demand target next, heap =>
    match force target heap with
    | .ok value heap => perform behaviour force fuel (next (.ok value)) heap
    | .error (.fault fault) heap => perform behaviour force fuel (next (.error fault)) heap
    | .error .exhausted heap => .error .exhausted heap
  | fuel + 1, .become task, heap => perform behaviour force fuel (behaviour task []) heap

def read (ref : Ref) : HeapM τ Value := fun heap =>
  HeapM.ofOutcome ((heap.settled? ref).getD (.error .dependsOnItself)) heap

/-- Settles every cell on the stack. A cell whose task was cut short for lack of fuel is as before. -/
def drive (behaviour : Behaviour τ) : Nat → List Ref → HeapM τ Unit
  | 0, _, heap => .error .exhausted heap
  | _ + 1, [], heap => .ok () heap
  | fuel + 1, top :: rest, heap =>
    match heap.get top with
    | .forced _ | .failed _ => drive behaviour fuel rest heap
    | .running => .error (.fault .dependsOnItself) heap
    | .delegated target =>
      match heap.settled? target with
      | some outcome => drive behaviour fuel (top :: rest) (heap.set top (.ofOutcome outcome))
      | none => drive behaviour fuel (target :: top :: rest) heap
    | .pending inputs task =>
      match inputs.find? fun input => !heap.isSettled input with
      | some input => drive behaviour fuel (input :: top :: rest) heap
      | none =>
        match heap.values inputs with
        | .error fault => drive behaviour fuel (top :: rest) (heap.set top (.failed fault))
        | .ok values =>
          let nested (ref : Ref) : HeapM τ Value := do
            drive behaviour fuel [ref]
            read ref
          match perform behaviour nested fuel (behaviour task values) (heap.resume top) with
          | .ok cell heap => drive behaviour fuel (top :: rest) (heap.set top cell)
          | .error interrupt heap => .error interrupt (heap.set top (.pending inputs task))

def force (behaviour : Behaviour τ) (fuel : Nat) (ref : Ref) : HeapM τ Value := do
  drive behaviour fuel [ref]
  read ref

/-- Forces cells from the first to the last and puts their values in front of the given ones, the
last value first. -/
def forceEach (behaviour : Behaviour τ) (fuel : Nat) : List Ref → List Value →
    HeapM τ (List Value)
  | [], found => return found
  | ref :: rest, found => do
    let value ← force behaviour fuel ref
    forceEach behaviour fuel rest (value :: found)

def deepen (behaviour : Behaviour τ) (limit : Nat) : Nat → List Value → HeapM τ Unit
  | 0, _ => throw .exhausted
  | _ + 1, [] => return ()
  | fuel + 1, .list elements :: rest => do
    deepen behaviour limit fuel (← forceEach behaviour limit elements rest)
  | fuel + 1, .record _ fields :: rest =>
    deepen behaviour limit fuel ((fields.map Prod.snd).reverse ++ rest)
  | fuel + 1, _ :: rest => deepen behaviour limit fuel rest

def forceDeep (behaviour : Behaviour τ) (fuel : Nat) (ref : Ref) : HeapM τ Value := do
  let value ← force behaviour fuel ref
  deepen behaviour fuel fuel [value]
  return value

end ByNeed.Heap
