import ByNeed.Heap.Force
import ByNeed.Heap.Text
import ByNeed.Value.Operator
import Std.Data.TreeMap

set_option autoImplicit false

-- A task that refers to a cell by name means the cell which has that name when the task is performed.
namespace ByNeed.Script

inductive Act where
  | done (value : Value)
  | first
  | sum
  | add (addend : Value)
  | list
  | defer (name : String)
  | deferred (target : Option Ref)
  | force (name : String)
  | fail (fault : Fault)
deriving Repr

def zero : Value := .integer 0

def sum (values : List Value) : Outcome :=
  values.foldlM ArithmeticOp.add.apply zero

def collect : List Value → List Ref → Step Act
  | [], stored => .done (.list stored.reverse)
  | value :: rest, stored => .alloc (.forced value) fun ref => collect rest (ref :: stored)

def named (names : String → Option Ref) (name : String) (use : Ref → Step Act) : Step Act :=
  match names name with
  | some ref => use ref
  | none => .fail (.undefinedVariable name)

def Act.run (names : String → Option Ref) : Behaviour Act
  | .done value, _ => .done value
  | .first, values => .done (values.headD zero)
  | .sum, values => .ofOutcome (Script.sum values)
  | .add addend, values => .ofOutcome (ArithmeticOp.add.apply (values.headD zero) addend)
  | .list, values => collect values []
  | .defer name, _ => named names name .defer
  | .deferred (some target), _ => .defer target
  | .deferred none, _ => .done zero
  | .force name, _ => named names name fun ref => .need ref .done
  | .fail fault, _ => .fail fault

structure Bench where
  heap : Heap Act := {}
  names : Std.TreeMap String Ref := {}
  labels : Std.TreeMap Ref String := {}

abbrev BenchM := StateM Bench

namespace Bench

def behaviour (bench : Bench) : Behaviour Act :=
  Act.run fun name => bench.names[name]?

def onHeap {α : Type} (computation : HeapM Act α) : BenchM (Except Interrupt α)
  | ⟨heap, names, labels⟩ =>
    match computation heap with
    | .ok result heap => (.ok result, ⟨heap, names, labels⟩)
    | .error interrupt heap => (.error interrupt, ⟨heap, names, labels⟩)

def name (id : String) (ref : Ref) : BenchM Unit :=
  modify fun bench => { bench with names := bench.names.insert id ref }

def alloc (cell : Cell Act) : BenchM Ref
  | ⟨heap, names, labels⟩ =>
    (heap.cells.size, ⟨heap.push cell, names, labels⟩)

def suspend (id : String) (inputs : List Ref) (act : Act) : BenchM Unit := do
  let ref ← alloc (.pending inputs act)
  modify fun bench => { bench with labels := bench.labels.insert ref id }
  name id ref

def chain : Nat → Ref → BenchM Ref
  | 0, ref => return ref
  | count + 1, ref => do chain count (← alloc (.pending [ref] (.add (.integer 1))))

def find? (id : String) : BenchM (Option Ref) := do
  return (← get).names[id]?

def drop (id : String) : BenchM Bool := do
  let known := (← get).names.contains id
  modify fun bench => { bench with names := bench.names.erase id }
  return known

def force (fuel : Nat) (ref : Ref) : BenchM (Except Interrupt Value) := do
  let behaviour := (← get).behaviour
  onHeap (Heap.force behaviour fuel ref)

def forceDeep (fuel : Nat) (ref : Ref) : BenchM (Except Interrupt Value) := do
  let behaviour := (← get).behaviour
  onHeap (Heap.forceDeep behaviour fuel ref)

def takeReports : BenchM (List String)
  | ⟨⟨cells, resumed⟩, names, labels⟩ =>
    (resumed.reverse.filterMap fun ref => labels[ref]?, ⟨⟨cells, []⟩, names, labels⟩)

end Bench

end ByNeed.Script
