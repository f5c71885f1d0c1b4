import ByNeed.Eval.Task
import ByNeed.Heap.Text
import Std.Data.TreeMap

set_option autoImplicit false

namespace ByNeed

structure Environment where
  bindings : Std.TreeMap String Ref := {}

namespace Environment

def get? (environment : Environment) (id : String) : Option Ref :=
  environment.bindings[id]?

def set (environment : Environment) (id : String) (ref : Ref) : Environment :=
  ⟨environment.bindings.insert id ref⟩

def contains (environment : Environment) (id : String) : Bool :=
  environment.bindings.contains id

end Environment

structure Registry where
  definitions : Std.TreeMap String (List String) := {}

namespace Registry

def fields? (registry : Registry) (type : String) : Option (List String) :=
  registry.definitions[type]?

def define (registry : Registry) (type : String) (fields : List String) : Except Fault Registry :=
  if registry.definitions.contains type then .error (.duplicateRecordType type)
  else .ok ⟨registry.definitions.insert type fields⟩

end Registry

structure Context where
  heap : Heap Task := {}
  environment : Environment := {}
  registry : Registry := {}
  output : Array String := #[]

/-- Computations of a running program. What they did stays done when they stop early. -/
abbrev Eval := EStateM Interrupt Context

namespace Eval

def onHeap {α : Type} (computation : HeapM Task α) : Eval α
  | ⟨heap, environment, registry, output⟩ =>
    match computation heap with
    | .ok result heap => .ok result ⟨heap, environment, registry, output⟩
    | .error interrupt heap => .error interrupt ⟨heap, environment, registry, output⟩

def raise {α : Type} (fault : Fault) : Eval α :=
  throw (.fault fault)

def alloc (cell : Cell Task) : Eval Ref :=
  onHeap (HeapM.alloc cell)

def force (fuel : Nat) (ref : Ref) : Eval Value :=
  onHeap (Heap.force Task.run fuel ref)

def forceDeep (fuel : Nat) (ref : Ref) : Eval Value :=
  onHeap (Heap.forceDeep Task.run fuel ref)

def display (fuel : Nat) (value : Value) : Eval String := fun context =>
  match context.heap.display fuel value with
  | some text => .ok text context
  | none => .error .exhausted context

def lookup? (id : String) : Eval (Option Ref) := do
  return (← get).environment.get? id

def assign (id : String) (ref : Ref) : Eval Unit :=
  modify fun context => { context with environment := context.environment.set id ref }

def reassign (id : String) (value : Value) : Eval Unit := do
  if (← get).environment.contains id then
    Eval.assign id (← alloc (.forced value))
  else raise (.undefinedVariable id)

def define (type : String) (fields : List String) : Eval Unit := fun context =>
  match context.registry.define type fields with
  | .ok registry => .ok () { context with registry }
  | .error fault => .error (.fault fault) context

def print (text : String) : Eval Unit :=
  modify fun context => { context with output := context.output.push text }

-- Runs a computation and then restores the bindings from before it, also if it stopped early.
def restoring {α : Type} (bindings : Environment) (computation : Eval α) : Eval α := fun context =>
  match computation context with
  | .ok result context => .ok result { context with environment := bindings }
  | .error interrupt context => .error interrupt { context with environment := bindings }

end Eval

end ByNeed
