import ByNeed.Proofs.Strict.Tree
import ByNeed.Session.Execution

set_option autoImplicit false

-- A name is bound to an outcome, computed at once. A fault is an outcome like any other until a statement or
-- a strict operand needs the value.
namespace ByNeed.Strict

structure State where
  bindings : String → Option Complete := fun _ => none
  registry : Registry := {}
  output : Array String := #[]

abbrev Exec := EStateM Fault State

namespace Exec

def assign (id : String) (outcome : Complete) : Exec Unit :=
  modify fun state => { state with bindings := Function.update state.bindings id (some outcome) }

def demand : Complete → Exec Tree
  | .ok value => pure value
  | .error fault => throw fault

def demandDeep (outcome : Complete) : Exec Tree := do
  let value ← demand outcome
  match value.deepFault? with
  | some fault => throw fault
  | none => return value

def print (text : String) : Exec Unit :=
  modify fun state => { state with output := state.output.push text }

def define (type : String) (fields : List String) : Exec Unit := fun state =>
  match state.registry.define type fields with
  | .ok registry => .ok () { state with registry }
  | .error fault => .error fault state

def restoring {α : Type} (computation : Exec α) : Exec α := fun state =>
  match computation state with
  | .ok result later => .ok result { later with bindings := state.bindings }
  | .error fault later => .error fault { later with bindings := state.bindings }

def step (op : UnaryOp) : Expr → Exec Complete
  | .name id => do
    let some current := (← get).bindings id | throw (.undefinedVariable id)
    let updated ← demand (Tree.unary op (← demand current))
    assign id (.ok updated)
    return .ok updated
  | operand => throw (.notAVariable operand.text)

end Exec

mutual

def outcome : Expr → Exec Complete
  | .literal value => return .ok (.ofLiteral value)
  | .name id => return ((← get).bindings id).getD (.error (.undefinedVariable id))
  | .list elements => return .ok (.list (← outcomes elements))
  | .index collection position => do
    let collection ← outcome collection
    let position ← outcome position
    return do Tree.index (← collection) (← position)
  | .create type arguments => do
    let arguments ← outcomes arguments
    match (← get).registry.fields? type with
    | some fields => return do Tree.create type fields (← arguments.mapM id)
    | none => return .error (.unknownRecordType type)
  | .member object field => do
    let object ← outcome object
    return do Tree.member field (← object)
  | .unary .increment operand => Exec.step .increment operand
  | .unary .decrement operand => Exec.step .decrement operand
  | .unary op operand => do
    let operand ← outcome operand
    return do Tree.unary op (← operand)
  | .arithmetic op left right => do
    let left ← outcome left
    let right ← outcome right
    return do Tree.arithmetic op (← left) (← right)
  | .logical op left right => do
    let left ← outcome left
    let right ← outcome right
    return do Tree.logical op (← left) right
  | .comparison op left right => do
    let left ← outcome left
    let right ← outcome right
    return do Tree.compare op (← left) (← right)

def outcomes : List Expr → Exec (List Complete)
  | [] => return []
  | first :: rest => do
    let first ← outcome first
    let rest ← outcomes rest
    return first :: rest

end

def Exec.assignAll : List (String × Tree) → Exec Unit
  | [] => return ()
  | (id, value) :: rest => do
    Exec.assign id (.ok value)
    assignAll rest

def Exec.unmatched (value : Tree) : Exec (Option Complete) := do
  let value ← demandDeep (.ok value)
  throw (.noPatternMatched (value.text false))

def Exec.forEach (id : String) (body : Exec (Option Complete)) :
    List Complete → Option Complete → Exec (Option Complete)
  | [], result => return result
  | element :: rest, _ => do
    Exec.assign id element
    forEach id body rest (← body)

mutual

def exec : Statement → Exec (Option Complete)
  | .assign id value => do
    Exec.assign id (← outcome value)
    return none
  | .print value => do
    let value ← Exec.demandDeep (← outcome value)
    Exec.print (value.text false)
    return some (.ok value)
  | .branch condition consequence none => do
    if (← Exec.demand (← outcome condition)).truthy then execBlock consequence none
    else return none
  | .branch condition consequence (some alternative) => do
    if (← Exec.demand (← outcome condition)).truthy then execBlock consequence none
    else execBlock alternative none
  | .iterate id items body => do
    match ← Exec.demand (← outcome items) with
    | .list elements => Exec.forEach id (execBlock body none) elements none
    | other => throw (mismatch Keyword.iterate.spelling "list" other.surface)
  | .select scrutinee cases none => do
    let value ← Exec.demand (← outcome scrutinee)
    execCases value (Exec.unmatched value) cases
  | .select scrutinee cases (some alternative) => do
    let value ← Exec.demand (← outcome scrutinee)
    execCases value (execBlock alternative none) cases
  | .define type fields => do
    Exec.define type fields
    return none
  | .evaluate value => return some (← outcome value)

def execBlock : List Statement → Option Complete → Exec (Option Complete)
  | [], result => return result
  | first :: rest, _ => do
    let result ← exec first
    execBlock rest result

def execCases (value : Tree) (otherwise : Exec (Option Complete)) :
    List (Pattern × List Statement) → Exec (Option Complete)
  | [] => otherwise
  | (pattern, body) :: rest =>
    match pattern.fits? value with
    | some bindings => Exec.restoring do
      Exec.assignAll bindings
      execBlock body none
    | none => execCases value otherwise rest

end

def run (program : Program) : Run (Option Complete) :=
  match execBlock program.statements none {} with
  | .ok result state => ⟨state.output.toList, .ok result⟩
  | .error fault state => ⟨state.output.toList, .error (.stopped (.fault fault))⟩

end ByNeed.Strict
