import ByNeed.Eval.Expr

set_option autoImplicit false

-- Conditions, the lists of iterations and what selections look at are forced; what is printed is forced
-- through and through.
namespace ByNeed

def Pattern.match? : Pattern → Value → Option (List (String × Value))
  | .wildcard, _ => some []
  | .binding id, value => some [(id, value)]
  | .literal constant, value => if value.matchesLiteral constant then some [] else none

def Eval.assignAll : List (String × Value) → Eval Unit
  | [] => return ()
  | (id, value) :: rest => do
    Eval.assign id (← alloc (.forced value))
    assignAll rest

-- The fault of a value that no case matches. The text shows the value with all its parts.
def Eval.unmatched (fuel : Nat) (value : Value) : Eval (Option Ref) := do
  let value ← forceDeep fuel (← alloc (.forced value))
  raise (.noPatternMatched (← display fuel value))

def Eval.forEach (id : String) (body : Eval (Option Ref)) :
    List Ref → Option Ref → Eval (Option Ref)
  | [], result => return result
  | element :: rest, _ => do
    Eval.assign id (← alloc (.delegated element))
    forEach id body rest (← body)

mutual

def Statement.exec (fuel : Nat) : Statement → Eval (Option Ref)
  | .assign id value => do
    Eval.assign id (← value.delay fuel)
    return none
  | .print value => do
    let value ← Eval.forceDeep fuel (← value.delay fuel)
    Eval.print (← Eval.display fuel value)
    return some (← Eval.alloc (.forced value))
  | .branch condition consequence none => do
    if (← Eval.force fuel (← condition.delay fuel)).truthy then
      Statement.execBlock fuel consequence none
    else return none
  | .branch condition consequence (some alternative) => do
    if (← Eval.force fuel (← condition.delay fuel)).truthy then
      Statement.execBlock fuel consequence none
    else Statement.execBlock fuel alternative none
  | .iterate id items body => do
    match ← Eval.force fuel (← items.delay fuel) with
    | .list elements => Eval.forEach id (Statement.execBlock fuel body none) elements none
    | other => Eval.raise (mismatch Keyword.iterate.spelling "list" other)
  | .select scrutinee cases none => do
    let value ← Eval.force fuel (← scrutinee.delay fuel)
    Statement.execCases fuel value (Eval.unmatched fuel value) cases
  | .select scrutinee cases (some alternative) => do
    let value ← Eval.force fuel (← scrutinee.delay fuel)
    Statement.execCases fuel value (Statement.execBlock fuel alternative none) cases
  | .define type fields => do
    Eval.define type fields
    return none
  | .evaluate value => return some (← value.delay fuel)

def Statement.execBlock (fuel : Nat) : List Statement → Option Ref → Eval (Option Ref)
  | [], result => return result
  | first :: rest, _ => do
    let result ← first.exec fuel
    Statement.execBlock fuel rest result

def Statement.execCases (fuel : Nat) (value : Value) (otherwise : Eval (Option Ref)) :
    List (Pattern × List Statement) → Eval (Option Ref)
  | [] => otherwise
  | (pattern, body) :: rest =>
    match pattern.match? value with
    | some bindings => do
      Eval.restoring (← get).environment do
        Eval.assignAll bindings
        Statement.execBlock fuel body none
    | none => Statement.execCases fuel value otherwise rest

end

def Program.exec (fuel : Nat) (program : Program) : Eval (Option Ref) :=
  Statement.execBlock fuel program.statements none

end ByNeed
