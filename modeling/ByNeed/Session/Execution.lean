import ByNeed.Eval.Statement
import ByNeed.Grammar.Statement

set_option autoImplicit false

namespace ByNeed

inductive Failure where
  | rejected (error : SyntaxError)
  | stopped (interrupt : Interrupt)
deriving Repr, DecidableEq

def ampleFuel : Nat := Nat.pow 2 62

structure Run (α : Type) where
  output : List String
  result : Except Failure α

namespace Context

def observe {α : Type} (computation : Eval α) : Context → Run α × Context
  | ⟨heap, environment, registry, _⟩ =>
    match computation ⟨heap, environment, registry, #[]⟩ with
    | .ok result ⟨heap, environment, registry, output⟩ =>
      (⟨output.toList, .ok result⟩, ⟨heap, environment, registry, #[]⟩)
    | .error interrupt ⟨heap, environment, registry, output⟩ =>
      (⟨output.toList, .error (.stopped interrupt)⟩, ⟨heap, environment, registry, #[]⟩)

/-- Parses a source text and does something with the program. A text that is no program changes
nothing. -/
def enter {α : Type} (source : String) (use : Program → Eval α) (context : Context) :
    Run α × Context :=
  match Program.parse source with
  | .ok program => context.observe (use program)
  | .error error => (⟨[], .error (.rejected error)⟩, context)

end Context

def execute (fuel : Nat) (source : String) : Run (Option Ref) :=
  (Context.enter source (Program.exec fuel) {}).1

end ByNeed
