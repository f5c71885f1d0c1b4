import ByNeed.Session.Execution

set_option autoImplicit false

namespace ByNeed

structure Label where
  offset : Nat
  length : Nat
  text : String
deriving Repr, DecidableEq

structure Report where
  message : String
  code : String
  help : Option String := none
  labels : List Label := []
deriving Repr, DecidableEq

namespace SyntaxError

def labelText : SyntaxError → String
  | endOfInput expected | unexpected expected _ => "expected " ++ expected.describe
  | notAnExpression _ => "expected an expression"
  | notAPattern _ => "not a pattern"
  | integerOutOfRange _ | malformedFloat => "here"
  | lexical error _ => error.message

def help? : SyntaxError → Option String
  | endOfInput _ => some "the input ended in the middle of a statement"
  | notAPattern _ => some "patterns are literals, names or `_`"
  | _ => none

end SyntaxError

namespace Report

/-- An error without a place of its own is placed at the end of the source text. -/
def ofSyntaxError (source : String) (error : SyntaxError) : Report :=
  let span := error.span?.getD ⟨source.utf8ByteSize, source.utf8ByteSize⟩
  { message := error.message
    code := "ferb::syntax"
    help := error.help?
    labels := [⟨span.start, span.stop - span.start, error.labelText⟩] }

def ofInterrupt : Interrupt → Report
  | .fault fault => { message := "Runtime error: " ++ fault.message, code := "ferb::runtime" }
  | .exhausted => { message := "Runtime error: Step limit reached", code := "ferb::runtime" }

def ofFailure (source : String) : Failure → Report
  | .rejected error => ofSyntaxError source error
  | .stopped interrupt => ofInterrupt interrupt

end Report

def diagnose (fuel : Nat) (source : String) : Option Report :=
  match (execute fuel source).result with
  | .ok _ => none
  | .error failure => some (.ofFailure source failure)

end ByNeed
