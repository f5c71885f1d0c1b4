import ByNeed.Session.Report

set_option autoImplicit false

-- An entry that ends too early waits for more lines, and one that is wrong in another way is dropped.
namespace ByNeed

structure Repl where
  context : Context := {}
  entry : String := ""

structure Repl.Answer where
  printed : List String := []
  report : Option Report := none

namespace Repl

def prompt (repl : Repl) : String :=
  if repl.entry.isEmpty then ">> " else ".. "

def farewell : String := "CTRL-D\n"

def echo (fuel : Nat) (program : Program) : Eval (Option String) := do
  let result ← program.exec fuel
  match program.statements.getLast?, result with
  | some (.evaluate _), some ref =>
    let value ← Eval.forceDeep fuel ref
    return some (← Eval.display fuel value)
  | _, _ => return none

def answer (run : Run (Option String)) : Answer :=
  match run.result with
  | .ok echoed => { printed := run.output ++ echoed.toList }
  | .error (.stopped interrupt) =>
    { printed := run.output, report := some (.ofInterrupt interrupt) }
  | .error (.rejected _) => { printed := run.output }

def feed (fuel : Nat) (line : String) : Repl → Answer × Repl
  | ⟨context, entry⟩ =>
    let source := entry ++ line ++ "\n"
    match Program.parse source with
    | .ok program =>
      let (run, context) := context.observe (echo fuel program)
      (answer run, ⟨context, ""⟩)
    | .error (.endOfInput _) => ({}, ⟨context, source⟩)
    | .error error => ({ report := some (.ofSyntaxError source error) }, ⟨context, ""⟩)

def unlines (texts : List String) : String :=
  String.join (texts.map (· ++ "\n"))

def transcriptFrom (fuel : Nat) : List String → Repl → String → String
  | [], repl, written => written ++ repl.prompt ++ farewell
  | line :: rest, repl, written =>
    let written := written ++ repl.prompt
    let (answer, repl) := repl.feed fuel line
    transcriptFrom fuel rest repl (written ++ unlines answer.printed)

def transcript (fuel : Nat) (input : String) : String :=
  transcriptFrom fuel (Text.lines input) {} ""

end Repl

end ByNeed
