import ByNeed.Session.Repl

set_option autoImplicit false

namespace ByNeed.CommandLine

inductive Origin where
  | text (source : String)
  | file (path : String)
  | dialogue
deriving Repr, DecidableEq

structure Invocation where
  origin : Origin := .dialogue
  dump : Bool := false
deriving Repr, DecidableEq

/-- Holds if an argument is taken for an option. A single dash is not. -/
def isOption (argument : String) : Bool :=
  argument.startsWith "-" && argument ≠ "-"

def Invocation.from? (invocation : Invocation) (origin : Origin) : Option Invocation :=
  match invocation.origin with
  | .dialogue => some { invocation with origin }
  | _ => none

def Invocation.parse? : List String → Invocation → Option Invocation
  | [], invocation => some invocation
  | "--dump-ast" :: rest, invocation =>
    if invocation.dump then none else parse? rest { invocation with dump := true }
  | "--eval" :: source :: rest, invocation | "-e" :: source :: rest, invocation =>
    if isOption source then none
    else (invocation.from? (.text source)).bind (parse? rest)
  | argument :: rest, invocation =>
    if isOption argument then none
    else (invocation.from? (.file argument)).bind (parse? rest)

structure Effect where
  exitCode : Nat
  stdout : String := ""
  report : Option Report := none
deriving Repr

def Effect.usage : Effect := { exitCode := 2 }

def runSource (fuel : Nat) (dump : Bool) (source : String) : Effect :=
  if dump then
    match Program.parse source with
    | .ok program => { exitCode := 0, stdout := program.text }
    | .error error => { exitCode := 1, report := some (.ofSyntaxError source error) }
  else
    let run := execute fuel source
    let stdout := Repl.unlines run.output
    match run.result with
    | .ok _ => { exitCode := 0, stdout }
    | .error failure => { exitCode := 1, stdout, report := some (.ofFailure source failure) }

def Invocation.effect (fuel : Nat) (contents : String → String) (input : String)
    (invocation : Invocation) : Effect :=
  match invocation.origin with
  | .text source => runSource fuel invocation.dump source
  | .file path => runSource fuel invocation.dump (contents path)
  | .dialogue => { exitCode := 0, stdout := Repl.transcript fuel input }

def effect (fuel : Nat) (contents : String → String) (input : String)
    (arguments : List String) : Effect :=
  match Invocation.parse? arguments {} with
  | some invocation => invocation.effect fuel contents input
  | none => .usage

end ByNeed.CommandLine
