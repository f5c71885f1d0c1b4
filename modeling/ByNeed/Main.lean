import ByNeed.Session.CommandLine

set_option autoImplicit false

namespace ByNeed.CommandLine

def writeReport (report : Report) : IO Unit := do
  IO.eprintln s!"{report.code}: {report.message}"
  for label in report.labels do
    IO.eprintln s!"  at {label.offset}, length {label.length}: {label.text}"
  if let some help := report.help then
    IO.eprintln s!"  help: {help}"

def finish (result : Effect) : IO UInt32 := do
  IO.print result.stdout
  if let some report := result.report then
    writeReport report
  return result.exitCode.toUInt32

partial def converse (input output : IO.FS.Stream) (repl : Repl) : IO UInt32 := do
  output.putStr repl.prompt
  output.flush
  let line ← input.getLine
  if line.isEmpty then
    output.putStr Repl.farewell
    return 0
  let (answer, repl) := repl.feed ampleFuel ((Text.lines line).headD "")
  output.putStr (Repl.unlines answer.printed)
  if let some report := answer.report then
    writeReport report
  converse input output repl

def start (invocation : Invocation) : IO UInt32 := do
  match invocation.origin with
  | .text source => finish (runSource ampleFuel invocation.dump source)
  | .file path =>
    try
      let source ← IO.FS.readFile path
      finish (runSource ampleFuel invocation.dump source)
    catch error =>
      IO.eprintln s!"Failed to read {path}: {error}"
      return 1
  | .dialogue => converse (← IO.getStdin) (← IO.getStdout) {}

end ByNeed.CommandLine

def main (arguments : List String) : IO UInt32 := do
  match ByNeed.CommandLine.Invocation.parse? arguments {} with
  | some invocation => ByNeed.CommandLine.start invocation
  | none =>
    IO.eprintln "usage: [PATH | --eval SOURCE] [--dump-ast]"
    return 2
