import ByNeed.Decimal.Format
import ByNeed.Decimal.Reading
import ByNeed.Decimal.Shortest
import ByNeed.Eval.Context
import ByNeed.Eval.Expr
import ByNeed.Eval.Statement
import ByNeed.Eval.Task
import ByNeed.Grammar.Error
import ByNeed.Grammar.Expr
import ByNeed.Grammar.Parser
import ByNeed.Grammar.Precedence
import ByNeed.Grammar.Statement
import ByNeed.Heap.Basic
import ByNeed.Heap.Force
import ByNeed.Heap.Same
import ByNeed.Heap.Script
import ByNeed.Heap.Text
import ByNeed.Main
import ByNeed.Program.Basic
import ByNeed.Program.Same
import ByNeed.Program.Text
import ByNeed.Proofs.Fuel
import ByNeed.Proofs.Grammar.Binding
import ByNeed.Proofs.Grammar.Blocks
import ByNeed.Proofs.Grammar.Boundaries
import ByNeed.Proofs.Grammar.Expression
import ByNeed.Proofs.Grammar.ExpressionSoundness
import ByNeed.Proofs.Grammar.Illegal
import ByNeed.Proofs.Grammar.Layers
import ByNeed.Proofs.Grammar.Leads
import ByNeed.Proofs.Grammar.Numbers
import ByNeed.Proofs.Grammar.Places
import ByNeed.Proofs.Grammar.Prefix
import ByNeed.Proofs.Grammar.PrefixBlocks
import ByNeed.Proofs.Grammar.PrefixCases
import ByNeed.Proofs.Grammar.PrefixExpression
import ByNeed.Proofs.Grammar.PrefixStatement
import ByNeed.Proofs.Grammar.Reading
import ByNeed.Proofs.Grammar.Statement
import ByNeed.Proofs.Grammar.StatementSoundness
import ByNeed.Proofs.Heap.Complete
import ByNeed.Proofs.Heap.Conformity
import ByNeed.Proofs.Heap.Deep
import ByNeed.Proofs.Heap.Display
import ByNeed.Proofs.Heap.Equality
import ByNeed.Proofs.Heap.Equivalence
import ByNeed.Proofs.Heap.Explore
import ByNeed.Proofs.Heap.Fulfil
import ByNeed.Proofs.Heap.Invariant
import ByNeed.Proofs.Heap.Known
import ByNeed.Proofs.Heap.Lockstep
import ByNeed.Proofs.Heap.Loop
import ByNeed.Proofs.Heap.Memo
import ByNeed.Proofs.Heap.Operator
import ByNeed.Proofs.Heap.Pairing
import ByNeed.Proofs.Heap.Pairwise
import ByNeed.Proofs.Heap.Promise
import ByNeed.Proofs.Heap.Proper
import ByNeed.Proofs.Heap.Reach
import ByNeed.Proofs.Heap.Recall
import ByNeed.Proofs.Heap.Recursion
import ByNeed.Proofs.Heap.Render
import ByNeed.Proofs.Heap.Script
import ByNeed.Proofs.Heap.ShortCircuit
import ByNeed.Proofs.Heap.Task
import ByNeed.Proofs.Heap.Turn
import ByNeed.Proofs.Rendering.Expression
import ByNeed.Proofs.Rendering.Layout
import ByNeed.Proofs.Rendering.Literal
import ByNeed.Proofs.Rendering.Plain
import ByNeed.Proofs.Rendering.Scan
import ByNeed.Proofs.Rendering.Statement
import ByNeed.Proofs.Session.Dialogue
import ByNeed.Proofs.Session.Entries
import ByNeed.Proofs.Session.Frame
import ByNeed.Proofs.Session.History
import ByNeed.Proofs.Session.Labels
import ByNeed.Proofs.Session.Records
import ByNeed.Proofs.Session.Safety
import ByNeed.Proofs.Session.Shifts
import ByNeed.Proofs.Session.Shown
import ByNeed.Proofs.Strict.Equivalence
import ByNeed.Proofs.Strict.Evaluator
import ByNeed.Proofs.Strict.Output
import ByNeed.Proofs.Strict.Refinement
import ByNeed.Proofs.Strict.Simulation
import ByNeed.Proofs.Strict.Tree
import ByNeed.Proofs.Token.Lines
import ByNeed.Proofs.Token.Spacing
import ByNeed.Proofs.Token.Spelling
import ByNeed.Proofs.Token.Tiling
import ByNeed.Proofs.Value.Integer
import ByNeed.Proofs.Value.Number
import ByNeed.Session.CommandLine
import ByNeed.Session.Execution
import ByNeed.Session.Repl
import ByNeed.Session.Report
import ByNeed.Text.Visible
import ByNeed.Token.Basic
import ByNeed.Token.Keyword
import ByNeed.Token.Lexer
import ByNeed.Value.Basic
import ByNeed.Value.Fault
import ByNeed.Value.Operator
