import MonkeyLang.Command.Basic
import MonkeyLang.Command.Execute
import MonkeyLang.Eval.Basic
import MonkeyLang.Eval.Builtin
import MonkeyLang.Eval.Expression
import MonkeyLang.Eval.Operator
import MonkeyLang.Json
import MonkeyLang.Main
import MonkeyLang.Parse.Cursor
import MonkeyLang.Parse.Expression
import MonkeyLang.Program.Basic
import MonkeyLang.Program.Json
import MonkeyLang.Program.Literal
import MonkeyLang.Program.Text
import MonkeyLang.Repl
import MonkeyLang.Session
import MonkeyLang.Store.Basic
import MonkeyLang.Text.Basic
import MonkeyLang.Text.CharSet
import MonkeyLang.Text.Cluster.Basic
import MonkeyLang.Text.Cluster.Class
import MonkeyLang.Text.Line
import MonkeyLang.Text.Quoted
import MonkeyLang.Token.Basic
import MonkeyLang.Token.Scan
import MonkeyLang.Token.Stream
import MonkeyLang.Value.Basic
import MonkeyLang.Value.Equality
import MonkeyLang.Value.Error
import MonkeyLang.Value.Outline
import MonkeyLang.Value.Type
import MonkeyLang.Proofs.Parse.Clean
import MonkeyLang.Proofs.Parse.Rules
import MonkeyLang.Proofs.Parse.Grammar
import MonkeyLang.Proofs.Parse.Operations
import MonkeyLang.Proofs.Parse.Sound
import MonkeyLang.Proofs.Parse.Complete
import MonkeyLang.Proofs.Parse.Acceptance
import MonkeyLang.Proofs.Parse.Recipe
import MonkeyLang.Proofs.Parse.Discipline
import MonkeyLang.Proofs.Token.Word
import MonkeyLang.Proofs.Program.Plain
import MonkeyLang.Proofs.Program.Words
import MonkeyLang.Proofs.Program.RoundTrip
import MonkeyLang.Proofs.Token.Spelling
import MonkeyLang.Proofs.Text.Bytes
import MonkeyLang.Proofs.Token.Partition
import MonkeyLang.Proofs.Store.WellFormed
import MonkeyLang.Proofs.Eval.Invariant
import MonkeyLang.Proofs.Store.Reachable
import MonkeyLang.Proofs.Value.Comparison
import MonkeyLang.Proofs.Value.Bisimulation
import MonkeyLang.Proofs.Eval.Frames
import MonkeyLang.Proofs.Store.Cells
import MonkeyLang.Proofs.Store.Twin
import MonkeyLang.Proofs.Eval.Noninterference
import MonkeyLang.Proofs.Eval.Depth
import MonkeyLang.Proofs.Parse.Lookahead
import MonkeyLang.Proofs.Parse.Nesting
import MonkeyLang.Proofs.Parse.Joined
import MonkeyLang.Proofs.Session.Steps
import MonkeyLang.Proofs.Program.Data
import MonkeyLang.Proofs.Value.Data
import MonkeyLang.Proofs.Session.Printed
import MonkeyLang.Proofs.Store.Contents
import MonkeyLang.Proofs.Session.Reached
import MonkeyLang.Proofs.Eval.Growth
import MonkeyLang.Proofs.Eval.Simulation
import MonkeyLang.Proofs.Eval.Unread
import MonkeyLang.Proofs.Parse.Recovery
import MonkeyLang.Proofs.Json.Text
import MonkeyLang.Proofs.Program.Json
import MonkeyLang.Proofs.Store.Scopes
import MonkeyLang.Proofs.Session.Sound
import MonkeyLang.Proofs.Session.Output
import MonkeyLang.Proofs.Repl.Inert
import MonkeyLang.Proofs.Value.Layout
import MonkeyLang.Proofs.Eval.Halting
import MonkeyLang.Proofs.Value.Rendering
import MonkeyLang.Proofs.Session.Signals
import MonkeyLang.Proofs.Program.Precedence
import MonkeyLang.Proofs.Parse.Blame
import MonkeyLang.Proofs.Parse.Unbounded
import MonkeyLang.Proofs.Parse.Termination
import MonkeyLang.Proofs.Eval.HashLiteral
import MonkeyLang.Proofs.Eval.Arithmetic
import MonkeyLang.Proofs.Store.History
import MonkeyLang.Proofs.Token.Stream
import MonkeyLang.Proofs.Eval.ArrayFunctions
import MonkeyLang.Proofs.Program.Leaves
import MonkeyLang.Proofs.Parse.Origins
import MonkeyLang.Proofs.Parse.Relocation
import MonkeyLang.Proofs.Parse.Spacing
import MonkeyLang.Proofs.Eval.StringKeys
import MonkeyLang.Proofs.Token.Separation
import MonkeyLang.Proofs.Parse.Numeral
import MonkeyLang.Proofs.Parse.Lapses
