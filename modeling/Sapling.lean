import Sapling.Check
import Sapling.Cli
import Sapling.Config
import Sapling.Config.Load
import Sapling.Config.Reading
import Sapling.Diagnostic
import Sapling.Eval
import Sapling.Eval.Machine
import Sapling.Execute
import Sapling.Expr
import Sapling.Expr.Walk
import Sapling.Files
import Sapling.Host
import Sapling.Layout
import Sapling.Limits
import Sapling.Main
import Sapling.Moment
import Sapling.Number.Decimal
import Sapling.Number.Magnitude
import Sapling.Number.Spelling
import Sapling.Reading
import Sapling.Repl.Input
import Sapling.Repl.Loop
import Sapling.Repl.Session
import Sapling.Run
import Sapling.Task
import Sapling.Text.Json
import Sapling.Text.Printable
import Sapling.Text.Quoted
import Sapling.Text.Utf8
import Sapling.Trace.Event
import Sapling.Trace.Summary
import Sapling.Value
import Sapling.Yaml.Cursor
import Sapling.Yaml.Error
import Sapling.Yaml.Event
import Sapling.Yaml.Input
import Sapling.Yaml.Node
import Sapling.Yaml.Scalar
import Sapling.Yaml.Token
import Sapling.Yaml.Token.Comment
import Sapling.Yaml.Token.Property
import Sapling.Yaml.Token.Scalar
import Sapling.Yaml.Token.Scan
import Sapling.Yaml.Token.State
import Sapling.Yaml.Written
import Sapling.Proofs.DepthLimit
import Sapling.Proofs.Closures
import Sapling.Proofs.Provenance
import Sapling.Proofs.Termination
import Sapling.Proofs.Coverage
import Sapling.Proofs.WellFormed
import Sapling.Proofs.StaleReads
import Sapling.Proofs.Placement
import Sapling.Proofs.StaticScope
import Sapling.Proofs.Simulation
import Sapling.Proofs.Unread
import Sapling.Proofs.Identities
import Sapling.Proofs.Splitting
import Sapling.Proofs.Issued
import Sapling.Proofs.Transparency
import Sapling.Proofs.Semantics
import Sapling.Proofs.Words
import Sapling.Proofs.TraceGrammar
import Sapling.Proofs.Accounts
import Sapling.Proofs.DocumentGrammar
import Sapling.Proofs.Rounding
import Sapling.Proofs.Shortest
import Sapling.Proofs.NumberText
import Sapling.Proofs.DocumentNodes
import Sapling.Proofs.Tokens
import Sapling.Proofs.Unambiguous
import Sapling.Proofs.Decoded
import Sapling.Proofs.Blame
import Sapling.Proofs.Unreadable
import Sapling.Proofs.Agreement
import Sapling.Proofs.Utf8
import Sapling.Proofs.Bindings
import Sapling.Proofs.Writes
import Sapling.Proofs.EditedBodies
import Sapling.Proofs.Sessions
import Sapling.Proofs.WholeNumbers
import Sapling.Proofs.JsonText
import Sapling.Proofs.Calls
import Sapling.Proofs.DocumentSize
import Sapling.Proofs.Gathering
import Sapling.Proofs.TraceLines
import Sapling.Proofs.Summaries
import Sapling.Proofs.JoinedTraces
import Sapling.Proofs.Complaints
import Sapling.Proofs.FlowInputs
import Sapling.Proofs.InvisibleReads
import Sapling.Proofs.Indentation
import Sapling.Proofs.Arity
import Sapling.Proofs.NameMaps
import Sapling.Proofs.Handles
import Sapling.Proofs.NearestDoubles
import Sapling.Proofs.NumberJson
import Sapling.Proofs.Walks
import Sapling.Proofs.CollectedNames
import Sapling.Proofs.ConfigSearch
import Sapling.Proofs.DepthInForce
