import Interaction.Automaton.Basic
import Interaction.Automaton.Compile
import Interaction.Catalog.Basic
import Interaction.Catalog.Builtin
import Interaction.CommandLine.Arguments
import Interaction.CommandLine.Basic
import Interaction.CommandLine.Console
import Interaction.Definition.Basic
import Interaction.Definition.Check
import Interaction.Definition.Load
import Interaction.Definition.Parser
import Interaction.Event
import Interaction.Fault
import Interaction.Json.Basic
import Interaction.Json.Error
import Interaction.Json.Reader
import Interaction.Json.Record
import Interaction.Language.Basic
import Interaction.Language.Parser
import Interaction.Language.Printer
import Interaction.Main
import Interaction.Message.Basic
import Interaction.Message.Incoming
import Interaction.Message.Lines
import Interaction.Message.Reader
import Interaction.Node.Basic
import Interaction.Node.ImageFilter
import Interaction.Node.ImageSource
import Interaction.Node.RandomAgent
import Interaction.Node.Reference
import Interaction.Number.Binary64
import Interaction.Number.Shortest
import Interaction.Parsing.Basic
import Interaction.Parsing.Expectation
import Interaction.Parsing.SyntaxError
import Interaction.Proofs.Automaton.Begun
import Interaction.Proofs.Automaton.Closure
import Interaction.Proofs.Automaton.Flow
import Interaction.Proofs.Automaton.Fragment
import Interaction.Proofs.Automaton.Path
import Interaction.Proofs.Automaton.Trim
import Interaction.Proofs.Automaton.Walk
import Interaction.Proofs.Catalog.Builtin
import Interaction.Proofs.Catalog.History
import Interaction.Proofs.Catalog.Load
import Interaction.Proofs.Channels
import Interaction.Proofs.Definition.Check
import Interaction.Proofs.Definition.Count
import Interaction.Proofs.Definition.Grammar
import Interaction.Proofs.Definition.Load
import Interaction.Proofs.Definition.Located
import Interaction.Proofs.Definition.Printer
import Interaction.Proofs.Definition.Reading
import Interaction.Proofs.Definition.References
import Interaction.Proofs.Event
import Interaction.Proofs.Json.Exact
import Interaction.Proofs.Json.Finding
import Interaction.Proofs.Json.Ignored
import Interaction.Proofs.Json.Record
import Interaction.Proofs.Json.RoundTrip
import Interaction.Proofs.Json.Scalar
import Interaction.Proofs.Json.Scalars
import Interaction.Proofs.Json.Slots
import Interaction.Proofs.Json.Text
import Interaction.Proofs.Language.Accepted
import Interaction.Proofs.Language.Begun
import Interaction.Proofs.Language.Furthest
import Interaction.Proofs.Language.Grammar
import Interaction.Proofs.Language.Located
import Interaction.Proofs.Language.Normal
import Interaction.Proofs.Language.Parentheses
import Interaction.Proofs.Language.Reading
import Interaction.Proofs.Language.Regrouping
import Interaction.Proofs.Language.RoundTrip
import Interaction.Proofs.Language.Series
import Interaction.Proofs.Language.Shape
import Interaction.Proofs.Language.Tight
import Interaction.Proofs.Language.Unambiguous
import Interaction.Proofs.Message.Exact
import Interaction.Proofs.Message.Lines
import Interaction.Proofs.Message.RoundTrip
import Interaction.Proofs.Message.Stream
import Interaction.Proofs.Node.Configuration
import Interaction.Proofs.Node.ImageSource
import Interaction.Proofs.Node.Orderly
import Interaction.Proofs.Node.Reference
import Interaction.Proofs.Parsing.Advance
import Interaction.Proofs.Parsing.Layout
import Interaction.Proofs.Parsing.Relation
import Interaction.Proofs.Parsing.Repetition
import Interaction.Proofs.Parsing.Result
import Interaction.Proofs.Protocol
import Interaction.Proofs.Renaming.Exact
import Interaction.Proofs.Renaming.Grammar
import Interaction.Proofs.Report
import Interaction.Proofs.Report.Silenced
import Interaction.Proofs.Session.Active
import Interaction.Proofs.Session.Completeness
import Interaction.Proofs.Session.Exactness
import Interaction.Proofs.Session.Expected
import Interaction.Proofs.Session.Interchange
import Interaction.Proofs.Session.Settling
import Interaction.Proofs.Session.Subset
import Interaction.Proofs.Session.Verdict
import Interaction.Proofs.Supervisor.Idle
import Interaction.Proofs.Supervisor.Lawful
import Interaction.Proofs.Supervisor.Likeness
import Interaction.Proofs.Supervisor.Observation
import Interaction.Proofs.Supervisor.Readdressed
import Interaction.Proofs.Supervisor.Reading
import Interaction.Proofs.Supervisor.Refusal
import Interaction.Proofs.Supervisor.Responsive
import Interaction.Proofs.Supervisor.Safety
import Interaction.Proofs.Supervisor.Steps
import Interaction.Proofs.Supervisor.Triple
import Interaction.Proofs.Table
import Interaction.Proofs.Text.Encoding
import Interaction.Proofs.Text.Pieces
import Interaction.Protocol
import Interaction.Renaming
import Interaction.Report.Basic
import Interaction.Report.Excerpt
import Interaction.Report.Ink
import Interaction.Session
import Interaction.Supervisor.Basic
import Interaction.Supervisor.Context
import Interaction.Supervisor.Transcript
import Interaction.Table
import Interaction.Text.Blank
import Interaction.Text.Encoding
import Interaction.Text.Position
import Interaction.Text.Quoted
import Interaction.Text.Range
import Interaction.Text.Terminal
import Interaction.Text.Width
