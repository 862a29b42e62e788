import Runbook.Binary64.Basic
import Runbook.Binary64.Round
import Runbook.Bus
import Runbook.Calendar
import Runbook.Catalog
import Runbook.Clock
import Runbook.Condition
import Runbook.Context
import Runbook.Decimal.Layout
import Runbook.Decimal.Literal
import Runbook.Decimal.Shortest
import Runbook.Definition
import Runbook.Files.Path
import Runbook.Files.Tree
import Runbook.Json.Message
import Runbook.Json.Printer
import Runbook.Json.Reader
import Runbook.Log
import Runbook.Output
import Runbook.Path
import Runbook.Placeholder
import Runbook.Plan
import Runbook.Power
import Runbook.Registry
import Runbook.Report
import Runbook.Resource
import Runbook.Run.Event
import Runbook.Run.Log
import Runbook.Run.Result
import Runbook.Run.Step
import Runbook.Run.Workflow
import Runbook.Schema.Check
import Runbook.Schema.Document
import Runbook.Schema.Pattern
import Runbook.Schema.Problem
import Runbook.Seed
import Runbook.Settings.EnvFile
import Runbook.Settings.Load
import Runbook.Source
import Runbook.Stack
import Runbook.Table
import Runbook.Text.Blank
import Runbook.Text.Case
import Runbook.Text.Cased
import Runbook.Text.DecimalDigit
import Runbook.Text.Digits
import Runbook.Text.Newline
import Runbook.Text.Printable
import Runbook.Text.Quoted
import Runbook.Text.Ranges
import Runbook.Text.Split
import Runbook.Text.Utf8
import Runbook.Tool
import Runbook.Value.Basic
import Runbook.Value.Coercion
import Runbook.Value.Depth
import Runbook.Value.Display
import Runbook.Value.Fault
import Runbook.Yaml.Block
import Runbook.Yaml.Bytes
import Runbook.Yaml.Cursor
import Runbook.Yaml.Meaning
import Runbook.Yaml.Node
import Runbook.Yaml.Number
import Runbook.Yaml.Pen
import Runbook.Yaml.Plain
import Runbook.Yaml.Quoted
import Runbook.Yaml.Style
import Runbook.Yaml.Tag
import Runbook.Yaml.Token
import Runbook.Yaml.Token.Stream
import Runbook.Yaml.Writer
import Runbook.Proofs.Run.Course
import Runbook.Proofs.Run.Replay
import Runbook.Proofs.Run.Tally
import Runbook.Proofs.Run.Lifecycle
import Runbook.Proofs.Run.Ledger
import Runbook.Proofs.Run.Upshot
import Runbook.Proofs.Run.Transparency
import Runbook.Proofs.Bus
import Runbook.Proofs.Run.Independence
import Runbook.Proofs.Run.Policy
import Runbook.Proofs.Binary64
import Runbook.Proofs.Json.Value
import Runbook.Proofs.Fault
import Runbook.Proofs.Value.Part
import Runbook.Proofs.Json.Reader
import Runbook.Proofs.Run.Fault
import Runbook.Proofs.Files
import Runbook.Proofs.Registry
import Runbook.Proofs.Yaml.Cursor
import Runbook.Proofs.Yaml.Plain
import Runbook.Proofs.Digits
import Runbook.Proofs.Yaml.Quoted
import Runbook.Proofs.Yaml.Pen
import Runbook.Proofs.Yaml.Quotes
import Runbook.Proofs.Yaml.Scalar
import Runbook.Proofs.Yaml.Scan
import Runbook.Proofs.Yaml.Block
import Runbook.Proofs.Decimal.Nearest
import Runbook.Proofs.Decimal.Shortest
import Runbook.Proofs.Yaml.Number
import Runbook.Proofs.Decimal.Text
import Runbook.Proofs.Yaml.Written
import Runbook.Proofs.Value.Plain
import Runbook.Proofs.Yaml.Node
import Runbook.Proofs.Yaml.Legal
import Runbook.Proofs.Yaml.Meaning
import Runbook.Proofs.Schema.Document
import Runbook.Proofs.Schema.Acceptance
import Runbook.Proofs.Schema.Arrangement
import Runbook.Proofs.Yaml.Legible
import Runbook.Proofs.Saving
import Runbook.Proofs.Run.Execution
import Runbook.Proofs.Run.Cancellation
import Runbook.Proofs.Binary64.Place
import Runbook.Proofs.Condition.Text
import Runbook.Proofs.Condition.Laws
import Runbook.Proofs.Decimal.Plain
import Runbook.Proofs.Decimal.Integer
import Runbook.Proofs.Condition.Number
import Runbook.Proofs.Condition.Canonical
import Runbook.Proofs.Placeholder
import Runbook.Proofs.Substitution
import Runbook.Proofs.Condition.Agreement
import Runbook.Proofs.Path
import Runbook.Proofs.Run.Mapping
import Runbook.Proofs.Run.Assignment
import Runbook.Proofs.Decimal.Faithful
import Runbook.Proofs.Json.Scalar
import Runbook.Proofs.Json.RoundTrip
import Runbook.Proofs.Value.Writable
import Runbook.Proofs.Run.Defaults
import Runbook.Proofs.Plan
import Runbook.Proofs.Run.Seeding
import Runbook.Proofs.Yields
import Runbook.Proofs.Yaml.Rejection
import Runbook.Proofs.Yaml.Fault
import Runbook.Proofs.Yaml.Escape
import Runbook.Proofs.Json.Nesting
import Runbook.Proofs.Source
import Runbook.Proofs.Schema.Location
import Runbook.Proofs.Schema.Pointer
import Runbook.Proofs.Files.Growth
import Runbook.Proofs.Saving.Name
import Runbook.Proofs.Registry.Lookup
import Runbook.Proofs.Saving.Effect
import Runbook.Proofs.Settings
import Runbook.Proofs.Bus.Audience
import Runbook.Proofs.Bus.Script
import Runbook.Proofs.Bus.Termination
import Runbook.Proofs.Resource
import Runbook.Proofs.Binary64.Nearest
import Runbook.Proofs.Decimal.Literal
import Runbook.Proofs.Calendar
import Runbook.Proofs.Clock
import Runbook.Proofs.Report
