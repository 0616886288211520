import Munch.Automaton
import Munch.CharRange
import Munch.Error
import Munch.Event
import Munch.Fault
import Munch.Hook
import Munch.Ident
import Munch.Json.Feed
import Munch.Json.Format
import Munch.Json.Instances
import Munch.Json.Lexer
import Munch.Json.Token
import Munch.Json.Value
import Munch.Logged
import Munch.Match
import Munch.Matcher
import Munch.Outcome
import Munch.Position
import Munch.RejectRule
import Munch.Scan.Forward
import Munch.Scan.History
import Munch.Search
import Munch.Session
import Munch.Source.Basic
import Munch.Source.Labelled
import Munch.Source.Text
import Munch.Span
import Munch.Strategy
import Munch.Table.Automaton
import Munch.Table.Basic
import Munch.Table.Builder
import Munch.Table.Dot
import Munch.Table.Json
import Munch.Table.Validate
import Munch.Text.Escape
import Munch.Text.Printable
import Munch.Text.Width
import Munch.TokenStream
import Munch.Proofs.Source.Cursor
import Munch.Proofs.Logged
import Munch.Proofs.Scan.Forward
import Munch.Proofs.Scan.History
import Munch.Proofs.Scan.Resolution
import Munch.Proofs.Table.Closed
import Munch.Proofs.Stream.Step
import Munch.Proofs.Stream.Safety
import Munch.Proofs.Stream.Selection
import Munch.Proofs.Stream.Tiling
import Munch.Proofs.Table.Normal
import Munch.Proofs.Stream.Ending
import Munch.Proofs.Scan.Priority
import Munch.Proofs.Json.Formats
import Munch.Proofs.Table.RoundTrip
import Munch.Proofs.Table.Assembly
import Munch.Proofs.Stream.Reposition
import Munch.Proofs.Stream.HookLog
import Munch.Proofs.Stream.Suffix
import Munch.Proofs.Table.Lookup
import Munch.Proofs.Table.Diagnosis
import Munch.Proofs.Scan.Commitment
import Munch.Proofs.Stream.Exhaustion
import Munch.Proofs.Scan.Lookahead
import Munch.Proofs.Stream.Detour
import Munch.Proofs.Source.Lines
import Munch.Proofs.Source.Inside
import Munch.Proofs.Source.Reading
import Munch.Proofs.Table.Names
import Munch.Proofs.Stream.Located
import Munch.Proofs.Text.Quoted
import Munch.Proofs.Table.Graph
