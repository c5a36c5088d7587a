import Stagecraft.Audit
import Stagecraft.Audit.Sheet
import Stagecraft.Buffer
import Stagecraft.Buffer.Marks
import Stagecraft.Command
import Stagecraft.Command.Help
import Stagecraft.Command.Line
import Stagecraft.Csv
import Stagecraft.Decimal.Dyadic
import Stagecraft.Decimal.Notation
import Stagecraft.Decimal.Shortest
import Stagecraft.Depth
import Stagecraft.Directive.Basic
import Stagecraft.Directive.Beat
import Stagecraft.Directive.Entrance
import Stagecraft.Directive.Movement
import Stagecraft.Directive.Prop
import Stagecraft.Directive.Speech
import Stagecraft.Directive.Table
import Stagecraft.Disk
import Stagecraft.Edit.Entrance
import Stagecraft.Edit.Import
import Stagecraft.Edit.Prune
import Stagecraft.Edit.Source
import Stagecraft.Edit.Speech
import Stagecraft.Edit.Work
import Stagecraft.Entries
import Stagecraft.Fault
import Stagecraft.Fix.Basic
import Stagecraft.Fix.Column
import Stagecraft.Fix.Quote
import Stagecraft.Json
import Stagecraft.Json.Merge
import Stagecraft.Json.Reader
import Stagecraft.Limit
import Stagecraft.Literal.Lexer
import Stagecraft.Literal.Numeral
import Stagecraft.Literal.Reader
import Stagecraft.Literal.Token
import Stagecraft.Main
import Stagecraft.Moment
import Stagecraft.Path
import Stagecraft.Plan
import Stagecraft.Proofs.Audit.Findings
import Stagecraft.Proofs.Audit.Lookup
import Stagecraft.Proofs.Audit.RoundTrip
import Stagecraft.Proofs.Audit.Through
import Stagecraft.Proofs.Buffer.Splice
import Stagecraft.Proofs.Buffer.Tracking
import Stagecraft.Proofs.Directive.Refusals
import Stagecraft.Proofs.Disk
import Stagecraft.Proofs.Edit.Additions
import Stagecraft.Proofs.Edit.Apart
import Stagecraft.Proofs.Edit.Balance
import Stagecraft.Proofs.Edit.Chains
import Stagecraft.Proofs.Edit.Clusters
import Stagecraft.Proofs.Edit.Embedding
import Stagecraft.Proofs.Edit.EntranceLines
import Stagecraft.Proofs.Edit.EntranceTokens
import Stagecraft.Proofs.Edit.Files
import Stagecraft.Proofs.Edit.FirstEntrance
import Stagecraft.Proofs.Edit.FixedRecords
import Stagecraft.Proofs.Edit.GroupedRecords
import Stagecraft.Proofs.Edit.Hosting
import Stagecraft.Proofs.Edit.IdleSteps
import Stagecraft.Proofs.Edit.Idling
import Stagecraft.Proofs.Edit.ImportEnds
import Stagecraft.Proofs.Edit.ImportOnce
import Stagecraft.Proofs.Edit.ImportPlaces
import Stagecraft.Proofs.Edit.Imported
import Stagecraft.Proofs.Edit.Imports
import Stagecraft.Proofs.Edit.Inset
import Stagecraft.Proofs.Edit.InsideSteps
import Stagecraft.Proofs.Edit.Locality
import Stagecraft.Proofs.Edit.MaximalRuns
import Stagecraft.Proofs.Edit.Merging
import Stagecraft.Proofs.Edit.OnceSpoken
import Stagecraft.Proofs.Edit.Paragraphs
import Stagecraft.Proofs.Edit.Passes
import Stagecraft.Proofs.Edit.Patch
import Stagecraft.Proofs.Edit.Picks
import Stagecraft.Proofs.Edit.Removal
import Stagecraft.Proofs.Edit.Rest
import Stagecraft.Proofs.Edit.RowLocality
import Stagecraft.Proofs.Edit.RowRun
import Stagecraft.Proofs.Edit.Rows
import Stagecraft.Proofs.Edit.Runs
import Stagecraft.Proofs.Edit.Settling
import Stagecraft.Proofs.Edit.SpeakLine
import Stagecraft.Proofs.Edit.SpeechReading
import Stagecraft.Proofs.Edit.SpeechTokens
import Stagecraft.Proofs.Edit.Spoken
import Stagecraft.Proofs.Edit.Staging
import Stagecraft.Proofs.Edit.Stale
import Stagecraft.Proofs.Edit.Steps
import Stagecraft.Proofs.Edit.Troupe
import Stagecraft.Proofs.Edit.Turns
import Stagecraft.Proofs.Edit.Twice
import Stagecraft.Proofs.Edit.Verbatim
import Stagecraft.Proofs.Edit.Voice
import Stagecraft.Proofs.Edit.Voicing
import Stagecraft.Proofs.Edit.Welcome
import Stagecraft.Proofs.Edit.WholeSteps
import Stagecraft.Proofs.Edit.Woven
import Stagecraft.Proofs.Literal.Document
import Stagecraft.Proofs.Literal.Grammar
import Stagecraft.Proofs.Literal.Items
import Stagecraft.Proofs.Literal.Lines
import Stagecraft.Proofs.Literal.Mentioned
import Stagecraft.Proofs.Literal.Numeral
import Stagecraft.Proofs.Literal.Quoted
import Stagecraft.Proofs.Literal.Segments
import Stagecraft.Proofs.Literal.Spacing
import Stagecraft.Proofs.Literal.Unplaced
import Stagecraft.Proofs.Quality.Company
import Stagecraft.Proofs.Quality.Duplicates
import Stagecraft.Proofs.Quality.Fading
import Stagecraft.Proofs.Quality.Gathering
import Stagecraft.Proofs.Quality.Joining
import Stagecraft.Proofs.Quality.Journeys
import Stagecraft.Proofs.Quality.Repeats
import Stagecraft.Proofs.Quality.Sides
import Stagecraft.Proofs.Quality.Standing
import Stagecraft.Proofs.Quality.Walkers
import Stagecraft.Proofs.Quality.Wording
import Stagecraft.Proofs.Record.Characters
import Stagecraft.Proofs.Record.Depth
import Stagecraft.Proofs.Record.Extent
import Stagecraft.Proofs.Record.Growth
import Stagecraft.Proofs.Record.Layout
import Stagecraft.Proofs.Record.Level
import Stagecraft.Proofs.Record.Room
import Stagecraft.Proofs.Record.Scan
import Stagecraft.Proofs.Record.Seams
import Stagecraft.Proofs.Record.Survey
import Stagecraft.Proofs.Text.Mentions
import Stagecraft.Proofs.Text.Ruling
import Stagecraft.Proofs.Text.Search
import Stagecraft.Proofs.Text.Signs
import Stagecraft.Proofs.Vignette.Elements
import Stagecraft.Proofs.Vignette.Playable
import Stagecraft.Proofs.Woven
import Stagecraft.Quality.Persona
import Stagecraft.Quality.Report
import Stagecraft.Quality.Rule
import Stagecraft.Quality.Scene
import Stagecraft.Record.Around
import Stagecraft.Record.Location
import Stagecraft.Record.StepLevel
import Stagecraft.RunLog
import Stagecraft.Service
import Stagecraft.Settings
import Stagecraft.Sheet
import Stagecraft.Step
import Stagecraft.Tally
import Stagecraft.Text.Blank
import Stagecraft.Text.Code
import Stagecraft.Text.Digit
import Stagecraft.Text.Printable
import Stagecraft.Text.Quoted
import Stagecraft.Text.Scan
import Stagecraft.Text.Word
import Stagecraft.Value
import Stagecraft.Value.Text
import Stagecraft.Vignette
import Stagecraft.Vignette.Summary
import Stagecraft.Vignette.Tokens
