import ParseOutcome.Cursor
import ParseOutcome.Grammar.Evaluation
import ParseOutcome.Grammar.Step
import ParseOutcome.Grammar.Value
import ParseOutcome.Misuse
import ParseOutcome.Observation.Basic
import ParseOutcome.Observation.Expectation
import ParseOutcome.Observation.Furthest
import ParseOutcome.Observation.Severity
import ParseOutcome.Outcome.Basic
import ParseOutcome.Outcome.Continuation
import ParseOutcome.Outcome.Repetition
import ParseOutcome.Outcome.Report
import ParseOutcome.Session.Command
import ParseOutcome.Session.Execution
import ParseOutcome.Source.Basic
import ParseOutcome.Source.Context
import ParseOutcome.Source.Location
import ParseOutcome.Symbol
import ParseOutcome.Text.Blank
import ParseOutcome.Text.Utf8
import ParseOutcome.Proofs.Sample
import ParseOutcome.Proofs.Parser.Basic
import ParseOutcome.Proofs.Parser.Forward
import ParseOutcome.Proofs.Parser.LastStep
import ParseOutcome.Proofs.Chain.Basic
import ParseOutcome.Proofs.Chain.Success
import ParseOutcome.Proofs.Chain.Choice
import ParseOutcome.Proofs.Furthest.Attempts
import ParseOutcome.Proofs.Furthest.Stages
import ParseOutcome.Proofs.History.Basic
import ParseOutcome.Proofs.History.Soundness
import ParseOutcome.Proofs.Lines.Basic
import ParseOutcome.Proofs.Lines.Location
import ParseOutcome.Proofs.Lines.Rendering
import ParseOutcome.Proofs.Lines.Rows
import ParseOutcome.Proofs.Observation.Sameness
import ParseOutcome.Proofs.Outcome.Locality
import ParseOutcome.Proofs.Outcome.Sameness
import ParseOutcome.Proofs.Outcome.Window
import ParseOutcome.Proofs.Lines.Mark
import ParseOutcome.Proofs.Words.Basic
import ParseOutcome.Proofs.Words.Place
import ParseOutcome.Proofs.Words.Location
import ParseOutcome.Proofs.Words.Rows
import ParseOutcome.Proofs.Words.Safety
import ParseOutcome.Proofs.Cursor.Advance
import ParseOutcome.Proofs.Observation.Mentions
import ParseOutcome.Proofs.Cursor.Walk
import ParseOutcome.Proofs.Repetition.Basic
import ParseOutcome.Proofs.Repetition.Bound
import ParseOutcome.Proofs.Repetition.Guarded
import ParseOutcome.Proofs.Grammar.Simulation
import ParseOutcome.Proofs.Grammar.Depth
import ParseOutcome.Proofs.Grammar.Parsers
import ParseOutcome.Proofs.Session.Record
import ParseOutcome.Proofs.Session.Soundness
import ParseOutcome.Proofs.Lines.Increment
import ParseOutcome.Proofs.Observation.Revisions
import ParseOutcome.Proofs.Outcome.Changes
import ParseOutcome.Proofs.Lines.Order
import ParseOutcome.Proofs.Symbol.Concatenation
import ParseOutcome.Proofs.Symbol.ReadBack
import ParseOutcome.Proofs.Observation.LongForm
