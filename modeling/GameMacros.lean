import GameMacros.CommandLine.Arguments
import GameMacros.CommandLine.Lint
import GameMacros.CommandLine.Outcome
import GameMacros.CommandLine.Rehearsal
import GameMacros.CommandLine.Tool
import GameMacros.Console.Style
import GameMacros.Engine.Activation
import GameMacros.Engine.Basic
import GameMacros.Engine.Effect
import GameMacros.Engine.Execution
import GameMacros.Engine.Failure
import GameMacros.Engine.Host
import GameMacros.Engine.Machine
import GameMacros.Engine.Poll
import GameMacros.Engine.Schedule
import GameMacros.Engine.Sleep
import GameMacros.Engine.StopSignal
import GameMacros.Engine.Timer
import GameMacros.Files.Content
import GameMacros.Files.DataFolder
import GameMacros.Files.Tree
import GameMacros.Host.DryRun
import GameMacros.Host.Scripted
import GameMacros.Library.Loading
import GameMacros.Library.SavedFiles
import GameMacros.Library.SavedMacro
import GameMacros.Library.Settings
import GameMacros.Library.Validation
import GameMacros.Main
import GameMacros.Number.Binary
import GameMacros.Number.Decimal
import GameMacros.Number.Numeral
import GameMacros.Prompt.Completion
import GameMacros.Prompt.Request
import GameMacros.Prompt.Session
import GameMacros.Proofs.Cancellation
import GameMacros.Proofs.ClockFree
import GameMacros.Proofs.Evaluation
import GameMacros.Proofs.Flight
import GameMacros.Proofs.Interruption
import GameMacros.Proofs.LoopLatches
import GameMacros.Proofs.Operations
import GameMacros.Proofs.Pieces
import GameMacros.Proofs.Refinement
import GameMacros.Proofs.Run
import GameMacros.Proofs.Soundness
import GameMacros.Script.Command
import GameMacros.Script.Condition
import GameMacros.Script.CraftLoop
import GameMacros.Script.Key
import GameMacros.Script.KeyCombo
import GameMacros.Script.Line
import GameMacros.Script.LineError
import GameMacros.Script.Modifiers
import GameMacros.Script.Program
import GameMacros.Script.Reference
import GameMacros.Script.Verb
import GameMacros.Script.Wait
import GameMacros.Text.Blank
import GameMacros.Text.CaseTables
import GameMacros.Text.Fill
import GameMacros.Text.Lines
import GameMacros.Text.Lowercase
import GameMacros.Text.Names
import GameMacros.Text.Pieces
import GameMacros.Text.Quoted
import GameMacros.Toml.Document
import GameMacros.Toml.Number
import GameMacros.Toml.Quoted
import GameMacros.Toml.Value
import GameMacros.Proofs.Holding
import GameMacros.Proofs.Journey
import GameMacros.Proofs.NestedLoops
import GameMacros.Proofs.Reading
import GameMacros.Proofs.Lines
import GameMacros.Proofs.Wrapping
import GameMacros.Proofs.CraftLoops
import GameMacros.Proofs.Display
import GameMacros.Proofs.Waking
import GameMacros.Proofs.Tokens
import GameMacros.Proofs.LastLoop
import GameMacros.Proofs.Rebasing
import GameMacros.Proofs.Forgetting
import GameMacros.Proofs.Templates
import GameMacros.Proofs.Aborting
import GameMacros.Proofs.Origins
import GameMacros.Proofs.Linting
import GameMacros.Proofs.Elapsing
import GameMacros.Proofs.DryRuns
import GameMacros.Proofs.Polling
import GameMacros.Proofs.Queueing
import GameMacros.Proofs.Tracking
import GameMacros.Proofs.Pace
import GameMacros.Proofs.Expansion
import GameMacros.Proofs.Bursts
import GameMacros.Proofs.Callers
import GameMacros.Proofs.Gates
import GameMacros.Proofs.Stopping
import GameMacros.Proofs.Remembering
import GameMacros.Proofs.Attempts
import GameMacros.Proofs.Extraction
import GameMacros.Proofs.Residues
import GameMacros.Proofs.Rounding
import GameMacros.Proofs.Rows
import GameMacros.Proofs.LineEnds
import GameMacros.Proofs.WellFormed
import GameMacros.Proofs.Quoting
import GameMacros.Proofs.Words
import GameMacros.Proofs.Counts
import GameMacros.Proofs.Seconds
import GameMacros.Proofs.Lookup
import GameMacros.Proofs.Requests
import GameMacros.Proofs.Membership
import GameMacros.Proofs.Delays
import GameMacros.Proofs.Combinations
import GameMacros.Proofs.Completing
