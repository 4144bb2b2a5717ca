import BlockCalc.CommandLine.Arguments
import BlockCalc.CommandLine.Run
import BlockCalc.Dialogue
import BlockCalc.Evaluation.Basic
import BlockCalc.Evaluation.Expression
import BlockCalc.Evaluation.Parse
import BlockCalc.Evaluation.Program
import BlockCalc.Event
import BlockCalc.Failure
import BlockCalc.Folder
import BlockCalc.Forest
import BlockCalc.Hooks
import BlockCalc.Json
import BlockCalc.Lexer
import BlockCalc.Literal
import BlockCalc.Location
import BlockCalc.Main
import BlockCalc.Operation
import BlockCalc.Operator
import BlockCalc.Scope
import BlockCalc.Session
import BlockCalc.Settings
import BlockCalc.Source
import BlockCalc.Step
import BlockCalc.StepLog
import BlockCalc.Table
import BlockCalc.Text.Blank
import BlockCalc.Text.Line
import BlockCalc.Text.Numeral
import BlockCalc.Text.Order
import BlockCalc.Text.Printable
import BlockCalc.Text.Quoted
import BlockCalc.Token
import BlockCalc.Traceback
import BlockCalc.Value
import BlockCalc.Proofs.Action
import BlockCalc.Proofs.Guard
import BlockCalc.Proofs.Scope
import BlockCalc.Proofs.Steady
import BlockCalc.Proofs.Lockstep
import BlockCalc.Proofs.Brackets
import BlockCalc.Proofs.History
import BlockCalc.Proofs.Quiet
import BlockCalc.Proofs.Unhandled
import BlockCalc.Proofs.Alike
import BlockCalc.Proofs.SideBySide
import BlockCalc.Proofs.Script
import BlockCalc.Proofs.Layout
import BlockCalc.Proofs.Resumption
import BlockCalc.Proofs.Chunks
import BlockCalc.Proofs.Turns
import BlockCalc.Proofs.Resolution
import BlockCalc.Proofs.Turning
import BlockCalc.Proofs.Reach
import BlockCalc.Proofs.StaticNames
import BlockCalc.Proofs.Shadowing
import BlockCalc.Proofs.Precedence
import BlockCalc.Proofs.Spine
import BlockCalc.Proofs.Refinement
import BlockCalc.Proofs.Tokenization
import BlockCalc.Proofs.Coupling
import BlockCalc.Proofs.Carrying
import BlockCalc.Proofs.Twins
import BlockCalc.Proofs.Watching
import BlockCalc.Proofs.Trail
import BlockCalc.Proofs.Replay
import BlockCalc.Proofs.Unmatched
import BlockCalc.Proofs.InStep
import BlockCalc.Proofs.Comments
import BlockCalc.Proofs.Unmentioned
import BlockCalc.Proofs.Limit
import BlockCalc.Proofs.Hearing
import BlockCalc.Proofs.Nesting
import BlockCalc.Proofs.Occurrences
import BlockCalc.Proofs.WordArithmetic
import BlockCalc.Proofs.WellNested
import BlockCalc.Proofs.Mismatch
import BlockCalc.Proofs.StandAlone
import BlockCalc.Proofs.BracketCheck
import BlockCalc.Proofs.RightHand
import BlockCalc.Proofs.Assigning
import BlockCalc.Proofs.Chains
import BlockCalc.Proofs.Stepwise
import BlockCalc.Proofs.Elsewhere
import BlockCalc.Proofs.Compound
import BlockCalc.Proofs.Numerals
import BlockCalc.Proofs.OperatorTypes
import BlockCalc.Proofs.Positions
import BlockCalc.Proofs.Runs
import BlockCalc.Proofs.Places
import BlockCalc.Proofs.Placing
import BlockCalc.Proofs.Origins
import BlockCalc.Proofs.Settling
import BlockCalc.Proofs.Breaking
import BlockCalc.Proofs.Located
import BlockCalc.Proofs.Quotations
import BlockCalc.Proofs.Rendering
import BlockCalc.Proofs.Snapshot
import BlockCalc.Proofs.Bindings
import BlockCalc.Proofs.Charges
import BlockCalc.Proofs.Ledger
import BlockCalc.Proofs.StepBound
import BlockCalc.Proofs.LineText
import BlockCalc.Proofs.WaitingOrder
import BlockCalc.Proofs.Registration
import BlockCalc.Proofs.StateChain
