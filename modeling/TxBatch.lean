import TxBatch.Hex
import TxBatch.Utf8
import TxBatch.Key
import TxBatch.Version
import TxBatch.Access
import TxBatch.Store
import TxBatch.Signal
import TxBatch.Task
import TxBatch.Error
import TxBatch.Call
import TxBatch.Phase
import TxBatch.Phase.Protocol
import TxBatch.Validator
import TxBatch.Program
import TxBatch.Script
import TxBatch.Histogram
import TxBatch.Metrics
import TxBatch.Config
import TxBatch.Scheduler
import TxBatch.Sequential
import TxBatch.ChaCha
import TxBatch.Draw
import TxBatch.Ledger
import TxBatch.Workload
import TxBatch.Comparison
import TxBatch.Word
import TxBatch.Decimal
import TxBatch.Json.Value
import TxBatch.Json.Token
import TxBatch.Json.Reader
import TxBatch.Decimal.Shortest
import TxBatch.Json.Number
import TxBatch.Json.Record
import TxBatch.Config.Json
import TxBatch.Metrics.Json
import TxBatch.Cancellation
import TxBatch.CommandLine
import TxBatch.CommandLine.Reader
import TxBatch.Json.Output
import TxBatch.Runner
import TxBatch.Main
import TxBatch.Proofs.Phase.Accounts
import TxBatch.Proofs.Phase.Delivery
import TxBatch.Proofs.Rounds
import TxBatch.Proofs.Validation
import TxBatch.Proofs.Arena
import TxBatch.Proofs.Incarnations
import TxBatch.Proofs.Committed
import TxBatch.Proofs.Phase.Calm
import TxBatch.Proofs.Progress
import TxBatch.Proofs.Cells
import TxBatch.Proofs.Image
import TxBatch.Proofs.Journal
import TxBatch.Proofs.Phase.Recorded
import TxBatch.Proofs.Chronicle
import TxBatch.Proofs.FinalReads
import TxBatch.Proofs.Scripts
import TxBatch.Proofs.StaleReads
import TxBatch.Proofs.Serial
import TxBatch.Proofs.SerialEquivalence
import TxBatch.Proofs.History
import TxBatch.Proofs.Ceiling
import TxBatch.Proofs.Accounting
import TxBatch.Proofs.Agreement
import TxBatch.Proofs.Phase.Parties
import TxBatch.Proofs.Phase.Refinement
import TxBatch.Proofs.Phase.Course
import TxBatch.Proofs.Phase.Completion
import TxBatch.Proofs.Cancelled
import TxBatch.Proofs.InternalErrors
import TxBatch.Proofs.Accounts
import TxBatch.Proofs.Comparison
import TxBatch.Proofs.Conservation
import TxBatch.Proofs.Lifecycle
import TxBatch.Proofs.SingleVersion
import TxBatch.Proofs.Books
import TxBatch.Proofs.Kept
import TxBatch.Proofs.Overflow
import TxBatch.Proofs.Updates
import TxBatch.Proofs.Verdicts
import TxBatch.Proofs.Phase.Success
import TxBatch.Proofs.Phase.Resumption
import TxBatch.Proofs.Outcomes
import TxBatch.Proofs.Isolation
import TxBatch.Proofs.Convergence
import TxBatch.Proofs.Reordering
import TxBatch.Proofs.Chain
import TxBatch.Proofs.Workload
import TxBatch.Proofs.Json.Tokens
import TxBatch.Proofs.ConfigText
import TxBatch.Proofs.Override
import TxBatch.Proofs.Histogram
import TxBatch.Proofs.Utf8
import TxBatch.Proofs.KeyText
