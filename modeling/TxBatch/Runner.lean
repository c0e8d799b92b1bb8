import TxBatch.CommandLine.Reader
import TxBatch.Comparison
import TxBatch.Metrics.Json
import TxBatch.Workload

/-! # The whole program

A command line is read, a workload is generated and run both ways, and a summary tells whether the
two runs match. What the program decides is here; reading files and printing is left to its caller.
-/

namespace TxBatch.Runner

/-- What a command line comes to. -/
inductive Plan where
  | refused (refusal : CommandLine.Refusal)
  | misconfigured (fault : ConfigFault)
  | run (line : CommandLine) (comparison : Comparison)

def configPath? (args : List String) : Option String :=
  (CommandLine.read args).toOption.bind CommandLine.config

def comparison (line : CommandLine) (config : Config) (overflow : String) : Comparison where
  accounts := line.accounts
  initialBalance := line.initialBalance
  config
  transfers :=
    Workload.generate line.transactions.toNat line.accounts line.maxAmount line.seed
  overflow

def plan (args : List String) (files : String → FileContent) (overflow : String) : Plan :=
  match CommandLine.read args with
  | .error refusal => .refused refusal
  | .ok line =>
    match line.schedulerConfig files with
    | .error fault => .misconfigured fault
    | .ok config => .run line (comparison line config overflow)

/-- What is printed about a run that got as far as comparing. -/
structure Summary where
  transactions : Nat
  accounts : UInt32
  workers : Int64
  seed : UInt64
  successfulTransfers : Nat
  rounds : Nat
  retries : Nat
  matchesSequential : Bool
  metrics : Metrics.Snapshot

/-- The summary of two runs, or what kept one of them from its receipts. -/
def summarize (line : CommandLine) (c : Comparison) (parallel : Comparison.Parallel)
    (sequential : Comparison.Ordered) : Except Halt Summary :=
  match parallel.result, sequential.result with
  | .error reason, _ => .error reason
  | .ok _, .error reason => .error reason
  | .ok receipts, .ok _ => .ok {
      transactions := parallel.batch.report.transactions
      accounts := line.accounts
      workers := c.config.workers
      seed := line.seed
      successfulTransfers := Comparison.successes receipts
      rounds := parallel.batch.report.rounds
      retries := parallel.batch.report.retries
      matchesSequential := Comparison.agree? parallel sequential = some true
      metrics := parallel.batch.metrics.snapshot }

/-- Exit code after a refused command line: asking for help or the version is no mistake. -/
def refusedCode : CommandLine.Refusal → UInt8
  | .help => 0
  | .version => 0
  | _ => 2

/-- Exit code of a run: it succeeds only if both runs ended and match. -/
def exitCode : Except Halt Summary → UInt8
  | .ok summary => if summary.matchesSequential then 0 else 1
  | .error _ => 1

/-- How the program ends: its exit code, and its summary if it prints one. -/
structure End where
  code : UInt8
  summary : Option Summary

def run (env : Environment) (args : List String) (files : String → FileContent)
    (overflow : String) : End :=
  match plan args files overflow with
  | .refused refusal => ⟨refusedCode refusal, none⟩
  | .misconfigured _ => ⟨1, none⟩
  | .run line c =>
    let outcome := summarize line c (c.parallel env) c.sequential
    ⟨exitCode outcome, outcome.toOption⟩

/-- A summary to be printed, with the microseconds that the two runs took. -/
def Summary.output (s : Summary) (parallelMicros sequentialMicros : Nat) : Json.Output :=
  .record [
    ("transactions", .word s.transactions),
    ("accounts", .word s.accounts.toNat),
    ("workers", .atom (Decimal.intText s.workers.toInt)),
    ("seed", .ofWord s.seed),
    ("successful_transfers", .word s.successfulTransfers),
    ("rounds", .word s.rounds),
    ("retries", .word s.retries),
    ("parallel_us", .word parallelMicros),
    ("sequential_us", .word sequentialMicros),
    ("matches_sequential", .bool s.matchesSequential),
    ("metrics", s.metrics.output)]

end TxBatch.Runner
