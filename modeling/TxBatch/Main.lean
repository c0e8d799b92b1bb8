import TxBatch.Runner

/-! # Command line entry

Reads the arguments and the configuration file, runs the workload both ways and prints the summary.
Everything that is decided is decided in `TxBatch.Runner`. Only the two runs are timed as a whole: a
run has no clock of its own, so the latencies inside its metrics are recorded as zero. Nothing is
logged, whatever level is asked for.
-/

namespace TxBatch.Main

def usage : String :=
  String.intercalate "\n" [
    "Usage: txbatch [OPTIONS]",
    "",
    "Runs a synthetic transfer workload as an optimistic batch and in sequence.",
    "",
    "Options:",
    "  --config <PATH>              scheduler configuration (JSON); flags override it",
    "  --workers <N>                workers; zero or less means one per pending transaction",
    "  --max-incarnations <N>       highest incarnation of a transaction",
    "  --no-retry-limit             no limit on incarnations",
    "  --transactions <N>           transfers in the batch [default: 500]",
    "  --accounts <N>               accounts that transfers are drawn from [default: 128]",
    "  --initial-balance <N>        balance of every account at first [default: 1000]",
    "  --max-amount <N>             largest amount of a transfer [default: 500]",
    "  --seed <N>                   seed of the workload [default: 42]",
    "  --log-level <LEVEL>          level of the log [default: info]",
    "  -h, --help                   print this text",
    "  -V, --version                print the version"]

def look (path : String) : IO FileContent := do
  try
    return .bytes (← IO.FS.readBinFile path).data.toList
  catch e =>
    match e with
    | .noFileOrDirectory .. => return .missing
    | e => return .refused (toString e)

/-- Evaluate a value and count the microseconds that it takes. -/
def timed {α : Type} (value : Unit → α) : IO (α × Nat) := do
  let start ← IO.monoNanosNow
  let result ← IO.lazyPure value
  let stop ← IO.monoNanosNow
  return (result, (stop - start) / 1000)

def report (message : String) : IO Unit := do
  (← IO.getStderr).putStrLn ("error: " ++ message)

def refuse (refusal : CommandLine.Refusal) : IO UInt32 := do
  match refusal with
  | .help => IO.println usage
  | .version => IO.println "txbatch 0.1.0"
  | refusal => report refusal.message
  return (Runner.refusedCode refusal).toUInt32

def compare (line : CommandLine) (c : Comparison) : IO UInt32 := do
  let (parallel, parallelMicros) ← timed fun _ => c.parallel {}
  let (sequential, sequentialMicros) ← timed fun _ => c.sequential
  let outcome := Runner.summarize line c parallel sequential
  match outcome with
  | .ok summary =>
    IO.println ((summary.output parallelMicros sequentialMicros).pretty 0)
    unless summary.matchesSequential do
      report "the batch run differs from the sequential run"
  | .error (.failed error) => report error.message
  | .error .crashed => report "the run broke off"
  return (Runner.exitCode outcome).toUInt32

end TxBatch.Main

def main (args : List String) : IO UInt32 := do
  let content ← match TxBatch.Runner.configPath? args with
    | some path => TxBatch.Main.look path
    | none => pure .missing
  match TxBatch.Runner.plan args (fun _ => content) "a balance exceeds 64 bits" with
  | .refused refusal => TxBatch.Main.refuse refusal
  | .misconfigured fault =>
    TxBatch.Main.report (TxBatch.BatchError.invalidConfig fault).message
    return 1
  | .run line c => TxBatch.Main.compare line c
