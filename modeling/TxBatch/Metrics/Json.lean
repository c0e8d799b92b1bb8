import TxBatch.Decimal.Shortest
import TxBatch.Json.Output
import TxBatch.Json.Record
import TxBatch.Metrics

/-! # Metrics as JSON

A snapshot is a record of which no field may be missing. Means are written with the fewest digits,
positionally up to sixteen digits in front of the point and down to five places behind it.
-/

namespace TxBatch

/-- How means are laid out. -/
def Histogram.meanLayout : Decimal.Layout := ⟨-5, 16⟩

def Histogram.Summary.ofValue? (v : Json.Value) : Option Histogram.Summary :=
  match v.fields? ["mean", "count", "max", "buckets"] with
  | some [some mean, some count, some max, some buckets] => do
    return {
      mean := ← mean.float?
      count := ← count.uint64?
      max := ← max.uint64?
      buckets := ← buckets.listOf? Json.Value.uint64? }
  | _ => none

def Json.Output.ofWord (w : UInt64) : Json.Output := .word w.toNat

def Histogram.Summary.output (s : Histogram.Summary) : Json.Output :=
  .record [
    ("mean", .atom (meanLayout.text s.mean)),
    ("count", .ofWord s.count),
    ("max", .ofWord s.max),
    ("buckets", .list (s.buckets.map .ofWord))]

namespace Metrics.Snapshot

def fieldNames : List String := ["batches", "failed_batches", "rounds", "executions", "aborts",
  "retries", "stale_results", "round_latency_us", "batch_latency_us"]

def ofValue? (v : Json.Value) : Option Snapshot :=
  match v.fields? fieldNames with
  | some [some batches, some failedBatches, some rounds, some executions, some aborts,
      some retries, some staleResults, some roundLatency, some batchLatency] => do
    return {
      batches := ← batches.uint64?
      failedBatches := ← failedBatches.uint64?
      rounds := ← rounds.uint64?
      executions := ← executions.uint64?
      aborts := ← aborts.uint64?
      retries := ← retries.uint64?
      staleResults := ← staleResults.uint64?
      roundLatency := ← Histogram.Summary.ofValue? roundLatency
      batchLatency := ← Histogram.Summary.ofValue? batchLatency }
  | _ => none

def ofText? (text : String) : Option Snapshot := (Json.Value.read? text).bind ofValue?

def output (s : Snapshot) : Json.Output :=
  let words := [s.batches, s.failedBatches, s.rounds, s.executions, s.aborts, s.retries,
    s.staleResults].map Json.Output.ofWord
  .record (fieldNames.zip (words ++ [s.roundLatency.output, s.batchLatency.output]))

/-- A snapshot in JSON, on one line. -/
def text (s : Snapshot) : String := s.output.compact

end Metrics.Snapshot

end TxBatch
