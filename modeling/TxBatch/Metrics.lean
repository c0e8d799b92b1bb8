import TxBatch.Histogram
import TxBatch.Phase

/-! # Scheduler metrics

Counters over the life of a scheduler, and two latency histograms. A round is recorded when its
execution phase succeeded, retries when the validator reported them, and a batch when it ended,
well or badly.
-/

namespace TxBatch

structure Metrics where
  batches : UInt64 := 0
  /-- Batches that ended in an error. -/
  failedBatches : UInt64 := 0
  rounds : UInt64 := 0
  /-- Executions that gave a response. -/
  executions : UInt64 := 0
  /-- Aborts signalled by executions. -/
  aborts : UInt64 := 0
  /-- Tasks sent back after validation. -/
  retries : UInt64 := 0
  /-- Outcomes dropped because the task had moved on. -/
  staleResults : UInt64 := 0
  roundLatency : Histogram := default
  batchLatency : Histogram := default

namespace Metrics

def recordRound (m : Metrics) (summary : Summary) (micros : Nat) : Metrics :=
  { m with
    rounds := m.rounds + 1
    executions := m.executions + summary.executed.toUInt64
    aborts := m.aborts + summary.aborted.toUInt64
    staleResults := m.staleResults + summary.stale.toUInt64
    roundLatency := m.roundLatency.observeMicros micros }

def recordRetries (m : Metrics) (retries : Nat) : Metrics :=
  { m with retries := m.retries + retries.toUInt64 }

def recordBatch (m : Metrics) (succeeded : Bool) (micros : Nat) : Metrics :=
  { m with
    batches := m.batches + 1
    failedBatches := if succeeded then m.failedBatches else m.failedBatches + 1
    batchLatency := m.batchLatency.observeMicros micros }

/-- The metrics at a point in time, as they are exported. -/
structure Snapshot where
  batches : UInt64
  failedBatches : UInt64
  rounds : UInt64
  executions : UInt64
  aborts : UInt64
  retries : UInt64
  staleResults : UInt64
  roundLatency : Histogram.Summary
  batchLatency : Histogram.Summary

def snapshot (m : Metrics) : Snapshot where
  batches := m.batches
  failedBatches := m.failedBatches
  rounds := m.rounds
  executions := m.executions
  aborts := m.aborts
  retries := m.retries
  staleResults := m.staleResults
  roundLatency := m.roundLatency.summary
  batchLatency := m.batchLatency.summary

end Metrics

end TxBatch
