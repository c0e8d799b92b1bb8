import TxBatch.Ledger
import TxBatch.Sequential

/-! # Comparing the two ways to run a batch

A batch of transfers is run over a fresh ledger as a batch and, over another, in sequence. The two
runs match if they answer with the same receipts and leave the same balances.
-/

namespace TxBatch

/-- A ledger and the transfers to run on it. -/
structure Comparison where
  accounts : UInt32
  /-- What every account holds at first. -/
  initialBalance : UInt64
  config : Config
  transfers : List Transfer
  /-- What the runtime says of a transfer that overflows. -/
  overflow : String

namespace Comparison

def world (c : Comparison) : World (Store UInt64) :=
  { state := Store.ofBase (Ledger.genesis c.accounts c.initialBalance) }

/-- Executes the transfers and validates them by their access sets. -/
def scheduler (c : Comparison) : Scheduler (Store UInt64) Transfer Receipt where
  executor := Ledger.executor c.accounts c.overflow
  validator := Validator.readWrite
  config := c.config

abbrev Parallel := BatchEnd (Store UInt64) Transfer Receipt

abbrev Ordered := SequentialEnd (Store UInt64) Transfer Receipt (List Receipt)

def parallel (c : Comparison) (env : Environment) : Parallel :=
  c.scheduler.process env {} c.world c.transfers

def sequential (c : Comparison) : Ordered :=
  c.scheduler.sequential c.world c.transfers

/-- How many transfers moved their amount. -/
def successes (receipts : List Receipt) : Nat := receipts.countP Receipt.success

def balances (w : World (Store UInt64)) : KeyMap UInt64 := w.state.snapshot

/-- Whether two runs match, unless one of them has no receipts. -/
def agree? (parallel : Parallel) (sequential : Ordered) : Option Bool :=
  match parallel.result, sequential.result with
  | .ok concurrent, .ok ordered =>
    some (concurrent = ordered ∧ balances parallel.batch.world = balances sequential.world)
  | _, _ => none

end Comparison

end TxBatch
