import TxBatch.Draw
import TxBatch.Ledger

/-! # Synthetic workloads

A workload is a batch of random transfers, fixed by its seed: all draws come from one generator,
three a transfer, so a longer workload begins with the shorter one of the same seed.
-/

namespace TxBatch.Workload

variable {G : Type}

/-- One transfer between two accounts, distinct if there are two: a target that equals the source
moves on to the next account, around the end. -/
def draw (draws : Draw.Source G) (accounts : UInt32) (maxAmount : UInt64) (g : G) : Transfer × G :=
  let choices := max accounts.toNat 1
  let (source, g) := draws.below32 choices g
  let (target, g) := draws.below32 choices g
  let source := source.toUInt32
  let target := target.toUInt32
  let target := if target = source ∧ 1 < accounts then (target + 1) % accounts else target
  let (extra, g) := draws.below64 (max maxAmount.toNat 1) g
  ({ source, target, amount := extra.toUInt64 + 1 }, g)

def transfers (draws : Draw.Source G) (accounts : UInt32) (maxAmount : UInt64) :
    Nat → G → List Transfer
  | 0, _ => []
  | count + 1, g =>
    let (t, g) := draw draws accounts maxAmount g
    t :: transfers draws accounts maxAmount count g

def generate (count : Nat) (accounts : UInt32) (maxAmount seed : UInt64) : List Transfer :=
  transfers Draw.uniform accounts maxAmount count (Generator.ofSeed seed)

end TxBatch.Workload
