import TxBatch.Error

/-! # Scheduler configuration -/

namespace TxBatch

structure Config where
  /-- Workers a phase; zero or less means one a pending task. -/
  workers : Int64 := 0
  /-- The highest incarnation that a transaction may reach; none means no limit. -/
  maxIncarnations : Option UInt32 := some 100
deriving Repr, DecidableEq, Inhabited

namespace Config

/-- A ceiling of zero is refused: it would leave no room for a retry. -/
def validate (c : Config) : Except ConfigFault Unit :=
  if c.maxIncarnations = some 0 then .error .zeroCeiling else .ok ()

/-- The ceiling, if `incarnation` is above it. -/
def exceeded? (c : Config) (incarnation : Nat) : Option Nat :=
  match c.maxIncarnations with
  | some limit => if limit.toNat < incarnation then some limit.toNat else none
  | none => none

end Config

end TxBatch
