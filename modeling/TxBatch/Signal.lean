/-! # Abort signals

An execution that finds its own result useless says so by a signal; the transaction is then sent
back while the batch goes on.
-/

namespace TxBatch

/-- Why a result must be discarded. -/
inductive AbortSignal where
  /-- A lower position wrote state that the execution depends on. -/
  | dependency (writer : Nat)
  /-- A retry was asked for without a specific cause. -/
  | requested
deriving Repr, DecidableEq

namespace AbortSignal

/-- The position whose write caused the abort, if there is one. -/
def writer? : AbortSignal → Option Nat
  | .dependency writer => some writer
  | .requested => none

def text : AbortSignal → String
  | .dependency writer => s!"dependency written by {writer}"
  | .requested => "retry requested"

end AbortSignal

end TxBatch
