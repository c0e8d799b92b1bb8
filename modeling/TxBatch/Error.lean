/-! # Errors of a batch

A conflict is no error: it ends in a retry. Each error here fails the whole batch.
-/

namespace TxBatch

/-- Why a file could not be read as text. -/
inductive ReadFault where
  | missing
  | notText
  /-- The system refused for a reason of its own. -/
  | refused (reason : String)
deriving Repr, DecidableEq

namespace ReadFault

def message : ReadFault → String
  | .missing => "No such file or directory (os error 2)"
  | .notText => "stream did not contain valid UTF-8"
  | .refused reason => reason

end ReadFault

inductive ConfigFault where
  /-- The ceiling on incarnations is zero, so no transaction could be sent back. -/
  | zeroCeiling
  | unreadable (path : String) (fault : ReadFault)
  /-- The text is not JSON of the expected shape. -/
  | malformed (detail : String)
deriving Repr, DecidableEq

namespace ConfigFault

def message : ConfigFault → String
  | .zeroCeiling => "max_incarnations must allow at least one retry"
  | .unreadable path fault => s!"cannot read {path}: {fault.message}"
  | .malformed detail => detail

end ConfigFault

inductive BatchError where
  | cancelled
  /-- The execution of a transaction failed for good. -/
  | executionFailed (index incarnation : Nat) (reason : String)
  /-- A transaction would have to be executed again above the ceiling. -/
  | incarnationLimitExceeded (index incarnation limit : Nat)
  /-- An execution call crashed and took its worker with it. -/
  | workerCrashed (reason : String)
  /-- A validator reported a position outside the batch. -/
  | invalidIndex (index : Nat)
  /-- A transaction ended the batch without a response. -/
  | missingResponse (index : Nat)
  | invalidConfig (fault : ConfigFault)
deriving Repr, DecidableEq

namespace BatchError

def message : BatchError → String
  | .cancelled => "batch execution cancelled"
  | .executionFailed index incarnation reason =>
    s!"transaction {index} (incarnation {incarnation}) failed: {reason}"
  | .incarnationLimitExceeded index incarnation limit =>
    s!"transaction {index} reached incarnation {incarnation}, limit is {limit}"
  | .workerCrashed reason => s!"worker failed: {reason}"
  | .invalidIndex index => s!"invalid transaction index: {index}"
  | .missingResponse index => s!"transaction {index} has no response"
  | .invalidConfig fault => s!"invalid config: {fault.message}"

end BatchError

end TxBatch
