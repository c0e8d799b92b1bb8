import TxBatch.Signal
import TxBatch.Version

/-! # Execution calls

How a transaction is executed is left to the caller of the library: an executor turns a request
and a version into a call, and a call is a tree of steps over the shared world. A step sees the
world, changes the shared state and may cancel the batch; between two steps of one call the steps
of others can run. So a call says all that it may do, and a run of several calls at once is an
order of their steps.
-/

namespace TxBatch

/-- What the calls of a batch share: its state, and whether it was cancelled. -/
structure World (S : Type) where
  state : S
  cancelled : Bool := false
deriving Repr, DecidableEq

/-- What one step does to the world. Nothing takes a cancellation back. -/
structure Effect (S : Type) where
  /-- The state left behind. -/
  state : S
  cancels : Bool := false

def World.apply {S : Type} (w : World S) (e : Effect S) : World S :=
  ⟨e.state, w.cancelled || e.cancels⟩

inductive CallEnd (R : Type) where
  | returned (response : R)
  /-- The result is useless: the transaction goes back, the batch goes on. -/
  | aborted (signal : AbortSignal)
  /-- The whole batch fails. -/
  | failed (reason : String)
  /-- The call broke off without a result; `report` is what the runtime says of it. -/
  | crashed (report : String)
deriving Repr, DecidableEq

/-- An execution call: its next step, or its end. -/
inductive Call (S R : Type) where
  | finish (result : CallEnd R)
  | step (effect : World S → Effect S) (next : World S → Call S R)

abbrev Executor (S Req R : Type) := Req → Version → Call S R

namespace Call

variable {S R : Type}

/-- The call from here to its end with nothing in between: how it ends, and the world it leaves. -/
def run : Call S R → World S → CallEnd R × World S
  | .finish result, w => (result, w)
  | .step effect next, w => (next w).run (w.apply (effect w))

/-- The call as one step, which nothing can come between. -/
def atomic (call : Call S R) : Call S R :=
  .step (fun w => ⟨(call.run w).2.state, (call.run w).2.cancelled⟩)
    (fun w => .finish (call.run w).1)

end Call

end TxBatch
