import TxBatch.Call
import TxBatch.Store

/-! # Programs over the store

A program is an execution that touches shared state only through the versioned store and only at
its own version: it reads as its own position and writes as its own attempt. What it does next may
depend on what it read. Run as a call, each access is one step.
-/

namespace TxBatch

inductive Program (V R : Type) where
  | finish (result : CallEnd R)
  | read (key : Key) (next : Reading V → Program V R)
  | write (key : Key) (value : V) (next : Program V R)
  /-- Discard what earlier attempts at the same position wrote. -/
  | clear (next : Program V R)
  | cancel (next : Program V R)

namespace Program

variable {V R : Type}

/-- The program at a version, one access a step. -/
def call (version : Version) : Program V R → Call (Store V) R
  | .finish result => .finish result
  | .read key next =>
    .step (fun w => ⟨w.state, false⟩)
      (fun w => (next (w.state.read key version.index)).call version)
  | .write key value next =>
    .step (fun w => ⟨w.state.write key version value, false⟩) (fun _ => next.call version)
  | .clear next =>
    .step (fun w => ⟨w.state.clear version.index, false⟩) (fun _ => next.call version)
  | .cancel next => .step (fun w => ⟨w.state, true⟩) (fun _ => next.call version)

end Program

end TxBatch
