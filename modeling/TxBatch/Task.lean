import TxBatch.Signal
import TxBatch.Version

/-! # Tasks

A task is a transaction together with how far it has come. Every change is a move that checks the
state it starts from, so an outcome reported for a superseded incarnation can never replace the
current one: such a move is refused and leaves the task as it was.
-/

namespace TxBatch

inductive Status where
  | pending
  | executed
  | aborted
  | validated
deriving Repr, DecidableEq

namespace Status

def hasResponse : Status → Bool
  | .executed | .validated => true
  | .pending | .aborted => false

def text : Status → String
  | .pending => "pending"
  | .executed => "executed"
  | .aborted => "aborted"
  | .validated => "validated"

end Status

/-- How far a task has come, with what it holds there: a response and the round that produced it
exist exactly while the task is executed or validated. -/
inductive Progress (R : Type) where
  /-- Waits to be executed at its current incarnation. -/
  | pending
  /-- Executed, not yet validated. -/
  | executed (response : R) (round : Nat)
  /-- The last result is discarded; a retry is due. -/
  | aborted
  /-- The result agrees with the rest of the batch. -/
  | validated (response : R) (round : Nat)
deriving Repr, DecidableEq

/-- A transaction request with its scheduling record. -/
structure Task (Req R : Type) where
  /-- Position that the transaction executes at. -/
  index : Nat
  request : Req
  incarnation : Nat := 0
  progress : Progress R := .pending
  /-- Cause of the most recent abort; it outlives the retry. -/
  lastAbort : Option AbortSignal := none
deriving Repr, DecidableEq

namespace Task

variable {Req R : Type}

def version (t : Task Req R) : Version := ⟨t.index, t.incarnation⟩

def status (t : Task Req R) : Status :=
  match t.progress with
  | .pending => .pending
  | .executed .. => .executed
  | .aborted => .aborted
  | .validated .. => .validated

/-- Response of the current incarnation with the round that produced it, if executed. -/
def result? (t : Task Req R) : Option (R × Nat) :=
  match t.progress with
  | .executed response round => some (response, round)
  | .validated response round => some (response, round)
  | .pending => none
  | .aborted => none

def response? (t : Task Req R) : Option R := t.result?.map (·.1)

def round? (t : Task Req R) : Option Nat := t.result?.map (·.2)

/-- Whether an outcome of `incarnation` is one the task waits for. -/
def awaits (t : Task Req R) (incarnation : Nat) : Bool :=
  incarnation = t.incarnation && t.status = .pending

def discard (t : Task Req R) (signal : AbortSignal) : Task Req R :=
  { t with progress := .aborted, lastAbort := some signal }

inductive Move (R : Type) where
  /-- An execution of `incarnation` in `round` gave `response`. -/
  | execution (incarnation round : Nat) (response : R)
  /-- An execution of `incarnation` aborted. -/
  | abort (incarnation : Nat) (signal : AbortSignal)
  | validate
  | reject (signal : AbortSignal)
  /-- An aborted task waits again, at the next incarnation. -/
  | retry
deriving Repr, DecidableEq

/-- The task after a move, or nothing if the move does not apply to it. -/
def move? (t : Task Req R) : Move R → Option (Task Req R)
  | .execution incarnation round response =>
    if t.awaits incarnation then some { t with progress := .executed response round } else none
  | .abort incarnation signal =>
    if t.awaits incarnation then some (t.discard signal) else none
  | .validate => t.result?.map fun (response, round) =>
    { t with progress := .validated response round }
  | .reject signal =>
    if t.status.hasResponse then some (t.discard signal) else none
  | .retry =>
    if t.status = .aborted then
      some { t with incarnation := t.incarnation + 1, progress := .pending }
    else none

/-- The task after a move; one that does not apply changes nothing. -/
def move (t : Task Req R) (m : Move R) : Task Req R := (t.move? m).getD t

/-- One pending task a request, in order. -/
def ofRequests (requests : List Req) : List (Task Req R) :=
  requests.zipIdx.map fun (request, index) => { index, request }

end Task

end TxBatch
