import TxBatch.Access
import TxBatch.Task

/-! # The validation phase of a round

After every execution phase a validator inspects the whole batch, not only the tasks that just
ran: executing an earlier transaction again can spoil a later result that an earlier round
accepted. It leaves each task validated or aborted and reports the tasks that go back.
-/

namespace TxBatch

/-- Judges all tasks after a round: the tasks as it leaves them, and the positions to execute
again. -/
abbrev Validator (Req R : Type) := (round : Nat) → List (Task Req R) → List (Task Req R) × List Nat

namespace Validator

variable {Req R : Type}

def abortedIndices (tasks : List (Task Req R)) : List Nat :=
  (tasks.filter fun t => t.status = .aborted).map Task.index

/-- Accepts every result: conflicts are only those that executions signal themselves. -/
def minimal : Validator Req R := fun _ tasks =>
  let tasks := tasks.map fun t => t.move .validate
  (tasks, abortedIndices tasks)

section ReadWrite

variable [Tracked R]

/-- The first task in front of a result, got in `round`, that spoils it: it holds a result of the
same round or a later one, so it ran beside or after the execution in question, and it wrote a key
that the execution read or wrote. -/
def conflict? (lower : List (Task Req R)) (response : R) (round : Nat) : Option (Task Req R) :=
  lower.find? fun earlier =>
    match earlier.result? with
    | some (other, otherRound) =>
      round ≤ otherRound && (Tracked.access response).dependsOn (Tracked.access other)
    | none => false

/-- Judge one task against the tasks in front of it, which are judged already. -/
def judge (lower : List (Task Req R)) (t : Task Req R) : Task Req R :=
  match t.result? with
  | none => t
  | some (response, round) =>
    match conflict? lower response round with
    | some earlier => t.move (.reject (.dependency earlier.index))
    | none => t.move .validate

/-- Judge tasks in slot order behind `lower`. A task that is aborted on the way holds no result, so
it spoils nothing behind it. -/
def judgeBehind (lower : List (Task Req R)) : List (Task Req R) → List (Task Req R)
  | [] => []
  | t :: rest =>
    let judged := judge lower t
    judged :: judgeBehind (lower ++ [judged]) rest

/-- Compares access sets: a result goes back if a task in front of it ran in the same round or
later and wrote what the result rests on. The first task of a round that goes back has nothing in
front of it that ran beside it, so every round settles one task more. -/
def readWrite : Validator Req R := fun _ tasks =>
  let tasks := judgeBehind [] tasks
  (tasks, abortedIndices tasks)

inductive Policy where
  | minimal
  | readWrite
deriving Repr, DecidableEq

def Policy.validator : Policy → Validator Req R
  | .minimal => Validator.minimal
  | .readWrite => Validator.readWrite

/-- What a staged validator does in one round. -/
structure Stage where
  /-- Slots whose results are rejected first. -/
  abort : List Nat := []
  /-- Validator asked next; without one nothing is judged or reported. -/
  policy : Option Policy := none
  /-- Positions reported on top. -/
  report : List Nat := []

def Stage.validator (stage : Stage) : Validator Req R := fun round tasks =>
  let tasks := stage.abort.foldl
    (fun tasks slot => tasks.modify slot fun t => t.move (.reject .requested)) tasks
  match stage.policy with
  | some policy =>
    let (tasks, reported) := policy.validator round tasks
    (tasks, reported ++ stage.report)
  | none => (tasks, stage.report)

/-- One stage a round, counted from one, and the minimal validator after the last. -/
def staged (stages : List Stage) : Validator Req R := fun round tasks =>
  match stages[round - 1]? with
  | some stage => stage.validator round tasks
  | none => minimal round tasks

end ReadWrite

end Validator

end TxBatch
