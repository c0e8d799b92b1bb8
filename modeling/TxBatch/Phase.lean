import TxBatch.Call
import TxBatch.Cancellation
import TxBatch.Error
import TxBatch.Task

/-! # The execution phase of a round

Every pending task becomes a job; the jobs wait in one queue, in slot order, and a bounded number
of workers takes them from there. What several workers do at once is an order of small events: a
worker takes a job, a call makes a step or reports its end, and the parent notices that a worker
died. That order is data, a list of choices; a choice that does not apply changes nothing, and
when the list ends the phase is drained one job after the other. So every run of the phase is a
value of `Phase.run`, for some schedule.

No job is taken once the batch is cancelled or a failure was noticed. Outcomes that arrived are
applied to their tasks even if the phase fails, and a cancelled batch always says so, whatever
else went wrong.
-/

namespace TxBatch

/-- A task to execute: its slot in the batch, the attempt, and what to execute. -/
structure Job (Req : Type) where
  slot : Nat
  version : Version
  request : Req
deriving Repr, DecidableEq

/-- What the call of a job did, as an observer sees it. -/
inductive Event (Req R : Type) where
  | started (job : Job Req)
  | ended (job : Job Req) (result : CallEnd R)
deriving Repr, DecidableEq

/-- One job a pending task, in slot order. -/
def jobs {Req R : Type} (tasks : List (Task Req R)) : List (Job Req) :=
  tasks.zipIdx.filterMap fun (t, slot) =>
    if t.status = .pending then some ⟨slot, t.version, t.request⟩ else none

/-- What a call that neither failed nor crashed says about its task. -/
inductive Outcome (R : Type) where
  | executed (response : R)
  | aborted (signal : AbortSignal)

/-- An outcome on its way to the task in `slot`. -/
structure Arrival (R : Type) where
  slot : Nat
  version : Version
  outcome : Outcome R

/-- The move by which an outcome of `round` reaches its task. -/
def Arrival.move {R : Type} (a : Arrival R) (round : Nat) : Task.Move R :=
  match a.outcome with
  | .executed response => .execution a.version.incarnation round response
  | .aborted signal => .abort a.version.incarnation signal

structure Summary where
  /-- Tasks that got a response. -/
  executed : Nat := 0
  /-- Tasks that their execution aborted. -/
  aborted : Nat := 0
  /-- Outcomes of superseded incarnations, which are dropped. -/
  stale : Nat := 0
deriving Repr, DecidableEq

namespace Summary

def total (s : Summary) : Nat := s.executed + s.aborted + s.stale

def count {R : Type} (s : Summary) : Outcome R → Summary
  | .executed _ => { s with executed := s.executed + 1 }
  | .aborted _ => { s with aborted := s.aborted + 1 }

end Summary

/-- Bring one outcome to its task and count it. -/
def Arrival.deliver {Req R : Type} (round : Nat) (acc : List (Task Req R) × Summary)
    (a : Arrival R) : List (Task Req R) × Summary :=
  match acc.1[a.slot]? with
  | none => acc
  | some t =>
    match t.move? (a.move round) with
    | some t => (acc.1.set a.slot t, acc.2.count a.outcome)
    | none => (acc.1, { acc.2 with stale := acc.2.stale + 1 })

/-- Bring the outcomes of a round to their tasks, in order of arrival. -/
def deliverAll {Req R : Type} (round : Nat) (tasks : List (Task Req R))
    (arrivals : List (Arrival R)) : List (Task Req R) × Summary :=
  arrivals.foldl (Arrival.deliver round) (tasks, {})

/-- Workers that a phase with `pending` jobs employs: the wanted number but no more than there are
jobs, and one a job if none is wanted. -/
def effectiveWorkers (workers : Int64) (pending : Nat) : Nat :=
  if workers < 1 then pending else min workers.toInt.toNat pending

inductive Choice where
  /-- An idle worker takes the next job. -/
  | take
  /-- The running call at this place makes its next step, or reports its end. -/
  | advance (place : Nat)
  /-- The parent notices the dead worker at this place. -/
  | notice (place : Nat)
deriving Repr, DecidableEq

structure Phase (S Req R : Type) where
  world : World S
  /-- Jobs that no worker has taken. -/
  queue : List (Job Req)
  /-- Jobs that a worker holds, with what is left of their calls; oldest first. -/
  running : List (Job Req × Call S R) := []
  workers : Nat
  /-- Outcomes reported, newest first. -/
  arrivals : List (Arrival R) := []
  /-- Errors of workers that died unnoticed, oldest first. -/
  unnoticed : List BatchError := []
  /-- The first error noticed. -/
  failure : Option BatchError := none
  /-- What the calls did, newest first. -/
  log : List (Event Req R) := []

namespace Phase

variable {S Req R : Type}

/-- No job is taken any more: the scope of the phase is cancelled with the batch, or by the parent
for a failure. -/
def stopped (p : Phase S Req R) : Bool :=
  Scopes.innerCancelled p.world.cancelled p.failure.isSome

theorem stopped_eq (p : Phase S Req R) : p.stopped = (p.world.cancelled || p.failure.isSome) :=
  Scopes.innerCancelled_eq ..

def canTake (p : Phase S Req R) : Bool := !p.stopped && p.running.length < p.workers

def take (executor : Executor S Req R) (p : Phase S Req R) : Phase S Req R :=
  match p.queue with
  | [] => p
  | job :: rest =>
    if p.canTake then
      { p with
        queue := rest
        running := p.running ++ [(job, executor job.request job.version)]
        log := .started job :: p.log }
    else p

def arrive (p : Phase S Req R) (job : Job Req) (outcome : Outcome R) : Phase S Req R :=
  { p with arrivals := ⟨job.slot, job.version, outcome⟩ :: p.arrivals }

/-- A worker dies of an error, which nobody has noticed yet. -/
def lose (p : Phase S Req R) (error : BatchError) : Phase S Req R :=
  { p with workers := p.workers - 1, unnoticed := p.unnoticed ++ [error] }

def conclude (p : Phase S Req R) (job : Job Req) (result : CallEnd R) : Phase S Req R :=
  let p := { p with log := .ended job result :: p.log }
  match result with
  | .returned response => p.arrive job (.executed response)
  | .aborted signal => p.arrive job (.aborted signal)
  | .failed reason =>
    p.lose (.executionFailed job.version.index job.version.incarnation reason)
  | .crashed report => p.lose (.workerCrashed report)

/-- The running call at `place` makes its next step, or reports its end. -/
def advance (p : Phase S Req R) (place : Nat) : Phase S Req R :=
  match p.running[place]? with
  | none => p
  | some (job, .finish result) =>
    { p with running := p.running.eraseIdx place }.conclude job result
  | some (job, .step effect next) =>
    { p with
      running := p.running.set place (job, next p.world)
      world := p.world.apply (effect p.world) }

/-- The parent notices the dead worker at `place`. The first error noticed is the one kept. -/
def notice (p : Phase S Req R) (place : Nat) : Phase S Req R :=
  match p.unnoticed[place]? with
  | none => p
  | some error =>
    { p with unnoticed := p.unnoticed.eraseIdx place, failure := p.failure.or (some error) }

def act (executor : Executor S Req R) (p : Phase S Req R) : Choice → Phase S Req R
  | .take => p.take executor
  | .advance place => p.advance place
  | .notice place => p.notice place

/-- Run the calls under way to their ends, oldest first. -/
def finishRunning (p : Phase S Req R) : Phase S Req R :=
  p.running.foldl
    (fun p (job, call) =>
      let (result, world) := call.run p.world
      { p with world }.conclude job result)
    { p with running := [] }

def noticeAll (p : Phase S Req R) : Phase S Req R :=
  { p with unnoticed := [], failure := p.failure.or p.unnoticed.head? }

/-- Take up to `count` jobs, one after the other, each run to its end before the next. -/
def drainQueue (executor : Executor S Req R) : Nat → Phase S Req R → Phase S Req R
  | 0, p => p
  | count + 1, p =>
    if p.canTake then drainQueue executor count (p.take executor).finishRunning.noticeAll else p

def drain (executor : Executor S Req R) (p : Phase S Req R) : Phase S Req R :=
  let p := p.finishRunning.noticeAll
  p.drainQueue executor p.queue.length

/-- What a drained phase comes to: cancellation wins over any failure. -/
def verdict (p : Phase S Req R) (summary : Summary) : Except BatchError Summary :=
  if p.world.cancelled then .error .cancelled
  else
    match p.failure with
    | some error => .error error
    | none => .ok summary

structure End (S Req R : Type) where
  verdict : Except BatchError Summary
  tasks : List (Task Req R)
  world : World S
  /-- What the calls did, newest first. -/
  log : List (Event Req R)

def start (workers : Int64) (world : World S) (tasks : List (Task Req R)) : Phase S Req R :=
  let queue := jobs tasks
  { world, queue, workers := effectiveWorkers workers queue.length }

/-- Execute every pending task under a schedule. With nothing to execute the phase succeeds, even
in a cancelled batch; with something to execute, a cancelled batch makes no call. -/
def run (executor : Executor S Req R) (workers : Int64) (schedule : List Choice) (round : Nat)
    (world : World S) (tasks : List (Task Req R)) : End S Req R :=
  if (jobs tasks).isEmpty then ⟨.ok {}, tasks, world, []⟩
  else if world.cancelled then ⟨.error .cancelled, tasks, world, []⟩
  else
    let p := (schedule.foldl (act executor) (start workers world tasks)).drain executor
    let (tasks, summary) := deliverAll round tasks p.arrivals.reverse
    ⟨p.verdict summary, tasks, p.world, p.log⟩

end Phase

end TxBatch
