import TxBatch.Config
import TxBatch.Metrics
import TxBatch.Phase
import TxBatch.Validator

/-! # Running a batch

A batch runs in rounds: execute the pending tasks, validate all tasks, send the reported ones back
at their next incarnation, until nothing is reported. What a run does not decide itself is its
environment: the order of events inside each round, whether somebody cancels the batch in front of
one, and how long things take.

Rounds and incarnations are counted in 32 bits; a run that would count further breaks off. So the
number of rounds left bounds the recursion, and no run goes on for ever.
-/

namespace TxBatch

inductive Halt where
  | failed (error : BatchError)
  /-- The run broke off: a counter overflowed, or a call crashed with nobody to catch it. -/
  | crashed
deriving Repr, DecidableEq

/-- The largest round number and the largest incarnation, one below 2³². -/
def counterMax : Nat := 4294967295

structure Report where
  transactions : Nat := 0
  rounds : Nat := 0
  /-- Executions that gave a response. -/
  executions : Nat := 0
  /-- Aborts signalled by executions. -/
  aborts : Nat := 0
  /-- Tasks sent back after validation. -/
  retries : Nat := 0
deriving Repr, DecidableEq

def Report.count (r : Report) (summary : Summary) : Report :=
  { r with
    executions := r.executions + summary.executed
    aborts := r.aborts + summary.aborted }

/-- What a run of a batch meets but does not decide. -/
structure Environment where
  /-- Order of events in the execution phase of a round. -/
  schedule : Nat → List Choice := fun _ => []
  /-- Whether the batch is cancelled from outside in front of a round. -/
  interrupts : Nat → Bool := fun _ => false
  roundMicros : Nat → Nat := fun _ => 0
  batchMicros : Nat := 0

instance : Inhabited Environment := ⟨{}⟩

namespace Environment

variable {S : Type}

/-- The world in which a round begins. -/
def enter (env : Environment) (round : Nat) (w : World S) : World S :=
  w.apply ⟨w.state, env.interrupts round⟩

@[simp] theorem enter_state (env : Environment) (round : Nat) (w : World S) :
    (env.enter round w).state = w.state := rfl

@[simp] theorem enter_cancelled (env : Environment) (round : Nat) (w : World S) :
    (env.enter round w).cancelled = (w.cancelled || env.interrupts round) := rfl

theorem enter_of_cancelled {w : World S} (h : w.cancelled = true) (env : Environment)
    (round : Nat) : env.enter round w = w := by
  obtain ⟨state, cancelled⟩ := w
  obtain rfl : cancelled = true := h
  rfl

theorem enter_of_interrupts {env : Environment} {round : Nat} (h : env.interrupts round = true)
    (w : World S) : env.enter round w = ⟨w.state, true⟩ := by
  simp [enter, World.apply, h]

theorem enter_open {env : Environment} {round : Nat} {w : World S} (hw : w.cancelled = false)
    (h : env.interrupts round = false) : (env.enter round w).cancelled = false := by
  simp [hw, h]

end Environment

/-- A batch between two rounds. -/
structure Batch (S Req R : Type) where
  world : World S
  tasks : List (Task Req R)
  report : Report
  metrics : Metrics
  /-- What the calls did, a list a round; the newest round and the newest event come first. -/
  log : List (List (Event Req R)) := []

def Batch.start {S Req R : Type} (metrics : Metrics) (world : World S) (requests : List Req) :
    Batch S Req R where
  world
  tasks := Task.ofRequests requests
  report := { transactions := requests.length }
  metrics

inductive RoundEnd (S Req R : Type) where
  /-- Tasks were sent back; another round is due. -/
  | again (batch : Batch S Req R)
  /-- Nothing is left to retry. -/
  | settled (batch : Batch S Req R)
  | halted (reason : Halt) (batch : Batch S Req R)

/-- How a batch ended: its responses or what kept it from them, and the batch as it was then. -/
structure BatchEnd (S Req R : Type) where
  result : Except Halt (List R)
  batch : Batch S Req R

structure Scheduler (S Req R : Type) where
  executor : Executor S Req R
  validator : Validator Req R
  config : Config := {}

namespace Scheduler

variable {S Req R : Type}

/-- A reported task waits again at its next incarnation. A validator may report a result without
having rejected it. -/
def sendBack (t : Task Req R) : Task Req R :=
  (if t.status = .aborted then t else t.move (.reject .requested)).move .retry

/-- Send the reported positions back, in the order of the report. The first one that is outside
the batch, or above the ceiling at its next incarnation, fails the batch. -/
def sendBackAll (config : Config) (tasks : List (Task Req R)) :
    List Nat → Except Halt (List (Task Req R))
  | [] => .ok tasks
  | index :: rest =>
    match tasks[index]? with
    | none => .error (.failed (.invalidIndex index))
    | some t =>
      let next := t.incarnation + 1
      if counterMax < next then .error .crashed
      else
        match config.exceeded? next with
        | some limit => .error (.failed (.incarnationLimitExceeded index next limit))
        | none => sendBackAll config (tasks.set index (sendBack t)) rest

/-- One round: execute, validate, send back. -/
def round (s : Scheduler S Req R) (env : Environment) (b : Batch S Req R) : RoundEnd S Req R :=
  let number := b.report.rounds + 1
  let phase :=
    Phase.run s.executor s.config.workers (env.schedule number) number (env.enter number b.world)
      b.tasks
  let b := { b with
    world := phase.world
    tasks := phase.tasks
    report := { b.report with rounds := number }
    log := phase.log :: b.log }
  match phase.verdict with
  | .error error => .halted (.failed error) b
  | .ok summary =>
    let (tasks, reported) := s.validator number b.tasks
    let b := { b with
      tasks
      report := b.report.count summary
      metrics := b.metrics.recordRound summary (env.roundMicros number) }
    if reported.isEmpty then .settled b
    else
      let b := { b with
        report := { b.report with retries := b.report.retries + reported.length }
        metrics := b.metrics.recordRetries reported.length }
      match sendBackAll s.config b.tasks reported with
      | .error reason => .halted reason b
      | .ok tasks => .again { b with tasks }

/-- Rounds until nothing is sent back, as long as the round counter has room for them. -/
def rounds (s : Scheduler S Req R) (env : Environment) :
    (left : Nat) → Batch S Req R → Except Halt Unit × Batch S Req R
  | 0, b => (.error .crashed, b)
  | left + 1, b =>
    match s.round env b with
    | .again b => rounds s env left b
    | .settled b => (.ok (), b)
    | .halted reason b => (.error reason, b)

def responses : List (Task Req R) → Except BatchError (List R)
  | [] => .ok []
  | t :: rest =>
    match t.response? with
    | none => .error (.missingResponse t.index)
    | some response => (responses rest).map (response :: ·)

/-- Run a batch, without counting it among the batches. -/
def execute (s : Scheduler S Req R) (env : Environment) (start : Batch S Req R) :
    BatchEnd S Req R :=
  match s.config.validate with
  | .error fault => ⟨.error (.failed (.invalidConfig fault)), start⟩
  | .ok () =>
    if start.tasks.isEmpty then ⟨.ok [], start⟩
    else
      match s.rounds env counterMax start with
      | (.error reason, b) => ⟨.error reason, b⟩
      | (.ok (), b) => ⟨(responses b.tasks).mapError .failed, b⟩

/-- Run a batch of requests and record its end. One response a request, in order; the batch fails
as a whole. A run that breaks off is not recorded. -/
def process (s : Scheduler S Req R) (env : Environment) (metrics : Metrics) (world : World S)
    (requests : List Req) : BatchEnd S Req R :=
  let ended := s.execute env (Batch.start metrics world requests)
  let record (succeeded : Bool) : BatchEnd S Req R :=
    { ended with batch := { ended.batch with
        metrics := ended.batch.metrics.recordBatch succeeded env.batchMicros } }
  match ended.result with
  | .ok _ => record true
  | .error (.failed _) => record false
  | .error .crashed => ended

end Scheduler

end TxBatch
