import TxBatch.Phase

/-! # The parties of an execution phase

`TxBatch.Phase` says in which order things can happen in a phase. Here are the parties that bring
it about. A producer sends the jobs one by one into a bounded queue; each worker takes a job from
it, runs the call, and reports the outcome into a second bounded queue; the parent joins whoever
has ended, and closes the scope under which all of them work when it meets the first error. Queues
lose nothing and keep their order.

A party moves when it can and waits otherwise, so a move is a partial function on states, and a
phase is stuck where no party can move although one has not been joined. Every job is in one place
at a time: not sent, queued, held by a worker, reported, or spent by a call that gave no outcome.
-/

namespace TxBatch

inductive Producer where
  | sending
  /-- Gone, with the error it met, and not joined yet. The queue of jobs is closed. -/
  | ended (error : Option BatchError)
  | joined
deriving Repr, DecidableEq

inductive Worker (S Req R : Type) where
  | idle
  | calling (job : Job Req) (call : Call S R)
  /-- Has the outcome of a call in hand. -/
  | reporting (job : Job Req) (outcome : Outcome R)
  /-- Gone, with the error it met, and not joined yet. -/
  | ended (error : Option BatchError)
  | joined

/-- The jobs that a worker holds: one at most. -/
def Worker.held {S Req R : Type} : Worker S Req R → List (Job Req)
  | .calling job _ => [job]
  | .reporting job _ => [job]
  | .idle | .ended _ | .joined => []

/-- A phase as its parties see it. -/
structure Protocol (S Req R : Type) where
  world : World S
  /-- Jobs that the producer still has. -/
  unsent : List (Job Req)
  /-- Jobs on their way to a worker, oldest first. -/
  queue : List (Job Req) := []
  /-- Room in the queue of jobs. -/
  queueRoom : Nat
  /-- Outcomes on their way to the parent, oldest first. -/
  outcomes : List (Job Req × Outcome R) := []
  /-- Room in the queue of outcomes. -/
  outcomeRoom : Nat
  /-- Jobs whose calls failed or crashed. -/
  spent : List (Job Req) := []
  producer : Producer := .sending
  workers : List (Worker S Req R)
  /-- The parent has closed the scope. -/
  closed : Bool := false
  /-- The first error that the parent met. -/
  failure : Option BatchError := none

inductive Protocol.Party where
  | producer
  | worker (place : Nat)
  /-- The parent joins the producer. -/
  | joinProducer
  /-- The parent joins a worker. -/
  | joinWorker (place : Nat)
deriving Repr, DecidableEq

namespace Protocol

variable {S Req R : Type}

/-- The parties of a phase that executes the pending tasks, before any of them has moved. The queue
of jobs has room for one job a worker, that of outcomes for one outcome a job. -/
def start (workers : Int64) (world : World S) (tasks : List (Task Req R)) : Protocol S Req R :=
  let unsent := jobs tasks
  let count := effectiveWorkers workers unsent.length
  { world, unsent
    queueRoom := count
    outcomeRoom := unsent.length
    workers := List.replicate count .idle }

/-- Whoever looks at the scope now gives up: the batch was cancelled, or the parent closed it. -/
def scopeCancelled (p : Protocol S Req R) : Bool := Scopes.innerCancelled p.world.cancelled p.closed

theorem scopeCancelled_eq (p : Protocol S Req R) :
    p.scopeCancelled = (p.world.cancelled || p.closed) :=
  Scopes.innerCancelled_eq ..

theorem scopeCancelled_iff {p : Protocol S Req R} :
    p.scopeCancelled = true ↔ p.world.cancelled = true ∨ p.closed = true := by
  rw [scopeCancelled_eq, Bool.or_eq_true]

theorem scopeCancelled_eq_false_iff {p : Protocol S Req R} :
    p.scopeCancelled = false ↔ p.world.cancelled = false ∧ p.closed = false := by
  rw [scopeCancelled_eq, Bool.or_eq_false_iff]

/-- The producer sends the next job, if there is room, or ends. It looks at the scope while it has
jobs left. -/
def produce? (p : Protocol S Req R) : Option (Protocol S Req R) :=
  match p.producer with
  | .sending =>
    match p.unsent with
    | [] => some { p with producer := .ended none }
    | job :: rest =>
      if p.scopeCancelled then some { p with producer := .ended (some .cancelled) }
      else if p.queue.length < p.queueRoom then
        some { p with unsent := rest, queue := p.queue ++ [job] }
      else none
  | .ended _ => none
  | .joined => none

def setWorker (p : Protocol S Req R) (place : Nat) (w : Worker S Req R) : Protocol S Req R :=
  { p with workers := p.workers.set place w }

/-- A worker whose call has ended: with an outcome to report, or gone with the job spent. -/
def endCall (p : Protocol S Req R) (place : Nat) (job : Job Req) (result : CallEnd R) :
    Protocol S Req R :=
  let die (error : BatchError) : Protocol S Req R :=
    { p.setWorker place (.ended (some error)) with spent := p.spent ++ [job] }
  match result with
  | .returned response => p.setWorker place (.reporting job (.executed response))
  | .aborted signal => p.setWorker place (.reporting job (.aborted signal))
  | .failed reason =>
    die (.executionFailed job.version.index job.version.incarnation reason)
  | .crashed report => die (.workerCrashed report)

/-- A worker makes its next move. It looks at the scope only between jobs, so a call that has begun
runs to its end. -/
def work? (executor : Executor S Req R) (p : Protocol S Req R) (place : Nat) :
    Option (Protocol S Req R) :=
  match p.workers[place]? with
  | some .idle =>
    if p.scopeCancelled then some (p.setWorker place (.ended (some .cancelled)))
    else
      match p.queue with
      | job :: rest =>
        some { p.setWorker place (.calling job (executor job.request job.version)) with
          queue := rest }
      | [] => if p.producer = .sending then none else some (p.setWorker place (.ended none))
  | some (.calling job (.finish result)) => some (p.endCall place job result)
  | some (.calling job (.step effect next)) =>
    some { p.setWorker place (.calling job (next p.world)) with
      world := p.world.apply (effect p.world) }
  | some (.reporting job outcome) =>
    if p.outcomes.length < p.outcomeRoom then
      some { p.setWorker place .idle with outcomes := p.outcomes ++ [(job, outcome)] }
    else none
  | some (.ended _) => none
  | some .joined => none
  | none => none

/-- The parent hears how a party ended. The first error closes the scope and is the one kept. -/
def hear (p : Protocol S Req R) (error : Option BatchError) : Protocol S Req R :=
  { p with closed := p.closed || error.isSome, failure := p.failure.or error }

def joinProducer? (p : Protocol S Req R) : Option (Protocol S Req R) :=
  match p.producer with
  | .ended error => some { p.hear error with producer := .joined }
  | .sending => none
  | .joined => none

def joinWorker? (p : Protocol S Req R) (place : Nat) : Option (Protocol S Req R) :=
  match p.workers[place]? with
  | some (.ended error) => some ((p.hear error).setWorker place .joined)
  | _ => none

def move? (executor : Executor S Req R) (p : Protocol S Req R) :
    Party → Option (Protocol S Req R)
  | .producer => p.produce?
  | .worker place => p.work? executor place
  | .joinProducer => p.joinProducer?
  | .joinWorker place => p.joinWorker? place

/-- What can come after a start, by any interleaving. -/
inductive Reachable (executor : Executor S Req R) (first : Protocol S Req R) :
    Protocol S Req R → Prop
  | start : Reachable executor first first
  | move {p q : Protocol S Req R} (party : Party) :
      Reachable executor first p → p.move? executor party = some q →
        Reachable executor first q

def finished (p : Protocol S Req R) : Prop :=
  p.producer = .joined ∧ ∀ w ∈ p.workers, w = .joined

/-- No party can move although one is not joined. -/
def stuck (executor : Executor S Req R) (p : Protocol S Req R) : Prop :=
  ¬p.finished ∧ ∀ party, p.move? executor party = none

/-- Every place that a job can be in, in the order in which jobs pass them. -/
def places (p : Protocol S Req R) : List (Job Req) :=
  p.unsent ++ (p.queue ++ (p.workers.flatMap Worker.held ++ (p.outcomes.map (·.1) ++ p.spent)))

/-- The outcomes that the parent finds at the end, in order of arrival. -/
def arrivals (p : Protocol S Req R) : List (Arrival R) :=
  p.outcomes.map fun (job, outcome) => ⟨job.slot, job.version, outcome⟩

/-- What the phase comes to. The parent knows of a cancellation from the batch itself, and prefers
it to whatever error it met first. -/
def verdict (p : Protocol S Req R) (summary : Summary) : Except BatchError Summary :=
  match p.failure with
  | none => .ok summary
  | some error => if p.world.cancelled then .error .cancelled else .error error

theorem places_start (workers : Int64) (world : World S) (tasks : List (Task Req R)) :
    (start workers world tasks).places = jobs tasks := by
  simp [start, places, Worker.held]

/-- With work to do there is a worker, so both queues have room for something. -/
theorem effectiveWorkers_pos {workers : Int64} {pending : Nat} (h : 0 < pending) :
    0 < effectiveWorkers workers pending := by
  unfold effectiveWorkers
  split
  · exact h
  · rename_i hw
    have : 1 ≤ workers.toInt := Int.not_lt.1 fun h => hw (Int64.lt_iff_toInt_lt.2 h)
    omega

end Protocol

end TxBatch
