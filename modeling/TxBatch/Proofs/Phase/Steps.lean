import Mathlib.Logic.Relation
import TxBatch.Phase

/-!
# A phase as a run of small steps

A phase follows its schedule and is then drained by larger strides: calls run to their ends, all
dead workers are noticed at once, the queue is emptied job by job. Here every stride is taken apart
into small steps (`steps_drain`), so a fact that each step keeps holds of every phase that
`Phase.run` can leave, and no later proof looks at schedules or at the draining again.

At the end of it nobody runs and nobody lies dead unnoticed, and a job is left in the queue only
if no worker could take it (`drain_running`, `drain_unnoticed`, `drain_queue`).
-/

namespace TxBatch

namespace Phase

variable {S Req R : Type}

/-- What can happen next in a phase: a worker takes a job, a call makes a step or ends, or the
parent notices a dead worker. A choice that does not apply is no step. -/
inductive Step (executor : Executor S Req R) (p : Phase S Req R) : Phase S Req R → Prop
  | take {job : Job Req} {rest : List (Job Req)} (hqueue : p.queue = job :: rest)
      (htake : p.canTake = true) :
      Step executor p { p with
        queue := rest
        running := p.running ++ [(job, executor job.request job.version)]
        log := .started job :: p.log }
  | advance (place : Nat) {job : Job Req} {effect : World S → Effect S}
      {next : World S → Call S R} (hplace : p.running[place]? = some (job, .step effect next)) :
      Step executor p { p with
        running := p.running.set place (job, next p.world)
        world := p.world.apply (effect p.world) }
  | finish (place : Nat) {job : Job Req} {result : CallEnd R}
      (hplace : p.running[place]? = some (job, .finish result)) :
      Step executor p ({ p with running := p.running.eraseIdx place }.conclude job result)
  | notice (place : Nat) {error : BatchError} (hplace : p.unnoticed[place]? = some error) :
      Step executor p { p with
        unnoticed := p.unnoticed.eraseIdx place
        failure := p.failure.or (some error) }

abbrev Steps (executor : Executor S Req R) : Phase S Req R → Phase S Req R → Prop :=
  Relation.ReflTransGen (Step executor)

theorem Steps.invariant {executor : Executor S Req R} {inv : Phase S Req R → Prop}
    (hstep : ∀ {p q}, Step executor p q → inv p → inv q) {p q : Phase S Req R}
    (h : Steps executor p q) (hp : inv p) : inv q := by
  induction h with
  | refl => exact hp
  | tail _ hlast ih => exact hstep hlast ih

theorem steps_act (executor : Executor S Req R) (p : Phase S Req R) (choice : Choice) :
    Steps executor p (p.act executor choice) := by
  cases choice with
  | take =>
      simp only [act, Phase.take]
      split
      · exact .refl
      · rename_i job rest hqueue
        split
        · exact .single (.take hqueue ‹_›)
        · exact .refl
  | advance place =>
      simp only [act, Phase.advance]
      split
      · exact .refl
      · exact .single (.finish place ‹_›)
      · exact .single (.advance place ‹_›)
  | notice place =>
      simp only [act, Phase.notice]
      split
      · exact .refl
      · exact .single (.notice place ‹_›)

theorem steps_foldl (executor : Executor S Req R) (schedule : List Choice) :
    ∀ p, Steps executor p (schedule.foldl (act executor) p) := by
  induction schedule with
  | nil => exact fun p => .refl
  | cons choice rest ih => exact fun p => (steps_act executor p choice).trans (ih _)

/-! ## The end of a call

How a call ended matters to the log, the outcomes and the workers; who else runs does not. -/

theorem conclude_running (p : Phase S Req R) (job : Job Req) (result : CallEnd R)
    (running : List (Job Req × Call S R)) :
    { p with running }.conclude job result = { p.conclude job result with running } := by
  cases result <;> rfl

@[simp] theorem running_conclude (p : Phase S Req R) (job : Job Req) (result : CallEnd R) :
    (p.conclude job result).running = p.running := by
  cases result <;> rfl

@[simp] theorem queue_conclude (p : Phase S Req R) (job : Job Req) (result : CallEnd R) :
    (p.conclude job result).queue = p.queue := by
  cases result <;> rfl

@[simp] theorem world_conclude (p : Phase S Req R) (job : Job Req) (result : CallEnd R) :
    (p.conclude job result).world = p.world := by
  cases result <;> rfl

@[simp] theorem log_conclude (p : Phase S Req R) (job : Job Req) (result : CallEnd R) :
    (p.conclude job result).log = .ended job result :: p.log := by
  cases result <;> rfl

@[simp] theorem failure_conclude (p : Phase S Req R) (job : Job Req) (result : CallEnd R) :
    (p.conclude job result).failure = p.failure := by
  cases result <;> rfl

/-! ## Strides are steps -/

theorem steps_call (executor : Executor S Req R) (job : Job Req)
    (rest : List (Job Req × Call S R)) (call : Call S R) :
    ∀ p : Phase S Req R, Steps executor { p with running := (job, call) :: rest }
      ({ p with running := rest, world := (call.run p.world).2 }.conclude job
        (call.run p.world).1) := by
  induction call with
  | finish result =>
      intro p
      exact .single (.finish 0 (p := { p with running := (job, .finish result) :: rest }) rfl)
  | step effect next ih =>
      intro p
      have hrest := ih p.world { p with world := p.world.apply (effect p.world) }
      exact .head (.advance 0 (p := { p with running := (job, .step effect next) :: rest }) rfl) hrest

theorem finishRunning_cons (p : Phase S Req R) (job : Job Req) (call : Call S R)
    (rest : List (Job Req × Call S R)) :
    { p with running := (job, call) :: rest }.finishRunning =
      ({ p with running := rest, world := (call.run p.world).2 }.conclude job
        (call.run p.world).1).finishRunning := by
  simp only [finishRunning, List.foldl_cons]
  rcases call.run p.world with ⟨result, world⟩
  cases result <;> rfl

theorem steps_finishRunning (executor : Executor S Req R) (p : Phase S Req R) :
    Steps executor p p.finishRunning := by
  suffices h : ∀ (running : List (Job Req × Call S R)) (p : Phase S Req R),
      Steps executor { p with running } { p with running }.finishRunning from h p.running p
  intro running
  induction running with
  | nil => exact fun p => .refl
  | cons entry rest ih =>
      intro p
      obtain ⟨job, call⟩ := entry
      have hrest := ih ({ p with world := (call.run p.world).2 }.conclude job (call.run p.world).1)
      rw [← conclude_running] at hrest
      rw [finishRunning_cons]
      exact (steps_call executor job rest call p).trans hrest

theorem steps_noticeAll (executor : Executor S Req R) (p : Phase S Req R) :
    Steps executor p p.noticeAll := by
  suffices h : ∀ (unnoticed : List BatchError) (p : Phase S Req R),
      Steps executor { p with unnoticed } { p with unnoticed }.noticeAll from h p.unnoticed p
  intro unnoticed
  induction unnoticed with
  | nil =>
      intro p
      have hnone : { p with unnoticed := [] }.noticeAll = { p with unnoticed := [] } := by
        simp [noticeAll]
      rw [hnone]
  | cons error rest ih =>
      intro p
      have hrest := ih { p with failure := p.failure.or (some error) }
      have hsame : { p with failure := p.failure.or (some error), unnoticed := rest }.noticeAll =
          { p with unnoticed := error :: rest }.noticeAll := by
        cases p.failure <;> simp [noticeAll]
      rw [hsame] at hrest
      exact .head (.notice 0 (p := { p with unnoticed := error :: rest }) rfl) hrest

theorem steps_drainQueue (executor : Executor S Req R) (count : Nat) :
    ∀ p : Phase S Req R, Steps executor p (p.drainQueue executor count) := by
  induction count with
  | zero => exact fun p => .refl
  | succ count ih =>
      intro p
      unfold drainQueue
      split
      · exact (steps_act executor p .take).trans
          ((steps_finishRunning executor _).trans ((steps_noticeAll executor _).trans (ih _)))
      · exact .refl

theorem steps_drain (executor : Executor S Req R) (p : Phase S Req R) :
    Steps executor p (p.drain executor) :=
  (steps_finishRunning executor p).trans
    ((steps_noticeAll executor _).trans (steps_drainQueue executor _ _))

/-! ## What a drained phase has left -/

theorem finishRunning_left (p : Phase S Req R) :
    p.finishRunning.running = [] ∧ p.finishRunning.queue = p.queue := by
  suffices h : ∀ (running : List (Job Req × Call S R)) (p : Phase S Req R),
      { p with running }.finishRunning.running = [] ∧
        { p with running }.finishRunning.queue = p.queue from h p.running p
  intro running
  induction running with
  | nil => exact fun p => ⟨rfl, rfl⟩
  | cons entry rest ih =>
      intro p
      obtain ⟨job, call⟩ := entry
      have hrest := ih ({ p with world := (call.run p.world).2 }.conclude job (call.run p.world).1)
      rw [← conclude_running, queue_conclude] at hrest
      rw [finishRunning_cons]
      exact hrest

@[simp] theorem finishRunning_running (p : Phase S Req R) : p.finishRunning.running = [] :=
  (finishRunning_left p).1

@[simp] theorem finishRunning_queue (p : Phase S Req R) : p.finishRunning.queue = p.queue :=
  (finishRunning_left p).2

theorem drainQueue_idle (executor : Executor S Req R) (count : Nat) :
    ∀ p : Phase S Req R, p.running = [] → p.unnoticed = [] →
      (p.drainQueue executor count).running = [] ∧
        (p.drainQueue executor count).unnoticed = [] := by
  induction count with
  | zero => exact fun p hrun hun => ⟨hrun, hun⟩
  | succ count ih =>
      intro p hrun hun
      unfold drainQueue
      split
      · exact ih _ (by simp [noticeAll]) rfl
      · exact ⟨hrun, hun⟩

theorem drain_running (executor : Executor S Req R) (p : Phase S Req R) :
    (p.drain executor).running = [] :=
  (drainQueue_idle executor _ _ (by simp [noticeAll]) rfl).1

theorem drain_unnoticed (executor : Executor S Req R) (p : Phase S Req R) :
    (p.drain executor).unnoticed = [] :=
  (drainQueue_idle executor _ _ (by simp [noticeAll]) rfl).2

/-- The count of the draining is the length of the queue, so it never ends too early. -/
theorem drainQueue_queue (executor : Executor S Req R) (count : Nat) :
    ∀ p : Phase S Req R, p.queue.length ≤ count →
      (p.drainQueue executor count).queue = [] ∨
        (p.drainQueue executor count).canTake = false := by
  induction count with
  | zero => exact fun p hlen => Or.inl (List.eq_nil_of_length_eq_zero (Nat.le_zero.mp hlen))
  | succ count ih =>
      intro p hlen
      unfold drainQueue
      split
      case isTrue htake =>
          refine ih _ ?_
          cases hq : p.queue with
          | nil => simp [noticeAll, take, hq]
          | cons job rest =>
              rw [hq, List.length_cons] at hlen
              simp only [noticeAll, finishRunning_queue, take, hq, htake, if_true]
              omega
      case isFalse htake => exact Or.inr (by simpa using htake)

theorem drain_queue (executor : Executor S Req R) (p : Phase S Req R) :
    (p.drain executor).queue = [] ∨ (p.drain executor).canTake = false :=
  drainQueue_queue executor _ _ (by simp [noticeAll])

end Phase

end TxBatch
