import TxBatch.Proofs.Phase.Blame
import TxBatch.Proofs.Phase.Image

/-!
# Who cancelled

That a batch is cancelled does not say by whom. So let the state remember the versions of the calls
that cancelled it (`Call.watched`); the calls do what they did before (`Call.watched_maps`). In a
phase that began with an open batch, the batch is cancelled exactly if somebody is remembered, and
each one remembered was called (`run_watching`).

A single worker takes nothing after a call that cancelled, failed or crashed, so such a call is the
last one that its phase began (`run_sole`).
-/

namespace TxBatch

variable {S Req R : Type}

/-- The call with a list beside its state, to which each step that cancels adds the version. -/
def Call.watched (version : Version) : Call S R → Call (S × List Version) R
  | .finish result => .finish result
  | .step effect next =>
    .step
      (fun w =>
        let e := effect (w.map Prod.fst)
        ⟨(e.state, if e.cancels then version :: w.state.2 else w.state.2), e.cancels⟩)
      (fun w => (next (w.map Prod.fst)).watched version)

theorem Call.watched_maps (version : Version) (call : Call S R) :
    Call.Maps Prod.fst (call.watched version) call := by
  induction call with
  | finish result => exact .finish result
  | step effect next ih => exact .step (fun _ => rfl) fun w => ih (w.map Prod.fst)

theorem Call.watched_step {version : Version} {original : Call S R}
    {effect : World (S × List Version) → Effect (S × List Version)}
    {next : World (S × List Version) → Call (S × List Version) R}
    (h : .step effect next = original.watched version) (w : World (S × List Version)) :
    (∃ rest : Call S R, next w = rest.watched version) ∧
      (effect w).state.2 = if (effect w).cancels then version :: w.state.2 else w.state.2 := by
  cases original with
  | finish result => cases h
  | step effect' next' =>
      cases h
      exact ⟨⟨_, rfl⟩, rfl⟩

def Executor.watched (executor : Executor S Req R) : Executor (S × List Version) Req R :=
  fun request version => (executor request version).watched version

namespace Phase

variable {executor : Executor S Req R} {p q : Phase (S × List Version) Req R}

/-- The batch is cancelled only by calls of the phase, and they are remembered. -/
structure Watching (p : Phase (S × List Version) Req R) : Prop where
  running : ∀ {job call}, (job, call) ∈ p.running →
    .started job ∈ p.log ∧ ∃ original : Call S R, call = original.watched job.version
  recorded : p.world.cancelled = true ↔ p.world.state.2 ≠ []
  begun : ∀ version ∈ p.world.state.2, ∃ job, .started job ∈ p.log ∧ job.version = version

theorem Watching.step (h : Step (Executor.watched executor) p q) (hp : Watching p) :
    Watching q := by
  cases h with
  | @take job rest hqueue htake =>
      refine ⟨?_, hp.recorded, ?_⟩
      · intro job' call hmem
        rcases List.mem_append.mp hmem with hmem | hmem
        · obtain ⟨hstarted, horiginal⟩ := hp.running hmem
          exact ⟨List.mem_cons_of_mem _ hstarted, horiginal⟩
        · obtain ⟨rfl, rfl⟩ := Prod.mk.inj (List.mem_singleton.mp hmem)
          exact ⟨List.mem_cons_self, _, rfl⟩
      · intro version hmem
        obtain ⟨job', hstarted, hversion⟩ := hp.begun version hmem
        exact ⟨job', List.mem_cons_of_mem _ hstarted, hversion⟩
  | @advance place job effect next hplace =>
      obtain ⟨hstarted, original, horiginal⟩ := hp.running (List.mem_of_getElem? hplace)
      obtain ⟨hrest, hstate⟩ := Call.watched_step horiginal p.world
      refine ⟨?_, ?_, ?_⟩
      · intro job' call hmem
        rcases List.mem_or_eq_of_mem_set hmem with hmem | heq
        · exact hp.running hmem
        · obtain ⟨rfl, rfl⟩ := Prod.mk.inj heq
          exact ⟨hstarted, hrest⟩
      · simp only [World.apply, hstate, Bool.or_eq_true, hp.recorded]
        cases (effect p.world).cancels <;> simp
      · intro version hmem
        simp only [World.apply, hstate] at hmem
        split at hmem
        · rcases List.mem_cons.mp hmem with rfl | hmem
          · exact ⟨job, hstarted, rfl⟩
          · exact hp.begun version hmem
        · exact hp.begun version hmem
  | @finish place job result hplace =>
      refine ⟨?_, ?_, ?_⟩
      · intro job' call hmem
        rw [running_conclude] at hmem
        obtain ⟨hstarted, horiginal⟩ := hp.running (List.mem_of_mem_eraseIdx hmem)
        rw [log_conclude]
        exact ⟨List.mem_cons_of_mem _ hstarted, horiginal⟩
      · rw [world_conclude]
        exact hp.recorded
      · intro version hmem
        rw [world_conclude] at hmem
        obtain ⟨job', hstarted, hversion⟩ := hp.begun version hmem
        rw [log_conclude]
        exact ⟨job', List.mem_cons_of_mem _ hstarted, hversion⟩
  | notice place hplace => exact ⟨hp.running, hp.recorded, hp.begun⟩

/-! ## One worker -/

theorem effectiveWorkers_one_le (pending : Nat) : effectiveWorkers 1 pending ≤ 1 :=
  Nat.min_le_left _ _

theorem workers_conclude (p : Phase S Req R) (job : Job Req) (result : CallEnd R) :
    (p.conclude job result).workers =
      if result.outcome?.isSome then p.workers else p.workers - 1 := by
  cases result <;> rfl

def newest? (log : List (Event Req R)) : Option (Job Req) := (log.filterMap Event.started?).head?

/-- Whoever is at work is the only one, and whoever cancelled, or died, was the last one. -/
structure Sole (p : Phase (S × List Version) Req R) : Prop extends Watching p where
  workers : p.workers ≤ 1
  seats : p.running.length ≤ p.workers
  newest : ∀ {job call}, (job, call) ∈ p.running → newest? p.log = some job
  cancelled : ∀ version ∈ p.world.state.2, ∃ job, newest? p.log = some job ∧ job.version = version
  lost : ∀ {job result}, .ended job result ∈ p.log → result.outcome? = none →
    p.workers = 0 ∧ newest? p.log = some job

/-- A free worker means that nobody is at work, nobody has cancelled and nobody has died. -/
theorem Sole.free (hp : Sole p) (htake : p.canTake = true) :
    p.running = [] ∧ p.world.state.2 = [] ∧ p.workers = 1 := by
  simp only [canTake, stopped_eq, Bool.and_eq_true, Bool.not_eq_true', Bool.or_eq_false_iff,
    decide_eq_true_eq] at htake
  obtain ⟨⟨hopen, -⟩, hseat⟩ := htake
  have hworkers := hp.workers
  refine ⟨List.eq_nil_of_length_eq_zero (by omega), ?_, by omega⟩
  by_contra hne
  cases (hp.recorded.mpr hne).symm.trans hopen

theorem Sole.finish {place : Nat} {job : Job Req} {result : CallEnd R} (hp : Sole p)
    (hplace : p.running[place]? = some (job, .finish result))
    (hwatching : Watching ({ p with running := p.running.eraseIdx place }.conclude job result)) :
    Sole ({ p with running := p.running.eraseIdx place }.conclude job result) := by
  have hnewest := hp.newest (List.mem_of_getElem? hplace)
  have hlen := (perm_cons_eraseIdx hplace).length_eq
  have hseats := hp.seats
  have hworkers := hp.workers
  rw [List.length_cons] at hlen
  have hsame : newest? ({ p with running := p.running.eraseIdx place }.conclude job
      result).log = newest? p.log := by
    rw [log_conclude]
    rfl
  refine ⟨hwatching, ?_, ?_, ?_, ?_, ?_⟩
  · rw [workers_conclude]
    split <;> dsimp only <;> omega
  · rw [workers_conclude, running_conclude]
    split <;> dsimp only <;> omega
  · intro job' call hmem
    rw [hsame]
    rw [running_conclude] at hmem
    exact hp.newest (List.mem_of_mem_eraseIdx hmem)
  · intro version hmem
    rw [hsame]
    rw [world_conclude] at hmem
    exact hp.cancelled version hmem
  · intro job' result' hmem hnone
    rw [hsame, workers_conclude]
    rw [log_conclude] at hmem
    rcases List.mem_cons.mp hmem with heq | hmem
    · cases heq
      rw [hnone]
      exact ⟨Nat.sub_eq_zero_of_le hworkers, hnewest⟩
    · have hdead := (hp.lost hmem hnone).1
      omega

theorem Sole.step (h : Step (Executor.watched executor) p q) (hp : Sole p) : Sole q := by
  have hwatching := hp.toWatching.step h
  cases h with
  | @take job rest hqueue htake =>
      obtain ⟨hidle, hnobody, hone⟩ := hp.free htake
      refine ⟨hwatching, hp.workers, ?_, ?_, ?_, ?_⟩
      · simp [hidle, hone]
      · intro job' call hmem
        rw [hidle, List.nil_append, List.mem_singleton] at hmem
        cases hmem
        rfl
      · intro version hmem
        rw [hnobody] at hmem
        cases hmem
      · intro job' result hmem hnone
        have hdead := (hp.lost (by simpa using hmem) hnone).1
        omega
  | @advance place job effect next hplace =>
      have hnewest := hp.newest (List.mem_of_getElem? hplace)
      obtain ⟨-, original, horiginal⟩ := hp.running (List.mem_of_getElem? hplace)
      obtain ⟨-, hstate⟩ := Call.watched_step horiginal p.world
      refine ⟨hwatching, hp.workers, ?_, ?_, ?_, hp.lost⟩
      · rw [List.length_set]
        exact hp.seats
      · intro job' call hmem
        rcases List.mem_or_eq_of_mem_set hmem with hmem | heq
        · exact hp.newest hmem
        · obtain ⟨rfl, -⟩ := Prod.mk.inj heq
          exact hnewest
      · intro version hmem
        simp only [World.apply, hstate] at hmem
        split at hmem
        · rcases List.mem_cons.mp hmem with rfl | hmem
          · exact ⟨job, hnewest, rfl⟩
          · exact hp.cancelled version hmem
        · exact hp.cancelled version hmem
  | finish place hplace => exact hp.finish hplace hwatching
  | notice place hplace =>
      exact ⟨hwatching, hp.workers, hp.seats, hp.newest, hp.cancelled, hp.lost⟩

/-! ## The whole phase -/

section Run

variable (executor : Executor S Req R) (workers : Int64) (schedule : List Choice) (round : Nat)
  {world : World (S × List Version)} (tasks : List (Task Req R))
  (hworld : world.cancelled = false) (hnobody : world.state.2 = [])

include hworld hnobody

theorem watching_start : Watching (start workers world tasks) where
  running := fun hmem => (List.not_mem_nil hmem).elim
  recorded := by simp [start, hworld, hnobody]
  begun := fun version hmem => by
    rw [show (start workers world tasks).world.state.2 = [] from hnobody] at hmem
    cases hmem

theorem watching_last :
    Watching (last (Executor.watched executor) workers schedule world tasks) :=
  (steps_last ..).invariant Watching.step (watching_start workers tasks hworld hnobody)

/-- A phase that began with an open batch was cancelled by the calls that are remembered. -/
theorem run_watching :
    let ended := run (Executor.watched executor) workers schedule round world tasks
    (ended.world.cancelled = true ↔ ended.world.state.2 ≠ []) ∧
      ∀ version ∈ ended.world.state.2, ∃ job, .started job ∈ ended.log ∧ job.version = version := by
  refine run_induct (Executor.watched executor) workers schedule round world tasks
    (P := fun e => (e.world.cancelled = true ↔ e.world.state.2 ≠ []) ∧
      ∀ version ∈ e.world.state.2, ∃ job, .started job ∈ e.log ∧ job.version = version)
    (fun _ => ⟨by simp [hworld, hnobody], fun version hmem => ?_⟩) fun _ _ => ?_
  · rw [hnobody] at hmem
    cases hmem
  · have hlast := watching_last executor workers schedule tasks hworld hnobody
    exact ⟨hlast.recorded, hlast.begun⟩

/-- A single worker begins no call after one that cancelled, failed or crashed. -/
theorem run_sole (hworkers : effectiveWorkers workers (jobs tasks).length ≤ 1) :
    let ended := run (Executor.watched executor) workers schedule round world tasks
    (∀ version ∈ ended.world.state.2, ∃ job, newest? ended.log = some job ∧
      job.version = version) ∧
    ∀ {job result}, .ended job result ∈ ended.log → result.outcome? = none →
      newest? ended.log = some job := by
  refine run_induct (Executor.watched executor) workers schedule round world tasks
    (P := fun e => (∀ version ∈ e.world.state.2, ∃ job, newest? e.log = some job ∧
        job.version = version) ∧
      ∀ {job result}, .ended job result ∈ e.log → result.outcome? = none →
        newest? e.log = some job)
    (fun _ => ⟨fun version hmem => ?_, fun hmem => (List.not_mem_nil hmem).elim⟩) fun _ _ => ?_
  · rw [hnobody] at hmem
    cases hmem
  · have hstart : Sole (start workers world tasks) :=
      { watching_start workers tasks hworld hnobody with
        workers := hworkers
        seats := Nat.zero_le _
        newest := fun hmem => (List.not_mem_nil hmem).elim
        cancelled := fun version hmem => by
          rw [show (start workers world tasks).world.state.2 = [] from hnobody] at hmem
          cases hmem
        lost := fun hmem => (List.not_mem_nil hmem).elim }
    have hlast : Sole (last (Executor.watched executor) workers schedule world tasks) :=
      (steps_last ..).invariant Sole.step hstart
    exact ⟨hlast.cancelled, fun hmem hnone => (hlast.lost hmem hnone).2⟩

end Run

end Phase

end TxBatch
