import Mathlib.Logic.Hydra
import TxBatch.Proofs.Phase.Course

/-!
# Phases come to their end

While a party of a phase is not joined some party can move, so no phase gets stuck
(`Protocol.Course.not_stuck`), and none goes on forever: an event brings a party nearer to its end or
a call nearer to its own (`Protocol.wellFounded_happens`). So every phase ends with all parties
joined; and if nothing has gone wrong on the way, every job has an outcome then
(`Stocked.complete`).
-/

namespace TxBatch

variable {S Req R : Type}

namespace Protocol

variable {executor : Executor S Req R} {p q : Protocol S Req R} {all : List (Job Req)}
  {staff place : Nat}

/-! ## Nobody waits forever -/

theorem exists_idle_move (executor : Executor S Req R) (h : p.workers[place]? = some .idle)
    (hready : p.scopeCancelled = true ∨ p.queue ≠ [] ∨ p.producer ≠ .sending) :
    ∃ q, p.work? executor place = some q := by
  simp only [work?, h]
  split
  · exact ⟨_, rfl⟩
  · rename_i hscope
    split
    · exact ⟨_, rfl⟩
    · rename_i hqueue
      have hsent := (hready.resolve_left hscope).resolve_left fun hne => hne hqueue
      exact ⟨_, if_neg hsent⟩

theorem exists_calling_move {job : Job Req} {call : Call S R}
    (h : p.workers[place]? = some (.calling job call)) : ∃ q, p.work? executor place = some q := by
  cases call <;> simp only [work?, h] <;> exact ⟨_, rfl⟩

/-- The outcomes do not fill their queue while one is missing. -/
theorem Stocked.outcomes_lt (hp : Stocked all staff p) {w : Worker S Req R} (hw : w ∈ p.workers)
    (hheld : w.held ≠ []) : p.outcomes.length < p.outcomeRoom := by
  obtain ⟨job, hjob⟩ := List.exists_mem_of_ne_nil _ hheld
  have hpos : 0 < (p.workers.flatMap Worker.held).length :=
    List.length_pos_of_mem (List.mem_flatMap.mpr ⟨w, hw, hjob⟩)
  have hlength := hp.places.length_eq
  simp only [Protocol.places, List.length_append, List.length_map] at hlength
  rw [hp.outcomeRoom]
  omega

theorem Stocked.exists_reporting_move (hp : Stocked all staff p) {job : Job Req}
    {outcome : Outcome R} (h : p.workers[place]? = some (.reporting job outcome)) :
    ∃ q, p.work? executor place = some q := by
  have hroom := hp.outcomes_lt (List.mem_of_getElem? h) (List.cons_ne_nil job [])
  simp only [work?, h, if_pos hroom]
  exact ⟨_, rfl⟩

/-- A party that is under way can move, whatever the others do. -/
theorem Stocked.exists_busy_move (hp : Stocked all staff p) {w : Worker S Req R}
    (hw : w ∈ p.workers) (hidle : w ≠ .idle) (hjoined : w ≠ .joined) :
    ∃ party q, p.move? executor party = some q ∧ party ≠ .producer := by
  obtain ⟨place, hplace⟩ := List.getElem?_of_mem hw
  cases w with
  | idle => exact absurd rfl hidle
  | calling job call =>
      obtain ⟨q, hq⟩ := exists_calling_move hplace
      exact ⟨.worker place, q, hq, fun h => by cases h⟩
  | reporting job outcome =>
      obtain ⟨q, hq⟩ := hp.exists_reporting_move hplace
      exact ⟨.worker place, q, hq, fun h => by cases h⟩
  | ended error =>
      obtain ⟨q, hq⟩ : ∃ q, p.joinWorker? place = some q := by
        simp only [joinWorker?, hplace]
        exact ⟨_, rfl⟩
      exact ⟨.joinWorker place, q, hq, fun h => by cases h⟩
  | joined => exact absurd rfl hjoined

theorem exists_produce (hproducer : p.producer = .sending) (hroom : p.queue.length < p.queueRoom) :
    ∃ q, p.produce? = some q := by
  simp only [produce?, hproducer, if_pos hroom]
  split
  · exact ⟨_, rfl⟩
  · split
    · exact ⟨_, rfl⟩
    · exact ⟨_, rfl⟩

/-- The producer does not wait for room under a cancelled scope; it gives up. -/
theorem exists_produce_of_scopeCancelled (hproducer : p.producer = .sending)
    (hscope : p.scopeCancelled = true) : ∃ q, p.produce? = some q ∧ q.producer ≠ .sending := by
  simp only [produce?, hproducer, hscope, if_true]
  split
  · exact ⟨_, rfl, fun h => by cases h⟩
  · exact ⟨_, rfl, fun h => by cases h⟩

/-- While a party is not joined, some party can move. And the producer is called upon to send a job
only as long as there is a worker to receive it. -/
theorem exists_move (executor : Executor S Req R) (hstocked : Stocked all staff p)
    (hstaff : 0 < staff) (horderly : Orderly p) (hfinished : ¬p.finished) :
    ∃ party q, p.move? executor party = some q ∧
      (party = .producer → q.producer = .sending → ∃ w ∈ p.workers, w.present = true) := by
  by_cases hbusy : ∃ w ∈ p.workers, w ≠ .idle ∧ w ≠ .joined
  · obtain ⟨w, hw, hidle, hjoined⟩ := hbusy
    obtain ⟨party, q, hmove, hother⟩ := hstocked.exists_busy_move hw hidle hjoined
    exact ⟨party, q, hmove, fun heq => absurd heq hother⟩
  · have hquiet : ∀ w ∈ p.workers, w = .idle ∨ w = .joined := fun w hw =>
      or_iff_not_imp_left.mpr fun hidle => by_contra fun hjoined => hbusy ⟨w, hw, hidle, hjoined⟩
    by_cases hidle : .idle ∈ p.workers
    · by_cases hready : p.scopeCancelled = true ∨ p.queue ≠ [] ∨ p.producer ≠ .sending
      · obtain ⟨place, hplace⟩ := List.getElem?_of_mem hidle
        obtain ⟨q, hq⟩ := exists_idle_move executor hplace hready
        exact ⟨.worker place, q, hq, fun h => by cases h⟩
      · -- Whoever is left waits for a job, so the queue is empty and the producer can send.
        obtain ⟨-, hnot⟩ := not_or.mp hready
        obtain ⟨hqueue, hsent⟩ := not_or.mp hnot
        have hroom : p.queue.length < p.queueRoom := by
          rw [not_not.mp hqueue, hstocked.queueRoom]
          exact hstaff
        obtain ⟨q, hq⟩ := exists_produce (not_not.mp hsent) hroom
        exact ⟨.producer, q, hq, fun _ _ => ⟨_, hidle, rfl⟩⟩
    · -- Nobody is left to receive, and the parent knows why.
      have hjoined : ∀ w ∈ p.workers, w = .joined := fun w hw =>
        (hquiet w hw).resolve_left fun h => hidle (h ▸ hw)
      cases hproducer : p.producer with
      | joined => exact absurd ⟨hproducer, hjoined⟩ hfinished
      | ended error =>
          obtain ⟨q, hq⟩ : ∃ q, p.joinProducer? = some q := by
            simp only [joinProducer?, hproducer]
            exact ⟨_, rfl⟩
          exact ⟨.joinProducer, q, hq, fun h => by cases h⟩
      | sending =>
          obtain ⟨w, hw⟩ := List.exists_mem_of_length_pos (hstocked.workers ▸ hstaff)
          have hover : p.Over := by
            have hexcused := horderly.workers w hw
            rw [hjoined w hw] at hexcused
            exact hexcused
          have hclosed := hover.resolve_right fun hsent => hsent.1 hproducer
          have hscope : p.scopeCancelled = true := scopeCancelled_iff.mpr (.inr hclosed)
          obtain ⟨q, hq, hgone⟩ := exists_produce_of_scopeCancelled hproducer hscope
          exact ⟨.producer, q, hq, fun _ hsending => absurd hsending hgone⟩

theorem Stocked.complete (hp : Stocked all staff p) (hstaff : 0 < staff) (horderly : Orderly p)
    (hfinished : p.finished) (hcalm : ¬p.Disturbed) :
    (p.outcomes.map (·.1)).Perm all ∧ p.failure = none := by
  obtain ⟨hproducer, hjoined⟩ := hfinished
  have hclosed : ¬p.closed = true := fun h => hcalm (horderly.closed h)
  have hunsent : p.unsent = [] :=
    (horderly.unsent fun h => by cases hproducer.symm.trans h).resolve_right hcalm
  obtain ⟨w, hw⟩ := List.exists_mem_of_length_pos (hp.workers ▸ hstaff)
  have hover : p.Over := by
    have hexcused := horderly.workers w hw
    rw [hjoined w hw] at hexcused
    exact hexcused
  have hqueue : p.queue = [] := (hover.resolve_left hclosed).2
  have hheld : p.workers.flatMap Worker.held = [] :=
    List.flatMap_eq_nil_iff.mpr fun w hw => by rw [hjoined w hw]; rfl
  have hspent : p.spent = [] := by_contra fun h => hcalm (.inr h)
  refine ⟨?_, ?_⟩
  · have hplaces := hp.places
    rw [Protocol.places, hunsent, hqueue, hheld, hspent] at hplaces
    simpa using hplaces
  · cases hfailure : p.failure with
    | none => rfl
    | some error => exact absurd (by rw [horderly.failure, hfailure]; rfl) hclosed

end Protocol

/-! ## No phase goes on forever -/

/-- A call comes before another one that may be left of it after a step. -/
inductive Call.Next : Call S R → Call S R → Prop
  | step (effect : World S → Effect S) (next : World S → Call S R) (w : World S) :
      Next (next w) (.step effect next)

theorem Call.wellFounded_next : WellFounded (Call.Next : Call S R → Call S R → Prop) := by
  refine ⟨fun call => ?_⟩
  induction call with
  | finish result => exact ⟨_, fun _ h => by cases h⟩
  | step effect next ih =>
      refine ⟨_, fun _ h => ?_⟩
      cases h with
      | step _ _ w => exact ih w

/-- How far a worker is from being joined, not counting the steps of its call. -/
def Worker.ahead : Worker S Req R → Nat
  | .calling _ _ => 4
  | .reporting _ _ => 3
  | .idle => 2
  | .ended _ => 1
  | .joined => 0

/-- The call that a worker has begun and not ended. -/
def Worker.call? : Worker S Req R → Option (Call S R)
  | .calling _ call => some call
  | .reporting _ _ => none
  | .idle => none
  | .ended _ => none
  | .joined => none

def Producer.ahead : Producer → Nat
  | .sending => 2
  | .ended _ => 1
  | .joined => 0

namespace Protocol

variable {executor : Executor S Req R} {p q : Protocol S Req R} {place : Nat}

/-- How far a phase is from its end, not counting the steps of calls. A job that is taken brings a
worker back, so it counts for more than the worker gains by it. -/
def ahead (p : Protocol S Req R) : Nat :=
  4 * p.unsent.length + 3 * p.queue.length + (p.workers.map Worker.ahead).sum + p.producer.ahead +
    (!p.world.cancelled).toNat

/-- The calls under way. -/
def calls (p : Protocol S Req R) : Multiset (Call S R) := p.workers.filterMap Worker.call?

/-- Nearer to the end: some party is, or a call is and the parties are where they were. -/
def Nearer (q p : Protocol S Req R) : Prop :=
  Prod.Lex (· < ·) (Relation.CutExpand Call.Next) (q.ahead, q.calls) (p.ahead, p.calls)

theorem wellFounded_nearer : WellFounded (Nearer : Protocol S Req R → Protocol S Req R → Prop) :=
  InvImage.wf (fun p : Protocol S Req R => (p.ahead, p.calls))
    (WellFounded.prod_lex Nat.lt_wfRel.wf Call.wellFounded_next.cutExpand)

/-- A worker moves, and what that takes from the queue and leaves to the worker decides whether the
phase gets nearer to its end. -/
theorem ahead_worker {w w' : Worker S Req R} (hworker : p.workers[place]? = some w)
    (hworkers : q.workers = p.workers.set place w') (hunsent : q.unsent = p.unsent)
    (hproducer : q.producer = p.producer)
    (hworld : p.world.cancelled = true → q.world.cancelled = true) :
    q.ahead + (3 * p.queue.length + w.ahead) ≤ p.ahead + (3 * q.queue.length + w'.ahead) := by
  obtain ⟨rest, hperm, hperm'⟩ := perm_set hworker w'
  have hold : (p.workers.map Worker.ahead).sum = w.ahead + (rest.map Worker.ahead).sum :=
    (hperm.map _).sum_eq
  have hnew : (q.workers.map Worker.ahead).sum = w'.ahead + (rest.map Worker.ahead).sum := by
    rw [hworkers]
    exact (hperm'.map _).sum_eq
  have hopen : (!q.world.cancelled).toNat ≤ (!p.world.cancelled).toNat := by
    cases hp : p.world.cancelled with
    | false => exact Bool.toNat_le _
    | true => rw [hworld hp]
  rw [ahead, ahead, hunsent, hproducer, hold, hnew]
  omega

theorem calls_step {job : Job Req} {effect : World S → Effect S} {next : World S → Call S R}
    (hworker : p.workers[place]? = some (.calling job (.step effect next))) {w : World S}
    (hworkers : q.workers = p.workers.set place (.calling job (next w))) :
    Relation.CutExpand Call.Next q.calls p.calls := by
  obtain ⟨rest, hperm, hperm'⟩ := perm_set hworker (.calling job (next w))
  rw [← hworkers] at hperm'
  have hold : p.calls = {.step effect next} + ↑(rest.filterMap Worker.call?) :=
    Multiset.coe_eq_coe.mpr (hperm.filterMap Worker.call?)
  have hnew : q.calls = {next w} + ↑(rest.filterMap Worker.call?) :=
    Multiset.coe_eq_coe.mpr (hperm'.filterMap Worker.call?)
  rw [hold, hnew]
  exact (Relation.cutExpand_add_right _).mpr
    (Relation.cutExpand_singleton_singleton (.step effect next w))

theorem nearer_worker {w w' : Worker S Req R} (hworker : p.workers[place]? = some w)
    (hworkers : q.workers = p.workers.set place w') (hunsent : q.unsent = p.unsent)
    (hproducer : q.producer = p.producer) (hworld : q.world = p.world)
    (hless : 3 * q.queue.length + w'.ahead < 3 * p.queue.length + w.ahead) : Nearer q p := by
  have hle := ahead_worker hworker hworkers hunsent hproducer fun h => hworld ▸ h
  exact .left _ _ (by omega)

theorem Moved.nearer (h : Moved executor p q) : Nearer q p := by
  cases h with
  | send hproducer hscope hunsent hroom =>
      refine .left _ _ ?_
      simp only [ahead, hunsent, List.length_append, List.length_cons, List.length_nil]
      omega
  | close hproducer hends =>
      refine .left _ _ ?_
      simp [ahead, hproducer, Producer.ahead]
  | take hworker hscope hqueue =>
      refine nearer_worker hworker rfl rfl rfl rfl ?_
      simp only [hqueue, List.length_cons, Worker.ahead]
      omega
  | leave hworker hends =>
      exact nearer_worker hworker rfl rfl rfl rfl (Nat.add_lt_add_left (by decide : 1 < 2) _)
  | @step place job effect next hworker =>
      have hle := ahead_worker (q := { p.setWorker place (.calling job (next p.world)) with
        world := p.world.apply (effect p.world) }) hworker rfl rfl rfl fun hcancelled => by
          simp [World.apply, hcancelled]
      -- A step that cancels the batch counts by itself; any other one brings its call on.
      rcases Nat.lt_or_eq_of_le (Nat.le_of_add_le_add_right hle) with hlt | heq
      · exact .left _ _ hlt
      · rw [Nearer, heq]
        exact .right _ (calls_step hworker rfl)
  | finish hworker houtcome =>
      exact nearer_worker hworker rfl rfl rfl rfl (Nat.add_lt_add_left (by decide : 3 < 4) _)
  | lose hworker herror =>
      exact nearer_worker hworker rfl rfl rfl rfl (Nat.add_lt_add_left (by decide : 1 < 4) _)
  | report hworker hroom =>
      exact nearer_worker hworker rfl rfl rfl rfl (Nat.add_lt_add_left (by decide : 2 < 3) _)
  | joinProducer hproducer =>
      refine .left _ _ ?_
      simp [ahead, hear, hproducer, Producer.ahead]
  | joinWorker hworker =>
      exact nearer_worker hworker rfl rfl rfl rfl (Nat.add_lt_add_left (by decide : 0 < 1) _)

theorem Happens.nearer {job? : Option (Job Req)} (h : Happens executor p job? q) : Nearer q p := by
  cases h with
  | move party hmove => exact (moved_of_move? hmove).nearer
  | desert hproducer hunsent hgone =>
      refine .left _ _ ?_
      simp [ahead, hproducer, Producer.ahead]
  | cancel hopen =>
      refine .left _ _ ?_
      simp [ahead, Protocol.cancel, hopen]

/-- **No phase goes on forever.** -/
theorem wellFounded_happens (executor : Executor S Req R) :
    WellFounded fun q p : Protocol S Req R => ∃ job?, Happens executor p job? q :=
  Subrelation.wf (fun ⟨_, h⟩ => h.nearer) wellFounded_nearer

/-! ## What a phase comes to -/

section Course

variable {workers : Int64} {world : World S} {tasks : List (Task Req R)}
  {started : List (Job Req)}

theorem Course.exists_move (hjobs : jobs tasks ≠ [])
    (h : Course executor (Protocol.start workers world tasks) started p) (hfinished : ¬p.finished) :
    ∃ party q, p.move? executor party = some q ∧
      (party = .producer → q.producer = .sending → ∃ w ∈ p.workers, w.present = true) := by
  obtain ⟨hstocked, horderly⟩ := h.orderly hjobs
  exact Protocol.exists_move executor hstocked (effectiveWorkers_jobs_pos workers hjobs) horderly
    hfinished

/-- **No phase gets stuck.** -/
theorem Course.not_stuck (hjobs : jobs tasks ≠ [])
    (h : Course executor (Protocol.start workers world tasks) started p) : ¬p.stuck executor := by
  rintro ⟨hfinished, hnone⟩
  obtain ⟨party, q, hmove, -⟩ := h.exists_move hjobs hfinished
  cases (hnone party).symm.trans hmove

/-- The parties can always bring the phase to its end. -/
theorem Course.exists_finished (hjobs : jobs tasks ≠ [])
    (h : Course executor (Protocol.start workers world tasks) started p) :
    ∃ more last, Course executor (Protocol.start workers world tasks) (started ++ more) last ∧
      last.finished := by
  induction p using (wellFounded_happens executor).induction generalizing started with
  | _ p ih =>
      by_cases hfinished : p.finished
      · exact ⟨[], p, by rwa [List.append_nil], hfinished⟩
      · obtain ⟨party, q, hmove, -⟩ := h.exists_move hjobs hfinished
        have hhappens : Happens executor p (p.begins party) q := .move party hmove
        obtain ⟨more, last, hlast, hend⟩ := ih q ⟨_, hhappens⟩ (.happens h hhappens)
        exact ⟨(p.begins party).toList ++ more, last, by rwa [← List.append_assoc], hend⟩

/-- What holds of a phase at any time, whatever has happened in it. `all` are its jobs, `staff` is
the number of its workers, and `started` are the jobs whose calls have begun. -/
structure Lossless (executor : Executor S Req R) (all : List (Job Req)) (staff : Nat)
    (started : List (Job Req)) (p : Protocol S Req R) : Prop where
  queueRoom : p.queueRoom = staff ∧ 1 ≤ p.queueRoom
  outcomeRoom : p.outcomeRoom = all.length ∧ 1 ≤ p.outcomeRoom
  queue : p.queue.length ≤ p.queueRoom
  outcomes : p.outcomes.length ≤ p.outcomeRoom
  /-- Whoever has an outcome can report it. -/
  reports : ∀ {place : Nat} {job outcome}, p.workers[place]? = some (.reporting job outcome) →
    ∃ q, p.work? executor place = some q
  /-- Every job is in one place. -/
  places : p.places.Perm all
  slots : (p.places.map Job.slot).Nodup
  /-- Calls begin in the order of the jobs, and none begins twice. -/
  inOrder : started ++ (p.queue ++ p.unsent) = all
  once : started.Nodup
  moves : ¬p.finished → ∃ party q, p.move? executor party = some q ∧
    (party = .producer → q.producer = .sending → ∃ w ∈ p.workers, w.present = true)
  complete : p.finished → p.spent = [] → p.world.cancelled = false →
    (p.outcomes.map (·.1)).Perm all ∧ p.failure = none

/-- **A phase loses nothing and ends.** Let there be jobs, and any number of workers wanted.
Whatever the parties do, in whatever order, and even if the batch is cancelled from outside: both
queues have room, so that whoever has an outcome can report it; every job is in one place, and no
call begins twice; some party can move until all are joined, and it does not go on forever. If no
call has failed or crashed and nothing was cancelled, the phase ends with one outcome a job. -/
theorem ends_without_loss (hjobs : jobs tasks ≠ [])
    (h : Course executor (Protocol.start workers world tasks) started p) :
    Lossless executor (jobs tasks) (effectiveWorkers workers (jobs tasks).length) started p ∧
      (WellFounded fun q p : Protocol S Req R => ∃ job?, Happens executor p job? q) ∧
      ∃ more last, Course executor (Protocol.start workers world tasks) (started ++ more) last ∧
        last.finished := by
  obtain ⟨hstocked, horderly⟩ := h.orderly hjobs
  have hpending : 1 ≤ (jobs tasks).length := List.length_pos_of_ne_nil hjobs
  have hstaff := effectiveWorkers_jobs_pos workers hjobs
  have hwaiting : started ++ (p.queue ++ p.unsent) = jobs tasks := h.waiting
  have hslots := Phase.jobs_slots_nodup tasks
  refine ⟨{
    queueRoom := ⟨hstocked.queueRoom, hstocked.queueRoom ▸ hstaff⟩
    outcomeRoom := ⟨hstocked.outcomeRoom, hstocked.outcomeRoom ▸ hpending⟩
    queue := hstocked.queue
    outcomes := ?_
    reports := hstocked.exists_reporting_move
    places := hstocked.places
    slots := (hstocked.places.map Job.slot).nodup_iff.mpr hslots
    inOrder := hwaiting
    once := ?_
    moves := h.exists_move hjobs
    complete := fun hfinished hspent hopen => ?_ },
    wellFounded_happens executor, h.exists_finished hjobs⟩
  · have hlength := hstocked.places.length_eq
    simp only [Protocol.places, List.length_append, List.length_map] at hlength
    rw [hstocked.outcomeRoom]
    omega
  · have hnodup := List.Nodup.of_map Job.slot hslots
    rw [← hwaiting] at hnodup
    exact (List.nodup_append.mp hnodup).1
  · refine hstocked.complete hstaff horderly hfinished fun hdisturbed => ?_
    rcases hdisturbed with hcancelled | hlost
    · cases hopen.symm.trans hcancelled
    · exact hlost hspent

end Course

/-! ## Three calls and two workers -/

/-- The parties move one after the other. -/
def follow? (executor : Executor S Req R) (p : Protocol S Req R) :
    List Party → Option (Protocol S Req R)
  | [] => some p
  | party :: rest => (p.move? executor party).bind fun q => q.follow? executor rest

theorem Course.follow {first : Protocol S Req R} {parties : List Party} :
    ∀ {started : List (Job Req)} {p : Protocol S Req R}, Course executor first started p →
      p.follow? executor parties = some q → ∃ more, Course executor first (started ++ more) q := by
  induction parties with
  | nil =>
      intro started p h hq
      cases hq
      exact ⟨[], by rwa [List.append_nil]⟩
  | cons party rest ih =>
      intro started p h hq
      obtain ⟨next, hmove, hnext⟩ := Option.bind_eq_some_iff.mp hq
      obtain ⟨more, hmore⟩ := ih (h.happens (.move party hmove)) hnext
      exact ⟨(p.begins party).toList ++ more, by rwa [← List.append_assoc]⟩

/-- Adds its request to the shared sum, and goes back if that has grown past thirty. -/
def adder : Executor Nat Nat Nat := fun n _ =>
  .step (fun w => ⟨w.state + n, false⟩) fun w =>
    .finish (if 30 < w.state then .aborted .requested else .returned w.state)

def summands : List (Task Nat Nat) := Task.ofRequests [10, 20, 30]

/-- The second worker takes two jobs while the first one is at its call. -/
def overtaken : List Party :=
  [.producer, .producer, .worker 0, .worker 1, .producer, .producer, .worker 1, .worker 1,
    .worker 1, .joinProducer, .worker 1, .worker 1, .worker 0, .worker 0, .worker 1, .worker 1,
    .worker 0, .worker 1, .worker 0, .joinWorker 1, .joinWorker 0]

theorem summands_end_without_loss :
    ∃ started p, jobs summands ≠ [] ∧
      Course adder (Protocol.start 2 ⟨0, false⟩ summands) started p ∧
      Lossless adder (jobs summands) (effectiveWorkers 2 3) started p ∧
      p.finished ∧ p.spent = [] ∧ p.world.cancelled = false ∧
      (p.outcomes.map (·.1)).Perm (jobs summands) := by
  have hend : ∃ p, (Protocol.start 2 ⟨0, false⟩ summands).follow? adder overtaken = some p ∧
      p.producer = .joined ∧ p.workers = [.joined, .joined] ∧ p.spent = [] ∧
      p.world.cancelled = false := ⟨_, rfl, rfl, rfl, rfl, rfl⟩
  obtain ⟨p, hfollow, hproducer, hworkers, hspent, hopen⟩ := hend
  have hfinished : p.finished := ⟨hproducer, by simp [hworkers]⟩
  have hjobs : jobs summands ≠ [] := by decide
  obtain ⟨started, hcourse⟩ := Course.follow .start hfollow
  have hlossless := (ends_without_loss hjobs hcourse).1
  exact ⟨_, p, hjobs, hcourse, hlossless, hfinished, hspent, hopen,
    (hlossless.complete hfinished hspent hopen).1⟩

end Protocol

end TxBatch
