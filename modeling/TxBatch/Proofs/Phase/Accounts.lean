import Mathlib.Data.List.Pairwise
import Mathlib.Data.List.Perm.Basic
import TxBatch.Phase.Protocol
import TxBatch.Proofs.Phase.Steps

/-!
# Every job of a phase is accounted for

The log of a phase says which jobs were begun and how their calls ended. At every step the jobs
begun are the front of the queue the phase began with; each of them is running or has ended; and
the outcomes reported are those of the calls that ended with one (`Accounted`). A worker is missing
only if a call of the log ended without an outcome (`Staffed`).

So a phase that succeeds has begun and ended each of its jobs once, each with an outcome
(`last_complete`).
-/

namespace TxBatch

/-- What a call that neither failed nor crashed says about its task. -/
def CallEnd.outcome? {R : Type} : CallEnd R → Option (Outcome R)
  | .returned response => some (.executed response)
  | .aborted signal => some (.aborted signal)
  | .failed _ => none
  | .crashed _ => none

namespace Event

variable {Req R : Type}

def started? : Event Req R → Option (Job Req)
  | .started job => some job
  | .ended _ _ => none

def ended? : Event Req R → Option (Job Req)
  | .started _ => none
  | .ended job _ => some job

/-- The outcome reported at the end of a call. -/
def arrival? : Event Req R → Option (Arrival R)
  | .started _ => none
  | .ended job result => result.outcome?.map fun outcome => ⟨job.slot, job.version, outcome⟩

theorem started?_eq_some {event : Event Req R} {job : Job Req} :
    event.started? = some job ↔ event = .started job := by
  cases event <;> simp [started?]

theorem ended?_eq_some {event : Event Req R} {job : Job Req} :
    event.ended? = some job ↔ ∃ result, event = .ended job result := by
  cases event <;> simp [ended?]

theorem arrival?_eq_some {event : Event Req R} {arrival : Arrival R} :
    event.arrival? = some arrival ↔ ∃ job result, event = .ended job result ∧
      result.outcome? = some arrival.outcome ∧ arrival.slot = job.slot ∧
      arrival.version = job.version := by
  obtain ⟨slot, version, outcome⟩ := arrival
  cases event with
  | started job => simp [arrival?]
  | ended job result =>
      simp only [arrival?, Option.map_eq_some_iff, Arrival.mk.injEq, Event.ended.injEq]
      constructor
      · rintro ⟨o, ho, rfl, rfl, rfl⟩
        exact ⟨job, result, ⟨rfl, rfl⟩, ho, rfl, rfl⟩
      · rintro ⟨job', result', ⟨rfl, rfl⟩, ho, rfl, rfl⟩
        exact ⟨outcome, ho, rfl, rfl, rfl⟩

end Event

namespace Phase

variable {S Req R : Type}

theorem perm_cons_eraseIdx {α : Type} {l : List α} {place : Nat} {a : α}
    (h : l[place]? = some a) : l.Perm (a :: l.eraseIdx place) := by
  obtain ⟨hlt, heq⟩ := List.getElem?_eq_some_iff.mp h
  have hperm := List.getElem_cons_eraseIdx_perm hlt
  rw [heq] at hperm
  exact hperm.symm

/-- The log accounts for the jobs of the phase, which were `queue` in the beginning. -/
structure Accounted (queue : List (Job Req)) (p : Phase S Req R) : Prop where
  started : (p.log.filterMap Event.started?).reverse ++ p.queue = queue
  ended : (p.log.filterMap Event.started?).Perm
    (p.running.map Prod.fst ++ p.log.filterMap Event.ended?)
  arrivals : p.arrivals = p.log.filterMap Event.arrival?

theorem arrivals_conclude (p : Phase S Req R) (job : Job Req) (result : CallEnd R) :
    (p.conclude job result).arrivals =
      (result.outcome?.map fun outcome => ⟨job.slot, job.version, outcome⟩).toList ++
        p.arrivals := by
  cases result <;> rfl

theorem Accounted.step {executor : Executor S Req R} {queue : List (Job Req)}
    {p q : Phase S Req R} (h : Step executor p q) (hp : Accounted queue p) :
    Accounted queue q := by
  cases h with
  | @take job rest hqueue htake =>
      refine ⟨?_, ?_, ?_⟩
      · have hstarted := hp.started
        rw [hqueue] at hstarted
        simp only [List.filterMap_cons, Event.started?, List.reverse_cons, List.append_assoc,
          List.singleton_append]
        exact hstarted
      · have hended := hp.ended.cons job
        simp only [List.filterMap_cons, Event.started?, Event.ended?, List.map_append,
          List.map_cons, List.map_nil, List.append_assoc, List.singleton_append]
        exact hended.trans List.perm_middle.symm
      · simp only [List.filterMap_cons, Event.arrival?]
        exact hp.arrivals
  | @advance place job effect next hplace =>
      refine ⟨hp.started, ?_, hp.arrivals⟩
      have hsame : (p.running.set place (job, next p.world)).map Prod.fst =
          p.running.map Prod.fst := by
        have hjob : (p.running.map Prod.fst)[place]? = some job := by simp [hplace]
        obtain ⟨hlt, heq⟩ := List.getElem?_eq_some_iff.mp hjob
        rw [List.map_set, ← heq, List.set_getElem_self]
      rw [hsame]
      exact hp.ended
  | @finish place job result hplace =>
      refine ⟨?_, ?_, ?_⟩
      · simp only [log_conclude, queue_conclude, List.filterMap_cons, Event.started?]
        exact hp.started
      · have hleave := ((perm_cons_eraseIdx hplace).map Prod.fst).append_right
          (p.log.filterMap Event.ended?)
        simp only [log_conclude, running_conclude, List.filterMap_cons, Event.started?,
          Event.ended?]
        exact hp.ended.trans (hleave.trans List.perm_middle.symm)
      · rw [arrivals_conclude, log_conclude, List.filterMap_cons, hp.arrivals]
        cases hout : result.outcome? <;> simp [Event.arrival?, hout]
  | notice place hplace => exact ⟨hp.started, hp.ended, hp.arrivals⟩

/-- Of the workers that the phase began with, those missing died of calls in the log. -/
structure Staffed (workers : Nat) (p : Phase S Req R) : Prop where
  running_le : p.running.length ≤ p.workers
  alive : p.failure = none → p.workers + p.unnoticed.length = workers
  outcome : p.failure = none → p.unnoticed = [] → ∀ {job result},
    .ended job result ∈ p.log → result.outcome?.isSome

theorem Staffed.step {executor : Executor S Req R} {workers : Nat} {p q : Phase S Req R}
    (h : Step executor p q) (hp : Staffed workers p) : Staffed workers q := by
  cases h with
  | @take job rest hqueue htake =>
      simp only [canTake, Bool.and_eq_true, decide_eq_true_eq] at htake
      refine ⟨?_, hp.alive, fun hf hun job result hmem => hp.outcome hf hun (by simpa using hmem)⟩
      simp only [List.length_append, List.length_singleton]
      omega
  | advance place hplace =>
      exact ⟨by simpa using hp.running_le, hp.alive, hp.outcome⟩
  | @finish place job result hplace =>
      have hlen := (perm_cons_eraseIdx hplace).length_eq
      have hle := hp.running_le
      rw [List.length_cons] at hlen
      have hkept : ∀ outcome, result.outcome? = some outcome → p.failure = none →
          p.unnoticed = [] → ∀ {job' result'}, Event.ended job' result' ∈
            Event.ended job result :: p.log → result'.outcome?.isSome := by
        intro outcome hout hf hun job' result' hmem
        rcases List.mem_cons.mp hmem with heq | hmem
        · cases heq
          simp [hout]
        · exact hp.outcome hf hun hmem
      have hlost : ∀ error, ({ p with running := p.running.eraseIdx place }.lose error).failure =
          none → p.workers - 1 + (p.unnoticed ++ [error]).length = workers := by
        intro error hf
        have := hp.alive hf
        simp only [List.length_append, List.length_singleton]
        omega
      cases result with
      | returned response => exact ⟨by simp [conclude, arrive]; omega, hp.alive, hkept _ rfl⟩
      | aborted signal => exact ⟨by simp [conclude, arrive]; omega, hp.alive, hkept _ rfl⟩
      | failed reason =>
          exact ⟨by simp [conclude, lose]; omega, hlost _, fun _ hun => by
            simp [conclude, lose] at hun⟩
      | crashed report =>
          exact ⟨by simp [conclude, lose]; omega, hlost _, fun _ hun => by
            simp [conclude, lose] at hun⟩
  | notice place hplace =>
      refine ⟨hp.running_le, fun hf => ?_, fun hf => ?_⟩ <;> simp at hf

/-! ## The jobs of a phase -/

theorem mem_jobs {tasks : List (Task Req R)} {job : Job Req} :
    job ∈ jobs tasks ↔ ∃ t, tasks[job.slot]? = some t ∧ t.status = .pending ∧
      job.version = t.version ∧ job.request = t.request := by
  obtain ⟨slot, version, request⟩ := job
  simp only [jobs, List.mem_filterMap, Prod.exists]
  constructor
  · rintro ⟨t, slot', hmem, hif⟩
    have hslot := List.mk_mem_zipIdx_iff_getElem?.mp hmem
    split at hif
    · rename_i hpending
      cases hif
      exact ⟨t, hslot, hpending, rfl, rfl⟩
    · cases hif
  · rintro ⟨t, hslot, hpending, rfl, rfl⟩
    exact ⟨t, slot, List.mk_mem_zipIdx_iff_getElem?.mpr hslot, if_pos hpending⟩

theorem jobs_slots_sorted (tasks : List (Task Req R)) :
    ((jobs tasks).map Job.slot).Pairwise (· < ·) := by
  have hslots : (tasks.zipIdx.map Prod.snd).Pairwise (· < ·) := by
    rw [List.zipIdx_map_snd]
    exact List.pairwise_lt_range'
  refine List.pairwise_map.mpr ((List.pairwise_map.mp hslots).filterMap _ ?_)
  rintro ⟨t, slot⟩ ⟨t', slot'⟩ hlt job hjob job' hjob'
  dsimp only at hjob hjob'
  split at hjob <;> cases hjob
  split at hjob' <;> cases hjob'
  exact hlt

theorem jobs_slots_nodup (tasks : List (Task Req R)) : ((jobs tasks).map Job.slot).Nodup :=
  (jobs_slots_sorted tasks).imp Nat.ne_of_lt

section Accounted

variable {tasks : List (Task Req R)} {p : Phase S Req R} (h : Accounted (jobs tasks) p)

include h

theorem Accounted.started_mem_jobs {job : Job Req} (hmem : .started job ∈ p.log) :
    job ∈ jobs tasks := by
  rw [← h.started]
  exact List.mem_append_left _
    (List.mem_reverse.mpr (List.mem_filterMap.mpr ⟨_, hmem, rfl⟩))

theorem Accounted.ended_mem_started {job : Job Req} {result : CallEnd R}
    (hmem : .ended job result ∈ p.log) : .started job ∈ p.log := by
  have hended : job ∈ p.log.filterMap Event.ended? := List.mem_filterMap.mpr ⟨_, hmem, rfl⟩
  obtain ⟨event, hevent, heq⟩ := List.mem_filterMap.mp
    (h.ended.mem_iff.mpr (List.mem_append_right _ hended))
  exact Event.started?_eq_some.mp heq ▸ hevent

theorem Accounted.running_mem_started {job : Job Req} {call : Call S R}
    (hmem : (job, call) ∈ p.running) : .started job ∈ p.log := by
  have hrunning : job ∈ p.running.map Prod.fst := List.mem_map_of_mem hmem
  obtain ⟨event, hevent, heq⟩ := List.mem_filterMap.mp
    (h.ended.mem_iff.mpr (List.mem_append_left _ hrunning))
  exact Event.started?_eq_some.mp heq ▸ hevent

/-- No job is begun twice, or waits though it was begun. -/
theorem Accounted.started_slots_nodup :
    ((p.log.filterMap Event.started?).map Job.slot ++ p.queue.map Job.slot).Nodup := by
  have hjobs := jobs_slots_nodup tasks
  rw [← h.started, List.map_append, List.map_reverse] at hjobs
  exact ((List.reverse_perm _).append_right _).nodup_iff.mp hjobs

/-- No job runs in two calls, or runs though its call has ended. -/
theorem Accounted.running_slots_nodup :
    ((p.running.map Prod.fst).map Job.slot ++
      (p.log.filterMap Event.ended?).map Job.slot).Nodup := by
  have hstarted := (List.nodup_append.mp h.started_slots_nodup).1
  rw [← List.map_append]
  exact (h.ended.map Job.slot).nodup_iff.mp hstarted

theorem Accounted.ended_slots_nodup : ((p.log.filterMap Event.ended?).map Job.slot).Nodup :=
  (List.nodup_append.mp h.running_slots_nodup).2.1

theorem Accounted.ended_unique {job : Job Req} {result result' : CallEnd R}
    (hmem : .ended job result ∈ p.log) (hmem' : .ended job result' ∈ p.log) :
    result = result' := by
  by_contra hne
  have hpairwise := List.pairwise_filterMap.mp (List.pairwise_map.mp h.ended_slots_nodup)
  have hsymm : Std.Symm fun event event' : Event Req R =>
      ∀ job, event.ended? = some job → ∀ job', event'.ended? = some job' → job.slot ≠ job'.slot :=
    ⟨fun _ _ hsep job hjob job' hjob' heq => hsep job' hjob' job hjob heq.symm⟩
  exact hpairwise.forall hmem hmem' (by simpa using hne) job rfl job rfl rfl

end Accounted

theorem arrival_slots_sublist (log : List (Event Req R)) :
    ((log.filterMap Event.arrival?).map Arrival.slot).Sublist
      ((log.filterMap Event.ended?).map Job.slot) := by
  induction log with
  | nil => exact .slnil
  | cons event rest ih =>
      cases event with
      | started job => simpa only [List.filterMap_cons, Event.arrival?, Event.ended?] using ih
      | ended job result =>
          cases hout : result.outcome? with
          | none =>
              simp only [List.filterMap_cons, Event.arrival?, Event.ended?, hout,
                Option.map_none, List.map_cons]
              exact ih.cons _
          | some outcome =>
              simp only [List.filterMap_cons, Event.arrival?, Event.ended?, hout,
                Option.map_some, List.map_cons]
              exact ih.cons_cons _

/-! ## The last state of a phase -/

/-- The phase as it is when nothing more can happen. -/
def last (executor : Executor S Req R) (workers : Int64) (schedule : List Choice)
    (world : World S) (tasks : List (Task Req R)) : Phase S Req R :=
  (schedule.foldl (act executor) (start workers world tasks)).drain executor

section Last

variable (executor : Executor S Req R) (workers : Int64) (schedule : List Choice)
  (world : World S) (tasks : List (Task Req R))

theorem steps_last :
    Steps executor (start workers world tasks) (last executor workers schedule world tasks) :=
  (steps_foldl executor schedule _).trans (steps_drain executor _)

theorem accounted_last :
    Accounted (jobs tasks) (last executor workers schedule world tasks) :=
  (steps_last ..).invariant Accounted.step ⟨rfl, .refl _, rfl⟩

theorem staffed_last :
    Staffed (effectiveWorkers workers (jobs tasks).length)
      (last executor workers schedule world tasks) :=
  (steps_last ..).invariant Staffed.step
    ⟨Nat.zero_le _, fun _ => rfl, fun _ _ _ _ hmem => by cases hmem⟩

end Last

section Complete

variable {executor : Executor S Req R} {workers : Int64} {schedule : List Choice}
  {world : World S} {tasks : List (Task Req R)}
  (hworld : (last executor workers schedule world tasks).world.cancelled = false)
  (hfailure : (last executor workers schedule world tasks).failure = none)

include hworld hfailure

/-- A phase in which no call was lost and nothing was cancelled has taken all its jobs. -/
theorem last_queue : (last executor workers schedule world tasks).queue = [] := by
  by_contra hqueue
  have hacc := accounted_last executor workers schedule world tasks
  obtain ⟨job, hjob⟩ := List.exists_mem_of_ne_nil _ hqueue
  have hmem : job ∈ jobs tasks := hacc.started ▸ List.mem_append_right _ hjob
  have halive := (staffed_last executor workers schedule world tasks).alive hfailure
  have hrunning : (last executor workers schedule world tasks).running = [] := drain_running ..
  have hunnoticed : (last executor workers schedule world tasks).unnoticed = [] :=
    drain_unnoticed ..
  rw [hunnoticed, List.length_nil, Nat.add_zero] at halive
  have hpos := @Protocol.effectiveWorkers_pos workers _ (List.length_pos_of_mem hmem)
  have hfree : (last executor workers schedule world tasks).canTake = true := by
    simp [canTake, stopped_eq, hworld, hfailure, hrunning, halive, hpos]
  rcases drain_queue executor (schedule.foldl (act executor) (start workers world tasks)) with
    hnil | htake
  · exact hqueue hnil
  · rw [last, htake] at hfree
    cases hfree

theorem last_complete {job : Job Req} (hjob : job ∈ jobs tasks) :
    ∃ result, .ended job result ∈ (last executor workers schedule world tasks).log ∧
      result.outcome?.isSome := by
  have hacc := accounted_last executor workers schedule world tasks
  have hunnoticed : (last executor workers schedule world tasks).unnoticed = [] :=
    drain_unnoticed ..
  have hstarted := hacc.started
  have hended := hacc.ended
  rw [last_queue hworld hfailure, List.append_nil] at hstarted
  rw [show (last executor workers schedule world tasks).running = [] from drain_running ..,
    List.map_nil, List.nil_append] at hended
  rw [← hstarted, List.mem_reverse, hended.mem_iff, List.mem_filterMap] at hjob
  obtain ⟨event, hmem, hevent⟩ := hjob
  obtain ⟨result, rfl⟩ := Event.ended?_eq_some.mp hevent
  exact ⟨result, hmem,
    (staffed_last executor workers schedule world tasks).outcome hfailure hunnoticed hmem⟩

end Complete

end Phase

end TxBatch
