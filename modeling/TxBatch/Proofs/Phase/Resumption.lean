import Mathlib.Data.List.Nodup
import TxBatch.Proofs.Phase.Watched

/-!
# A phase that fails can be taken up again

A phase rolls nothing back. What a call gave before the phase failed reaches its task, and a task
whose call gave nothing waits as it did, so what is left to do is what was to do less what has an
outcome (`Phase.mem_jobs_run`).

A single worker makes its calls one after the other, and stops behind the first that cancels, fails
or crashes. What it does is then a function of the executor alone (`serve`, `Phase.run_serve`), and
cuts the queue in two: the jobs in front have their outcomes, those behind are the next phase's.
-/

namespace TxBatch

variable {S Req R : Type}

/-! ## One call after the other -/

/-- A call that ran with nothing in between, and the world that it left. -/
structure Served (S Req R : Type) where
  job : Job Req
  result : CallEnd R
  world : World S

namespace Served

def answered (c : Served S Req R) : Bool := c.result.outcome?.isSome

@[simp] theorem answered_iff {c : Served S Req R} :
    c.answered = true ↔ c.result.outcome? ≠ none :=
  Option.isSome_iff_ne_none

def events (c : Served S Req R) : List (Event Req R) := [.started c.job, .ended c.job c.result]

/-- The world after some calls, the last of which left it. -/
def left (first : World S) (calls : List (Served S Req R)) : World S :=
  (calls.getLast?.map world).getD first

theorem left_append (first : World S) (calls : List (Served S Req R)) (c : Served S Req R) :
    left first (calls ++ [c]) = c.world := by
  simp [left]

end Served

/-- The calls for some jobs in their order. None is made in a cancelled batch, and none after a
call without an outcome. -/
def serve (executor : Executor S Req R) : World S → List (Job Req) → List (Served S Req R)
  | _, [] => []
  | w, job :: rest =>
    if w.cancelled then []
    else
      let ended := (executor job.request job.version).run w
      ⟨job, ended.1, ended.2⟩ ::
        if ended.1.outcome?.isSome then serve executor ended.2 rest else []

/-- What is left of a call, and the calls after it. -/
def proceed (executor : Executor S Req R) (w : World S) (job : Job Req) (call : Call S R)
    (rest : List (Job Req)) : List (Served S Req R) :=
  let ended := call.run w
  ⟨job, ended.1, ended.2⟩ ::
    if ended.1.outcome?.isSome then serve executor ended.2 rest else []

section Serve

variable (executor : Executor S Req R)

theorem serve_of_cancelled {w : World S} (hw : w.cancelled = true) (all : List (Job Req)) :
    serve executor w all = [] := by
  cases all with
  | nil => rfl
  | cons job rest => exact if_pos hw

theorem serve_cons {w : World S} (hw : w.cancelled = false) (job : Job Req)
    (rest : List (Job Req)) :
    serve executor w (job :: rest) =
      proceed executor w job (executor job.request job.version) rest :=
  if_neg (by simp [hw])

/-- No call is made, or one that is the last, or one before the others. -/
theorem serve_cases (w : World S) (all : List (Job Req)) :
    serve executor w all = [] ∨ ∃ c rest, all = c.job :: rest ∧
      (c.answered = false ∧ serve executor w all = [c] ∨
        c.answered = true ∧ serve executor w all = c :: serve executor c.world rest) := by
  cases hw : w.cancelled with
  | true => exact .inl (serve_of_cancelled executor hw all)
  | false =>
      cases all with
      | nil => exact .inl rfl
      | cons job rest =>
          rw [serve_cons executor hw, proceed]
          cases (executor job.request job.version).run w with | mk result left =>
          refine .inr ⟨⟨job, result, left⟩, rest, rfl, ?_⟩
          cases hresult : result.outcome?.isSome with
          | false => exact .inl ⟨hresult, rfl⟩
          | true => exact .inr ⟨hresult, rfl⟩

/-- The calls cut the jobs in two: in front are those with an outcome, and a call without is that
for the first one behind. -/
theorem serve_split (all : List (Job Req)) : ∀ w : World S,
    ∃ rest, all = ((serve executor w all).filter Served.answered).map Served.job ++ rest ∧
      ∀ c ∈ serve executor w all, c.answered = false → rest.head? = some c.job := by
  induction all with
  | nil => exact fun _ => ⟨[], rfl, fun _ hc => (List.not_mem_nil hc).elim⟩
  | cons job rest ih =>
      intro w
      rcases serve_cases executor w (job :: rest) with
        hserve | ⟨c, rest', hall, ⟨hlost, hserve⟩ | ⟨hanswered, hserve⟩⟩
      · rw [hserve]
        exact ⟨job :: rest, rfl, fun _ hc => (List.not_mem_nil hc).elim⟩
      · rw [hserve, List.filter_singleton, hlost]
        refine ⟨job :: rest, rfl, fun c' hc' _ => ?_⟩
        rw [List.mem_singleton.mp hc', hall]
        rfl
      · cases hall
        obtain ⟨behind, hrest, hhead⟩ := ih c.world
        rw [hserve, List.filter_cons_of_pos hanswered]
        refine ⟨behind, congrArg (c.job :: ·) hrest, fun c' hc' hlost => ?_⟩
        rcases List.mem_cons.mp hc' with rfl | hmem
        · cases hanswered.symm.trans hlost
        · exact hhead c' hmem hlost

theorem serve_last (all : List (Job Req)) : ∀ w : World S, ∀ c ∈ serve executor w all,
    c.world.cancelled = true ∨ c.answered = false → (serve executor w all).getLast? = some c := by
  induction all with
  | nil => exact fun _ _ hc => (List.not_mem_nil hc).elim
  | cons job rest ih =>
      intro w c hc hstops
      rcases serve_cases executor w (job :: rest) with
        hserve | ⟨first, rest', hall, ⟨-, hserve⟩ | ⟨hanswered, hserve⟩⟩
      · rw [hserve] at hc
        cases hc
      · rw [hserve, List.mem_singleton] at hc
        rw [hserve, hc]
        rfl
      · cases hall
        rw [hserve] at hc ⊢
        rcases List.mem_cons.mp hc with rfl | hbehind
        · have hcancelled := hstops.resolve_right (by simp [hanswered])
          rw [serve_of_cancelled executor hcancelled]
          rfl
        · rw [List.getLast?_cons, ih first.world c hbehind hstops]
          rfl

end Serve

namespace Phase

/-! ## A single worker -/

variable {executor : Executor S Req R} {first : World S} {course : List (Served S Req R)}
  {p q : Phase S Req R}

/-- The calls that a single worker still comes to. -/
def ahead (executor : Executor S Req R) (p : Phase S Req R) : List (Served S Req R) :=
  match p.running with
  | (job, call) :: _ => proceed executor p.world job call p.queue
  | [] => if p.workers = 0 then [] else serve executor p.world p.queue

/-- A single worker follows the course of its calls: those behind it are in the log, and it comes
to the others. -/
structure Alone (executor : Executor S Req R) (first : World S) (course : List (Served S Req R))
    (p : Phase S Req R) : Prop where
  workers : p.workers ≤ 1
  seats : p.running.length ≤ p.workers
  lost : p.failure.isSome ∨ p.unnoticed ≠ [] → p.workers = 0
  course : ∃ past, course = past ++ p.ahead executor ∧
    p.log = p.running.map (fun e => .started e.1) ++ (past.flatMap Served.events).reverse ∧
    (p.running = [] → p.world = Served.left first past)

theorem Alone.running (h : Alone executor first course p) {place : Nat} {e : Job Req × Call S R}
    (hplace : p.running[place]? = some e) : p.running = [e] ∧ place = 0 ∧ p.workers = 1 := by
  have hworkers := h.workers
  have hseats := h.seats
  obtain ⟨hlt, hget⟩ := List.getElem?_eq_some_iff.mp hplace
  obtain ⟨e', hrunning⟩ := List.length_eq_one_iff.mp (show p.running.length = 1 by omega)
  obtain rfl : place = 0 := by omega
  rw [hrunning] at hplace
  exact ⟨hrunning.trans (by simpa using hplace), rfl, by omega⟩

/-- A single worker whose call has ended goes on if it has an outcome. -/
theorem ahead_conclude {job : Job Req} {result : CallEnd R} (hrunning : p.running = [])
    (hworkers : p.workers = 1) :
    (p.conclude job result).ahead executor =
      if result.outcome?.isSome then serve executor p.world p.queue else [] := by
  cases hanswered : result.outcome?.isSome <;>
    simp [ahead, hrunning, workers_conclude, hworkers, hanswered]

theorem Alone.step (h : Step executor p q) (hp : Alone executor first course p) :
    Alone executor first course q := by
  obtain ⟨past, hcourse, hlog, hleft⟩ := hp.course
  cases h with
  | @take job rest hqueue htake =>
      -- a free worker means that nobody is at work and the batch is open
      simp only [canTake, stopped_eq, Bool.and_eq_true, Bool.not_eq_true', Bool.or_eq_false_iff,
        decide_eq_true_eq] at htake
      obtain ⟨⟨hopen, -⟩, hfree⟩ := htake
      have hworkers := hp.workers
      have hidle : p.running = [] := List.eq_nil_of_length_eq_zero (by omega)
      refine ⟨hworkers, ?_, hp.lost, past, ?_, ?_, ?_⟩
      · simp only [hidle, List.nil_append, List.length_singleton]
        omega
      · rw [hcourse]
        simp only [ahead, hidle, List.nil_append, hqueue, serve_cons executor hopen]
        rw [if_neg (by omega)]
      · rw [hlog, hidle]
        rfl
      · intro hrunning
        simp [hidle] at hrunning
  | @advance place job effect next hplace =>
      obtain ⟨hrunning, rfl, -⟩ := hp.running hplace
      have hseats := hp.seats
      rw [hrunning] at hseats hlog
      simp only [hrunning]
      refine ⟨hp.workers, hseats, hp.lost, past, ?_, hlog, fun hidle => by cases hidle⟩
      rw [hcourse, ahead, hrunning]
      rfl
  | @finish place job result hplace =>
      obtain ⟨hrunning, rfl, hone⟩ := hp.running hplace
      have hahead : p.ahead executor = ⟨job, result, p.world⟩ ::
          if result.outcome?.isSome then serve executor p.world p.queue else [] := by
        rw [ahead, hrunning]
        rfl
      have hworkers : ({ p with running := [] }.conclude job result).workers =
          if result.outcome?.isSome then 1 else 0 := by
        rw [workers_conclude, hone]
      simp only [hrunning, List.eraseIdx_zero, List.tail_cons]
      refine ⟨?_, ?_, fun hfailed => ?_, past ++ [⟨job, result, p.world⟩], ?_, ?_, fun _ => ?_⟩
      · rw [hworkers]
        split <;> decide
      · rw [running_conclude]
        exact Nat.zero_le _
      · rw [hworkers]
        refine if_neg fun hanswered => ?_
        have hnone : result.error? job = none := CallEnd.error?_eq_none.mpr hanswered
        have hdead := hp.lost (by simpa [unnoticed_conclude, hnone] using hfailed)
        omega
      · rw [hcourse, hahead, List.append_assoc, List.singleton_append,
          ahead_conclude (p := { p with running := [] }) rfl hone]
      · rw [log_conclude, running_conclude, hlog, hrunning]
        simp [Served.events]
      · rw [world_conclude, Served.left_append]
  | @notice place error hplace =>
      have hdead := hp.lost (.inr fun hnil => by simp [hnil] at hplace)
      exact ⟨hp.workers, hp.seats, fun _ => hdead, past, hcourse, hlog, hleft⟩

/-- When nothing more can happen it has come to all of them. -/
theorem Alone.ahead_eq_nil (h : Alone executor first course p) (hrunning : p.running = [])
    (hend : p.queue = [] ∨ p.canTake = false) : p.ahead executor = [] := by
  rw [ahead, hrunning]
  by_cases hdead : p.workers = 0
  · exact if_pos hdead
  refine (if_neg hdead).trans ?_
  rcases hend with hqueue | htake
  · rw [hqueue, serve]
  · -- somebody could take a job, so the batch is cancelled
    have hfailure : p.failure.isSome = false :=
      Bool.eq_false_iff.mpr fun hfailed => hdead (h.lost (.inl hfailed))
    have hcancelled : p.world.cancelled = true := by
      simpa [canTake, stopped_eq, hrunning, hfailure, Nat.pos_of_ne_zero hdead] using htake
    exact serve_of_cancelled executor hcancelled p.queue

section Run

variable (executor : Executor S Req R) {workers : Int64} (schedule : List Choice) (round : Nat)
  (world : World S) {tasks : List (Task Req R)}
  (hworkers : effectiveWorkers workers (jobs tasks).length ≤ 1)

include hworkers

theorem alone_last :
    Alone executor world (serve executor world (jobs tasks))
      (last executor workers schedule world tasks) := by
  refine (steps_last ..).invariant Alone.step
    ⟨hworkers, Nat.zero_le _, fun hfailed => ?_, [], ?_, rfl, fun _ => rfl⟩
  · simp [start] at hfailed
  · rw [List.nil_append]
    simp only [ahead, start]
    by_cases hjobs : jobs tasks = []
    · simp [hjobs, serve]
    · exact (if_neg (Nat.ne_of_gt
        (Protocol.effectiveWorkers_pos (List.length_pos_of_ne_nil hjobs)))).symm

/-- A single worker makes exactly the calls of its course, whatever the schedule. -/
theorem run_serve :
    let ended := run executor workers schedule round world tasks
    let calls := serve executor world (jobs tasks)
    ended.log = (calls.flatMap Served.events).reverse ∧ ended.world = Served.left world calls := by
  by_cases hjobs : jobs tasks = []
  · rw [run_of_no_jobs _ _ _ _ _ _ hjobs, hjobs]
    exact ⟨rfl, rfl⟩
  cases hworld : world.cancelled with
  | true =>
      rw [run_of_cancelled _ _ _ _ _ _ hjobs hworld, serve_of_cancelled executor hworld]
      exact ⟨rfl, rfl⟩
  | false =>
      rw [run_eq_last _ _ _ _ _ _ hjobs hworld]
      have halone := alone_last executor schedule world hworkers
      obtain ⟨past, hcourse, hlog, hleft⟩ := halone.course
      have hrunning : (last executor workers schedule world tasks).running = [] :=
        drain_running ..
      have hnothing := halone.ahead_eq_nil hrunning (drain_queue ..)
      rw [hnothing, List.append_nil] at hcourse
      rw [hrunning, List.map_nil, List.nil_append] at hlog
      exact ⟨hcourse ▸ hlog, hcourse ▸ hleft hrunning⟩

end Run

/-! ## What a phase leaves to do -/

theorem jobs_eq_of_mem {tasks : List (Task Req R)} {queue : List (Job Req)}
    (hsorted : (queue.map Job.slot).Pairwise (· < ·))
    (hmem : ∀ job, job ∈ jobs tasks ↔ job ∈ queue) : jobs tasks = queue := by
  have hnodup : ∀ {l : List (Job Req)}, (l.map Job.slot).Pairwise (· < ·) → l.Nodup :=
    fun h => List.Nodup.of_map _ (h.imp Nat.ne_of_lt)
  have hjobs := jobs_slots_sorted tasks
  refine List.Perm.eq_of_pairwise (fun a b _ _ hab hba => absurd hab (Nat.lt_asymm hba))
    (List.pairwise_map (f := Job.slot).mp hjobs) (List.pairwise_map.mp hsorted) ?_
  exact (List.perm_ext_iff_of_nodup (hnodup hjobs) (hnodup hsorted)).mpr hmem

section Left

variable (executor : Executor S Req R) (workers : Int64) (schedule : List Choice) (round : Nat)
  (world : World S) (tasks : List (Task Req R))

theorem run_waiting {job : Job Req}
    (hjob : job ∈ jobs (run executor workers schedule round world tasks).tasks) :
    job ∈ jobs tasks ∧ (run executor workers schedule round world tasks).tasks[job.slot]? =
      tasks[job.slot]? := by
  obtain ⟨t', ht', hpending, hversion, hrequest⟩ := mem_jobs.mp hjob
  obtain ⟨t, ht, hpassed⟩ := run_origin executor workers schedule round world tasks ht'
  cases hpassed with
  | kept => exact ⟨mem_jobs.mpr ⟨_, ht, hpending, hversion, hrequest⟩, ht'.trans ht.symm⟩
  | received => exact absurd hpending (Task.receive_status_ne_pending _ round _)

/-- **What is left to do** after a phase is what was to do and has no outcome. -/
theorem mem_jobs_run {job : Job Req} :
    job ∈ jobs (run executor workers schedule round world tasks).tasks ↔
      job ∈ jobs tasks ∧ ∀ result,
        .ended job result ∈ (run executor workers schedule round world tasks).log →
          result.outcome? = none := by
  constructor
  · intro hjob
    obtain ⟨hmem, hsame⟩ := run_waiting executor workers schedule round world tasks hjob
    refine ⟨hmem, fun result hended => Option.eq_none_iff_forall_ne_some.mpr fun outcome hout => ?_⟩
    obtain ⟨t, ht, -, hversion, hrequest⟩ := mem_jobs.mp hmem
    obtain ⟨t', ht', hpending, -⟩ := mem_jobs.mp hjob
    obtain ⟨slot, version, request⟩ := job
    subst hversion hrequest
    have hreceived := run_received executor workers schedule round world tasks ht hended hout
    rw [Option.some.inj (ht'.symm.trans hreceived)] at hpending
    exact t.receive_status_ne_pending round outcome hpending
  · rintro ⟨hmem, hnone⟩
    obtain ⟨t, ht, hpending, hversion, hrequest⟩ := mem_jobs.mp hmem
    obtain ⟨t', ht', hpassed⟩ := run_task executor workers schedule round world tasks ht
    cases hpassed with
    | kept => exact mem_jobs.mpr ⟨t, ht', hpending, hversion, hrequest⟩
    | received _ hended hout =>
        rw [← hversion, ← hrequest] at hended
        cases (hnone _ hended).symm.trans hout

/-- Before the first call nothing happens to the batch. -/
theorem untouched_step {first : World S} {p q : Phase S Req R} (h : Step executor p q)
    (hp : p.log.filterMap Event.started? = [] → p.running = [] ∧ p.world = first) :
    q.log.filterMap Event.started? = [] → q.running = [] ∧ q.world = first := by
  intro hnone
  cases h with
  | take => cases hnone
  | advance place hplace =>
      rw [(hp hnone).1] at hplace
      cases hplace
  | finish place hplace =>
      rw [log_conclude] at hnone
      rw [(hp hnone).1] at hplace
      cases hplace
  | notice place hplace => exact hp hnone

variable {tasks} in
/-- A phase with something to do, in an open batch, calls a task. -/
theorem run_begins (hjobs : jobs tasks ≠ []) (hworld : world.cancelled = false) :
    (run executor workers schedule round world tasks).log.filterMap Event.started? ≠ [] := by
  rw [run_eq_last _ _ _ _ _ _ hjobs hworld]
  intro (hnone : (last executor workers schedule world tasks).log.filterMap Event.started? = [])
  have hacc := accounted_last executor workers schedule world tasks
  have huntouched := ((steps_last executor workers schedule world tasks).invariant
    (untouched_step executor) (fun _ => ⟨rfl, rfl⟩) hnone).2
  have hopen : (last executor workers schedule world tasks).world.cancelled = false :=
    (congrArg World.cancelled huntouched).trans hworld
  have hfailure : (last executor workers schedule world tasks).failure = none := by
    refine Option.eq_none_iff_forall_ne_some.mpr fun error hfailed => ?_
    obtain ⟨job, result, hended, -⟩ := (blamed_last ..).failure error hfailed
    have hstarted : job ∈ (last executor workers schedule world tasks).log.filterMap
        Event.started? := List.mem_filterMap.mpr ⟨_, hacc.ended_mem_started hended, rfl⟩
    exact List.ne_nil_of_mem hstarted hnone
  have hstarted := hacc.started
  rw [hnone, last_queue hopen hfailure] at hstarted
  exact hjobs hstarted.symm

end Left

/-! ## The cut -/

/-- A single worker has made some calls, and `after` is what has become of the tasks: the queue is
cut in two. -/
structure Cut (calls : List (Served S Req R)) (round : Nat) (tasks after : List (Task Req R))
    (done rest : List (Job Req)) : Prop where
  split : jobs tasks = done ++ rest
  /-- Each task in front carries the outcome of its own call. -/
  received : ∀ job ∈ done, ∃ c ∈ calls, c.job = job ∧ ∃ t outcome, tasks[job.slot]? = some t ∧
    c.result.outcome? = some outcome ∧ after[job.slot]? = some (t.receive round outcome)
  kept : ∀ job ∈ rest, after[job.slot]? = tasks[job.slot]?
  settled : ∀ (slot : Nat) t, tasks[slot]? = some t → t.status ≠ .pending → after[slot]? = some t
  /-- A call that failed or crashed is the first one behind the cut. -/
  lost : ∀ c ∈ calls, c.result.outcome? = none → rest.head? = some c.job
  /-- A call that cancelled and gave an outcome is the last one in front of it. -/
  cancelled : ∀ c ∈ calls, c.world.cancelled = true → c.result.outcome? ≠ none →
    done.getLast? = some c.job
  /-- What is behind the cut is all that waits. -/
  waiting : jobs after = rest

/-- A single worker failed of the last call that it made, or made none because the batch had been
cancelled. -/
def FailedOf (calls : List (Served S Req R)) (first : World S) (error : BatchError) : Prop :=
  match calls.getLast? with
  | none => first.cancelled = true ∧ error = .cancelled
  | some c =>
    if c.world.cancelled then error = .cancelled else c.result.error? c.job = some error

section Cut

variable (executor : Executor S Req R) {workers : Int64} (schedule : List Choice) (round : Nat)
  (world : World S) {tasks : List (Task Req R)}
  (hworkers : effectiveWorkers workers (jobs tasks).length ≤ 1)

include hworkers

/-- The calls that a single worker made are those that ended. -/
theorem run_ended_iff {job : Job Req} {result : CallEnd R} :
    .ended job result ∈ (run executor workers schedule round world tasks).log ↔
      ∃ c ∈ serve executor world (jobs tasks), c.job = job ∧ c.result = result := by
  rw [(run_serve executor schedule round world hworkers).1, List.mem_reverse, List.mem_flatMap]
  simp [Served.events, eq_comm]

/-- The next phase has what is behind the calls with an outcome. -/
theorem run_jobs_of_split {rest : List (Job Req)}
    (hsplit : jobs tasks =
      ((serve executor world (jobs tasks)).filter Served.answered).map Served.job ++ rest) :
    jobs (run executor workers schedule round world tasks).tasks = rest := by
  have hsorted := jobs_slots_sorted tasks
  have hnodup := List.Nodup.of_map _ (jobs_slots_nodup tasks)
  rw [hsplit] at hsorted hnodup
  refine jobs_eq_of_mem (List.pairwise_append.mp (List.map_append ▸ hsorted)).2.1 fun job => ?_
  simp only [mem_jobs_run, run_ended_iff executor schedule round world hworkers]
  constructor
  · rintro ⟨hjob, hnone⟩
    rw [hsplit] at hjob
    refine (List.mem_append.mp hjob).resolve_left fun hfront => ?_
    obtain ⟨c, hc, rfl⟩ := List.mem_map.mp hfront
    obtain ⟨hc, hanswered⟩ := List.mem_filter.mp hc
    exact Served.answered_iff.mp hanswered (hnone _ ⟨c, hc, rfl, rfl⟩)
  · intro hrest
    refine ⟨hsplit ▸ List.mem_append_right _ hrest, ?_⟩
    rintro result ⟨c, hc, rfl, rfl⟩
    by_contra hsome
    have hfront := List.mem_map_of_mem (f := Served.job)
      (List.mem_filter.mpr ⟨hc, Served.answered_iff.mpr hsome⟩)
    exact (List.nodup_append.mp hnodup).2.2 _ hfront _ hrest rfl

theorem run_cut :
    ∃ done rest, Cut (serve executor world (jobs tasks)) round tasks
      (run executor workers schedule round world tasks).tasks done rest := by
  obtain ⟨rest, hsplit, hhead⟩ := serve_split executor (jobs tasks) world
  have hwaiting := run_jobs_of_split executor schedule round world hworkers hsplit
  refine ⟨_, rest, hsplit, fun job hjob => ?_, fun job hjob => ?_,
    fun _ _ => run_task_of_not_pending _ _ _ _ _ _, fun c hc hnone => ?_,
    fun c hc hcancelled hsome => ?_, hwaiting⟩
  · have hwaited : job ∈ jobs tasks := hsplit ▸ List.mem_append_left _ hjob
    obtain ⟨c, hc, rfl⟩ := List.mem_map.mp hjob
    obtain ⟨hc, hanswered⟩ := List.mem_filter.mp hc
    obtain ⟨outcome, hout⟩ := Option.isSome_iff_exists.mp hanswered
    obtain ⟨t, ht, -, hversion, hrequest⟩ := mem_jobs.mp hwaited
    have hended := (run_ended_iff executor schedule round world hworkers).mpr ⟨c, hc, rfl, rfl⟩
    rw [show c.job = ⟨c.job.slot, t.version, t.request⟩ by rw [← hversion, ← hrequest]] at hended
    exact ⟨c, hc, rfl, t, outcome, ht, hout, run_received _ _ _ _ _ _ ht hended hout⟩
  · exact (run_waiting executor workers schedule round world tasks (hwaiting ▸ hjob)).2
  · exact hhead c hc (by simp [Served.answered, hnone])
  · obtain ⟨before, hlast⟩ :=
      List.getLast?_eq_some_iff.mp (serve_last executor (jobs tasks) world c hc (.inl hcancelled))
    simp [hlast, hsome]

theorem run_failedOf {error : BatchError}
    (herror : (run executor workers schedule round world tasks).verdict = .error error) :
    FailedOf (serve executor world (jobs tasks)) world error := by
  have hleft := (run_serve executor schedule round world hworkers).2
  rw [Served.left] at hleft
  rcases run_error _ _ _ _ _ _ herror with ⟨hcancelled, rfl⟩ | ⟨hopen, job, result, hmem, herr⟩
  · rw [hleft] at hcancelled
    unfold FailedOf
    cases hlast : (serve executor world (jobs tasks)).getLast? with
    | none => exact ⟨by simpa [hlast] using hcancelled, rfl⟩
    | some c => exact (if_pos (by simpa [hlast] using hcancelled)).mpr rfl
  · obtain ⟨c, hc, rfl, rfl⟩ := (run_ended_iff executor schedule round world hworkers).mp hmem
    have hlost : c.answered = false := by
      refine Bool.eq_false_iff.mpr fun hanswered => ?_
      cases (CallEnd.error?_eq_none.mpr hanswered).symm.trans herr
    have hlast := serve_last executor (jobs tasks) world c hc (.inr hlost)
    rw [hleft, hlast] at hopen
    unfold FailedOf
    rw [hlast]
    exact (if_neg (Bool.eq_false_iff.mp hopen)).mpr herr

end Cut

/-- **A phase that fails can be taken up again.** However many workers it had, each task is as it
was, or waited and carries the outcome of its own call, and none waits whose call gave one. A single
worker has made its calls one after the other and failed of the last; it has cut the queue in two,
in front the tasks with outcomes, behind those that wait as they did. Whatever phase comes next, if
the batch is open, calls the tasks that still wait, from the front and at the versions they had, and
all of them unless it fails itself; and it does not touch a task that has its outcome. -/
theorem run_resumable {executor : Executor S Req R} {workers : Int64} {schedule : List Choice}
    {round : Nat} {world : World S} {tasks : List (Task Req R)} {error : BatchError}
    (herror : (run executor workers schedule round world tasks).verdict = .error error) :
    let ended := run executor workers schedule round world tasks
    let calls := serve executor world (jobs tasks)
    (∀ (slot : Nat) t, tasks[slot]? = some t → ∃ t', ended.tasks[slot]? = some t' ∧
      Passed ended.log round slot t t') ∧
    (∀ job, job ∈ jobs ended.tasks ↔ job ∈ jobs tasks ∧
      ∀ result, .ended job result ∈ ended.log → result.outcome? = none) ∧
    (effectiveWorkers workers (jobs tasks).length ≤ 1 →
      ended.log = (calls.flatMap Served.events).reverse ∧ FailedOf calls world error ∧
      ∃ done rest, Cut calls round tasks ended.tasks done rest) ∧
    ∀ (executor' : Executor S Req R) workers' schedule' round' world',
      world'.cancelled = false →
      let again := run executor' workers' schedule' round' world' ended.tasks
      let called := (again.log.filterMap Event.started?).reverse
      called <+: jobs ended.tasks ∧ (jobs ended.tasks ≠ [] → called ≠ []) ∧
      (called ≠ jobs ended.tasks → ∃ error', again.verdict = .error error' ∧
        (again.world.cancelled = true ∧ error' = .cancelled ∨
          again.world.cancelled = false ∧ Blames again.log error')) ∧
      ∀ (slot : Nat) t, ended.tasks[slot]? = some t → t.status ≠ .pending →
        again.tasks[slot]? = some t := by
  intro ended calls
  refine ⟨fun slot t => run_task executor workers schedule round world tasks,
    fun job => mem_jobs_run executor workers schedule round world tasks, fun hworkers => ?_,
    fun executor' workers' schedule' round' world' hopen => ?_⟩
  · exact ⟨(run_serve executor schedule round world hworkers).1,
      run_failedOf executor schedule round world hworkers herror,
      run_cut executor schedule round world hworkers⟩
  intro again called
  refine ⟨?_, fun hwaiting => ?_, fun hcalled => ?_,
    fun _ _ => run_task_of_not_pending _ _ _ _ _ _⟩
  · exact run_started_front executor' workers' schedule' round' world' ended.tasks
  · exact mt List.reverse_eq_nil_iff.mp
      (run_begins executor' workers' schedule' round' world' hwaiting hopen)
  · cases hverdict : again.verdict with
    | error error' => exact ⟨error', rfl, run_error _ _ _ _ _ _ hverdict⟩
    | ok summary => exact absurd (run_started_of_ok _ _ _ _ _ _ hverdict) hcalled

/-! ## A phase that fails of its third call -/

/-- Answers with its request; a request for nothing goes back, and thirteen fails the batch. -/
def brittle : Executor Unit Nat Nat := fun n _ =>
  .finish <|
    if n = 0 then .aborted .requested else if n = 13 then .failed "thirteen" else .returned n

/-- Four tasks that wait, and one that has its response. -/
def unlucky : List (Task Nat Nat) := [
  { index := 0, request := 4 },
  { index := 1, request := 7, progress := .validated 7 1 },
  { index := 2, request := 0, incarnation := 1, lastAbort := some (.dependency 0) },
  { index := 3, request := 13, incarnation := 2 },
  { index := 4, request := 5 }]

theorem unlucky_resumable :
    let ended := run brittle 1 [] 2 ⟨(), false⟩ unlucky
    let again := run (fun n _ => .finish (.returned n)) 3 [.take, .take] 3 ⟨(), false⟩ ended.tasks
    ended.verdict = .error (.executionFailed 3 2 "thirteen") ∧
      ended.tasks[0]? = some { unlucky[0] with progress := .executed 4 2 } ∧
      ended.tasks[2]? =
        some { unlucky[2] with progress := .aborted, lastAbort := some .requested } ∧
      ended.tasks[3]? = unlucky[3]? ∧
      jobs ended.tasks = [⟨3, ⟨3, 2⟩, 13⟩, ⟨4, ⟨4, 0⟩, 5⟩] ∧
      (again.log.filterMap Event.started?).reverse = jobs ended.tasks ∧
      again.tasks[0]? = ended.tasks[0]? := by
  intro ended again
  have herror : ended.verdict = .error (.executionFailed 3 2 "thirteen") := rfl
  obtain ⟨-, -, hsingle, hagain⟩ := run_resumable herror
  obtain ⟨-, -, done, rest, hcut⟩ := hsingle (by decide)
  obtain ⟨-, -, hall, hkept⟩ :=
    hagain (fun n _ => .finish (.returned n)) 3 [.take, .take] 3 ⟨(), false⟩ rfl
  have hrest : [⟨3, ⟨3, 2⟩, 13⟩, ⟨4, ⟨4, 0⟩, 5⟩] = rest := hcut.waiting
  refine ⟨herror, rfl, rfl, hcut.kept ⟨3, ⟨3, 2⟩, 13⟩ (by simp [← hrest]), rfl, ?_,
    hkept 0 _ rfl (by decide)⟩
  by_contra hcalled
  obtain ⟨error, hverdict, -⟩ := hall hcalled
  cases hverdict

end Phase

end TxBatch
