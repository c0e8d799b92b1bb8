import Mathlib.Data.List.Nodup
import TxBatch.Proofs.Phase.Blame
import TxBatch.Proofs.Phase.Tally

/-!
# A phase that succeeds

Each outcome is for a slot of its own, so the order in which they arrive makes no difference, to the
tasks or to the summary (`deliverAll_perm`). So what a phase that succeeds comes to is said by the
outcomes alone: which call gave which, for the tasks (`Phase.run_task_of_ok`), and how many gave
what, for the summary (`Tallied.executed_eq`, `Tallied.aborted_eq`).
-/

namespace TxBatch

variable {S Req R : Type}

/-! ## Counting those that waited -/

/-- How many tasks came from waiting to a status. -/
def settledAs (status : Status) (tasks after : List (Task Req R)) : Nat :=
  (tasks.zip after).countP fun (t, t') => t.status = .pending ∧ t'.status = status

/-- If only waiting tasks change, a status has gained what came to it from waiting. -/
theorem tally_eq_add_settledAs {tasks after : List (Task Req R)} {status : Status}
    (hlength : after.length = tasks.length)
    (hkept : ∀ (slot : Nat) t, tasks[slot]? = some t → t.status ≠ .pending →
      after[slot]? = some t) (hstatus : status ≠ .pending) :
    tally status after = tally status tasks + settledAs status tasks after := by
  induction tasks generalizing after with
  | nil =>
      rw [List.eq_nil_of_length_eq_zero hlength]
      rfl
  | cons t rest ih =>
      obtain ⟨t', rest', rfl⟩ := List.exists_cons_of_length_eq_add_one hlength
      have hrest := ih (Nat.succ.inj hlength) fun slot => hkept (slot + 1)
      simp only [tally, settledAs, List.zip_cons_cons, List.countP_cons] at hrest ⊢
      by_cases hpending : t.status = .pending
      · simp only [hpending, hstatus.symm, true_and, decide_eq_true_eq, if_false]
        omega
      · rw [Option.some.inj (hkept 0 t rfl hpending)]
        simp only [hpending, false_and, decide_false, Bool.false_eq_true, if_false]
        omega

section Tallied

variable {tasks after : List (Task Req R)} {summary : Summary} (h : Tallied tasks after summary)

include h

theorem Tallied.unique {summary' : Summary} (h' : Tallied tasks after summary') :
    summary = summary' := by
  obtain ⟨executed, aborted, stale⟩ := summary
  obtain ⟨executed', aborted', stale'⟩ := summary'
  have hexecuted := h.executed.symm.trans h'.executed
  have haborted := h.aborted.symm.trans h'.aborted
  have hstale := h.stale.trans h'.stale.symm
  dsimp only at hexecuted haborted hstale
  rw [Nat.add_left_cancel hexecuted, Nat.add_left_cancel haborted, hstale]

end Tallied

/-! ## The order of arrival -/

/-- The outcomes of a round can arrive in any order. -/
theorem deliverAll_perm {tasks : List (Task Req R)} {arrivals arrivals' : List (Arrival R)}
    (hawaited : Awaited tasks arrivals) (hnodup : (arrivals.map Arrival.slot).Nodup)
    (h : arrivals'.Perm arrivals) (round : Nat) :
    deliverAll round tasks arrivals' = deliverAll round tasks arrivals := by
  have hawaited' : Awaited tasks arrivals' := fun a ha => hawaited a (h.mem_iff.mp ha)
  have hnodup' := (h.map Arrival.slot).nodup_iff.mpr hnodup
  obtain ⟨hreached, hother⟩ := foldl_deliver round arrivals tasks {} hawaited hnodup
  obtain ⟨hreached', hother'⟩ := foldl_deliver round arrivals' tasks {} hawaited' hnodup'
  have htasks : (deliverAll round tasks arrivals').1 = (deliverAll round tasks arrivals).1 := by
    refine List.ext_getElem? fun slot => ?_
    by_cases hany : ∃ a ∈ arrivals, a.slot = slot
    · obtain ⟨a, ha, rfl⟩ := hany
      obtain ⟨t, ht, -, -⟩ := hawaited a ha
      exact (hreached' a (h.mem_iff.mpr ha) t ht).trans (hreached a ha t ht).symm
    · have hnone : ∀ a ∈ arrivals, a.slot ≠ slot := fun a ha heq => hany ⟨a, ha, heq⟩
      exact (hother' slot fun a ha => hnone a (h.mem_iff.mp ha)).trans (hother slot hnone).symm
  have htallied := tallied_foldl round arrivals (tallied_nil tasks) hawaited hnodup
  have htallied' := tallied_foldl round arrivals' (tallied_nil tasks) hawaited' hnodup'
  exact Prod.ext htasks (Tallied.unique (htasks ▸ htallied') htallied)

namespace Phase

section Run

variable (executor : Executor S Req R) (workers : Int64) (schedule : List Choice) (round : Nat)
  (world : World S) (tasks : List (Task Req R))

/-- The outcomes of a phase are all awaited, one a slot. -/
theorem run_awaited :
    let arrivals := (run executor workers schedule round world tasks).log.filterMap Event.arrival?
    Awaited tasks arrivals ∧ (arrivals.map Arrival.slot).Nodup := by
  refine run_induct executor workers schedule round world tasks
    (P := fun e => Awaited tasks (e.log.filterMap Event.arrival?) ∧
      ((e.log.filterMap Event.arrival?).map Arrival.slot).Nodup)
    (fun _ => ⟨fun _ ha => (List.not_mem_nil ha).elim, List.nodup_nil⟩) fun _ _ => ?_
  have hlast := awaited_last executor workers schedule world tasks
  rw [(accounted_last executor workers schedule world tasks).arrivals] at hlast
  exact hlast

theorem run_ended_perm :
    ((run executor workers schedule round world tasks).log.filterMap Event.ended?).Perm
      ((run executor workers schedule round world tasks).log.filterMap Event.started?) := by
  refine run_induct executor workers schedule round world tasks
    (P := fun e => (e.log.filterMap Event.ended?).Perm (e.log.filterMap Event.started?))
    (fun _ => .refl _) fun _ _ => ?_
  have hended := (accounted_last executor workers schedule world tasks).ended
  rw [show (last executor workers schedule world tasks).running = [] from drain_running ..,
    List.map_nil, List.nil_append] at hended
  exact hended.symm

variable {executor workers schedule round world tasks}
variable {summary : Summary}
  (hok : (run executor workers schedule round world tasks).verdict = .ok summary)

include hok

/-- A phase that succeeds comes to what its outcomes make of the tasks, in whatever order. -/
theorem deliverAll_of_run_ok {arrivals : List (Arrival R)}
    (h : arrivals.Perm
      ((run executor workers schedule round world tasks).log.filterMap Event.arrival?)) :
    deliverAll round tasks arrivals =
      ((run executor workers schedule round world tasks).tasks, summary) := by
  obtain ⟨hawaited, hnodup⟩ := run_awaited executor workers schedule round world tasks
  rw [deliverAll_perm hawaited hnodup h]
  rcases run_ok_cases _ _ _ _ _ _ hok with ⟨hjobs, rfl⟩ | ⟨hjobs, hworld, -, -, rfl⟩
  · rw [run_of_no_jobs _ _ _ _ _ _ hjobs]
    rfl
  · rw [← deliverAll_perm hawaited hnodup (List.reverse_perm _),
      run_eq_last _ _ _ _ _ _ hjobs hworld]
    simp only [(accounted_last executor workers schedule world tasks).arrivals]

theorem run_summary :
    let ended := run executor workers schedule round world tasks
    summary.executed = settledAs .executed tasks ended.tasks ∧
      summary.aborted = settledAs .aborted tasks ended.tasks ∧
      summary.stale = 0 ∧ summary.total = tally .pending tasks := by
  intro ended
  have htallied : Tallied tasks ended.tasks summary := run_tally _ _ _ _ _ _ hok
  have hgained : ∀ status, status ≠ .pending →
      tally status ended.tasks = tally status tasks + settledAs status tasks ended.tasks :=
    fun _ => tally_eq_add_settledAs (run_length ..)
      fun _ _ => run_task_of_not_pending executor workers schedule round world tasks
  have hnobody : ∀ t ∈ ended.tasks, t.status ≠ .pending := fun t hmem => by
    obtain ⟨slot, ht⟩ := List.mem_iff_getElem?.mp hmem
    exact run_settles _ _ _ _ _ _ hok ht
  refine ⟨?_, ?_, htallied.stale, ?_⟩
  · exact Nat.add_left_cancel (htallied.executed.symm.trans (hgained .executed (by decide)))
  · exact Nat.add_left_cancel (htallied.aborted.symm.trans (hgained .aborted (by decide)))
  · rw [← htallied.pending, tally_eq_zero hnobody, Nat.zero_add]

theorem mem_started_of_ok {job : Job Req} :
    job ∈ (run executor workers schedule round world tasks).log.filterMap Event.started? ↔
      job ∈ jobs tasks := by
  rw [← run_started_of_ok _ _ _ _ _ _ hok, List.mem_reverse]

theorem exists_ended_of_ok {job : Job Req} (hjob : job ∈ jobs tasks) :
    ∃ result, .ended job result ∈ (run executor workers schedule round world tasks).log := by
  rw [← mem_started_of_ok hok, ← (run_ended_perm ..).mem_iff, List.mem_filterMap] at hjob
  obtain ⟨event, hmem, hevent⟩ := hjob
  obtain ⟨result, rfl⟩ := Event.ended?_eq_some.mp hevent
  exact ⟨result, hmem⟩

theorem arrivals_perm_of_ok {executor' : Executor S Req R} {workers' : Int64}
    {schedule' : List Choice} {world' : World S} {summary' : Summary}
    (hok' : (run executor' workers' schedule' round world' tasks).verdict = .ok summary')
    (halike : ∀ job result,
      .ended job result ∈ (run executor' workers' schedule' round world' tasks).log →
        .ended job result ∈ (run executor workers schedule round world tasks).log) :
    ((run executor' workers' schedule' round world' tasks).log.filterMap Event.arrival?).Perm
      ((run executor workers schedule round world tasks).log.filterMap Event.arrival?) := by
  have hsame : ∀ job result,
      .ended job result ∈ (run executor' workers' schedule' round world' tasks).log ↔
        .ended job result ∈ (run executor workers schedule round world tasks).log := by
    refine fun job result => ⟨halike job result, fun hmem => ?_⟩
    have hjob := (mem_started_of_ok hok).mp (List.mem_filterMap.mpr
      ⟨_, run_ended_mem_started executor workers schedule round world tasks hmem, rfl⟩)
    obtain ⟨result', hmem'⟩ := exists_ended_of_ok hok' hjob
    rwa [run_ended_unique executor workers schedule round world tasks hmem
      (halike job result' hmem')]
  refine (List.perm_ext_iff_of_nodup (List.Nodup.of_map _ (run_awaited ..).2)
    (List.Nodup.of_map _ (run_awaited ..).2)).mpr fun a => ?_
  simp only [List.mem_filterMap, Event.arrival?_eq_some]
  constructor
  · rintro ⟨_, hmem, job, result, rfl, ha⟩
    exact ⟨_, (hsame job result).mp hmem, job, result, rfl, ha⟩
  · rintro ⟨_, hmem, job, result, rfl, ha⟩
    exact ⟨_, (hsame job result).mpr hmem, job, result, rfl, ha⟩

/-- **A phase that succeeds.** It has called each waiting task once, at its version and with its
request, and no other. Each of them holds what its own call gave, a response with the round or an
abort with its signal, and all others are as they were. The summary counts both kinds, drops
nothing, and adds up to the tasks that waited. The order in which the outcomes arrived makes no
difference, and nor does anything else about the run: another phase with the same tasks whose calls
end alike comes to the same. -/
theorem run_executes_pending :
    let ended := run executor workers schedule round world tasks
    let called := ended.log.filterMap Event.started?
    (called.map Job.slot).Nodup ∧
    (∀ job, job ∈ called ↔ ∃ t, tasks[job.slot]? = some t ∧ t.status = .pending ∧
      job.version = t.version ∧ job.request = t.request) ∧
    (ended.log.filterMap Event.ended?).Perm called ∧
    ended.tasks.length = tasks.length ∧
    (∀ (slot : Nat) t, tasks[slot]? = some t → t.status ≠ .pending →
      ended.tasks[slot]? = some t) ∧
    (∀ (slot : Nat) t, tasks[slot]? = some t → t.status = .pending →
      (∃ response, .ended ⟨slot, t.version, t.request⟩ (.returned response) ∈ ended.log ∧
        ended.tasks[slot]? = some { t with progress := .executed response round }) ∨
      ∃ signal, .ended ⟨slot, t.version, t.request⟩ (.aborted signal) ∈ ended.log ∧
        ended.tasks[slot]? = some { t with progress := .aborted, lastAbort := some signal }) ∧
    summary.executed = settledAs .executed tasks ended.tasks ∧
    summary.aborted = settledAs .aborted tasks ended.tasks ∧
    summary.stale = 0 ∧ summary.total = tally .pending tasks ∧
    (∀ arrivals, arrivals.Perm (ended.log.filterMap Event.arrival?) →
      deliverAll round tasks arrivals = (ended.tasks, summary)) ∧
    (∀ executor' workers' schedule' world' summary',
      let other := run (S := S) executor' workers' schedule' round world' tasks
      other.verdict = .ok summary' →
      (∀ job result, .ended job result ∈ other.log → .ended job result ∈ ended.log) →
      other.tasks = ended.tasks ∧ summary' = summary) := by
  intro ended called
  obtain ⟨hexecuted, haborted, hstale, htotal⟩ := run_summary hok
  refine ⟨?_, fun job => (mem_started_of_ok hok).trans mem_jobs, run_ended_perm .., run_length ..,
    fun _ _ => run_task_of_not_pending _ _ _ _ _ _, ?_, hexecuted, haborted, hstale, htotal,
    fun _ => deliverAll_of_run_ok hok, ?_⟩
  · have hnodup := jobs_slots_nodup tasks
    rw [← run_started_of_ok _ _ _ _ _ _ hok, List.map_reverse] at hnodup
    exact (List.reverse_perm _).nodup_iff.mp hnodup
  · intro slot t ht hpending
    obtain ⟨result, outcome, hended, houtcome, hslot⟩ :=
      run_task_of_ok _ _ _ _ _ _ hok ht hpending
    cases outcome with
    | executed response => exact .inl ⟨response, CallEnd.eq_returned houtcome ▸ hended, hslot⟩
    | aborted signal => exact .inr ⟨signal, CallEnd.eq_aborted houtcome ▸ hended, hslot⟩
  · intro executor' workers' schedule' world' summary' other hok' halike
    have hsame : (other.tasks, summary') = (ended.tasks, summary) :=
      (deliverAll_of_run_ok hok' (.refl _)).symm.trans
        (deliverAll_of_run_ok hok (arrivals_perm_of_ok hok hok' halike))
    exact Prod.mk.inj hsame

end Run

/-! ## Three calls that overtake each other -/

/-- Adds its request to the shared sum and answers with it; a request for nothing goes back. -/
def summing : Executor Nat Nat Nat := fun n _ =>
  .step (fun w => ⟨w.state + n, false⟩) fun w =>
    .finish (if n = 0 then .aborted .requested else .returned (w.state + n))

/-- Three tasks of one position, of which two wait, and two others. -/
def sameIndex : List (Task Nat Nat) := [
  { index := 5, request := 10, incarnation := 2, lastAbort := some .requested },
  { index := 5, request := 3, progress := .validated 3 1 },
  { index := 1, request := 0 },
  { index := 0, request := 7, progress := .aborted, lastAbort := some (.dependency 5) },
  { index := 5, request := 20 }]

/-- The last call is begun last and is the first to end. -/
def lastFirst : List Choice := [.take, .take, .take, .advance 2, .advance 0, .advance 2]

/-- The outcomes find their tasks although two of them are for one position, and in whatever order
they arrive. -/
theorem lastFirst_executes_pending :
    let ended := run summing 0 lastFirst 4 ⟨0, false⟩ sameIndex
    ended.verdict = .ok ⟨2, 1, 0⟩ ∧
      ended.log.filterMap Event.started? = [⟨4, ⟨5, 0⟩, 20⟩, ⟨2, ⟨1, 0⟩, 0⟩, ⟨0, ⟨5, 2⟩, 10⟩] ∧
      ended.tasks[0]? = some { sameIndex[0] with progress := .executed 30 4 } ∧
      ended.tasks[4]? = some { sameIndex[4] with progress := .executed 20 4 } ∧
      ended.tasks[1]? = some sameIndex[1] ∧
      deliverAll 4 sameIndex (ended.log.filterMap Event.arrival?) =
        deliverAll 4 sameIndex (ended.log.filterMap Event.arrival?).reverse := by
  intro ended
  have hok : ended.verdict = .ok ⟨2, 1, 0⟩ := rfl
  obtain ⟨-, -, -, -, hkept, -, -, -, -, -, horder, -⟩ := run_executes_pending hok
  exact ⟨hok, rfl, rfl, rfl, hkept 1 _ rfl (by decide),
    (horder _ (.refl _)).trans (horder _ (List.reverse_perm _)).symm⟩

end Phase

end TxBatch
