import TxBatch.Proofs.Lockstep
import TxBatch.Proofs.Phase.Tally

/-!
# What a run reports

Every execution of a run belongs to a request or to a retry, and it ends with a response or an
abort. So what the report of a run counts is in balance between any two rounds, once the tasks that
wait are added (`Balanced`), and at the end nobody waits. Under the minimal policy the tasks sent
back are those that aborted, so each request is executed once with a response.
-/

namespace TxBatch

variable {S Req R : Type}

namespace Scheduler

variable {s : Scheduler S Req R} {env : Environment} {b b' : Batch S Req R} {requests : List Req}
  {number : Nat}

theorem round_report {summary : Summary} (hok : (s.phaseAfter env b).verdict = .ok summary) :
    (s.round env b).batch.report.executions = b.report.executions + summary.executed ∧
      (s.round env b).batch.report.aborts = b.report.aborts + summary.aborted ∧
      (s.round env b).batch.report.retries =
        b.report.retries + (s.passAfter env b).2.length := by
  unfold phaseAfter at hok
  unfold round passAfter phaseAfter
  simp only [hok]
  split
  · rename_i hnone
    rw [List.isEmpty_iff.mp hnone]
    exact ⟨rfl, rfl, rfl⟩
  · split <;> exact ⟨rfl, rfl, rfl⟩

theorem sendBackAll_tally {config : Config} (reported : List Nat) :
    ∀ {tasks tasks' : List (Task Req R)}, sendBackAll config tasks reported = .ok tasks' →
      reported.Nodup →
      (∀ index ∈ reported, ∃ t, tasks[index]? = some t ∧ t.status = .aborted) →
      tally .pending tasks' = tally .pending tasks + reported.length := by
  induction reported with
  | nil =>
      intro tasks tasks' h _ _
      cases h
      rfl
  | cons index rest ih =>
      intro tasks tasks' h hnodup haborted
      obtain ⟨hnotin, hnodup'⟩ := List.nodup_cons.mp hnodup
      obtain ⟨t, ht, hstatus⟩ := haborted index List.mem_cons_self
      simp only [sendBackAll, ht] at h
      split at h
      · cases h
      split at h
      · cases h
      rw [ih h hnodup' fun other hother => ?_]
      · have hset := tally_set ht (sendBack t) .pending
        have hpending : (sendBack t).status = .pending := by
          rw [sendBack_of_aborted hstatus]
          rfl
        simp only [hstatus, hpending, reduceCtorEq, if_true, if_false] at hset
        rw [List.length_cons]
        omega
      · obtain ⟨u, hu, hu'⟩ := haborted other (List.mem_cons_of_mem _ hother)
        have hne : index ≠ other := fun heq => hnotin (heq ▸ hother)
        exact ⟨u, by rw [List.getElem?_set_ne hne]; exact hu, hu'⟩

/-- Between two rounds every execution is accounted for. -/
structure Balanced (requests : List Req) (b : Batch S Req R) : Prop where
  seated : Seated requests b.tasks
  balance : b.report.executions + b.report.aborts + tally .pending b.tasks =
    requests.length + b.report.retries

theorem balanced_start (metrics : Metrics) (world : World S) (requests : List Req) :
    Balanced requests (Batch.start metrics world requests : Batch S Req R) where
  seated := seated_ofRequests requests
  balance := by
    have hall : ∀ t ∈ (Task.ofRequests requests : List (Task Req R)), t.status = .pending := by
      intro t ht
      obtain ⟨⟨request, index⟩, -, rfl⟩ := List.mem_map.mp ht
      rfl
    have hlength := (seated_ofRequests (R := R) requests).length
    show 0 + 0 + tally .pending (Task.ofRequests requests : List (Task Req R)) = _ + 0
    rw [tally_eq_length hall, hlength, Nat.zero_add, Nat.add_zero]

/-- The executions of a round are those of the tasks that waited. -/
theorem Balanced.round (h : Balanced requests b) {summary : Summary}
    (hok : (s.phaseAfter env b).verdict = .ok summary) :
    (s.round env b).batch.report.executions + (s.round env b).batch.report.aborts =
      requests.length + b.report.retries := by
  obtain ⟨hexecutions, haborts, -⟩ := round_report hok
  have htallied := Phase.run_tally _ _ _ _ _ _ hok
  have htotal := htallied.pending
  have hnone : tally .pending (s.phaseAfter env b).tasks = 0 := tally_eq_zero fun t ht => by
    obtain ⟨slot, hslot⟩ := List.getElem?_of_mem ht
    exact phaseAfter_status hok hslot
  have hbalance := h.balance
  rw [show (Phase.run ..).tasks = (s.phaseAfter env b).tasks from rfl, hnone, Summary.total,
    htallied.stale] at htotal
  rw [hexecutions, haborts]
  omega

section Judges

variable (hv : s.validator.Judges)

include hv

theorem Balanced.again (h : Balanced requests b) (hround : s.round env b = .again b') :
    Balanced requests b' := by
  obtain ⟨⟨summary, hok⟩, -, hsend, hretries⟩ := round_again hround
  have hexecuted := h.round hok
  rw [hround] at hexecuted
  have hsent := sendBackAll_tally _ hsend (hv.nodup_reported h.seated) fun index hmem =>
    (hv.mem_reported h.seated).mp hmem
  have hnone : tally .pending (s.passAfter env b).1 = 0 := tally_eq_zero fun t ht => by
    obtain ⟨slot, hslot⟩ := List.getElem?_of_mem ht
    rcases hv.passAfter_status hok hslot with hstatus | hstatus <;> simp [hstatus]
  refine ⟨hv.again_seated h.seated hround, ?_⟩
  rw [hsent, hnone, hretries]
  simp only [RoundEnd.batch] at hexecuted
  omega

theorem balanced_of_again {metrics : Metrics} {world : World S}
    (hb : s.roundEnd? env (Batch.start metrics world requests) number = some (.again b)) :
    Balanced requests b :=
  roundEnd?_again (I := fun _ b => Balanced requests b) (balanced_start metrics world requests)
    (fun h hround => h.again hv hround) hb

end Judges

/-! ## Under the minimal policy -/

section Minimal

variable (hs : s.validator = Validator.minimal)

include hs

/-- The tasks reported are those that their executions aborted. -/
theorem Lockstep.length_reported (h : Lockstep requests number b) {summary : Summary}
    (hok : (s.phaseAfter env b).verdict = .ok summary) :
    (s.passAfter env b).2.length = summary.aborted := by
  have haborted := (Phase.run_tally _ _ _ _ _ _ hok).aborted
  have hnone : tally .aborted b.tasks = 0 := tally_eq_zero fun t ht => by
    obtain ⟨slot, hslot⟩ := List.getElem?_of_mem ht
    rcases h.status hslot with ⟨hstatus, -⟩ | ⟨hstatus, -⟩ <;> simp [hstatus]
  have hpass : (s.passAfter env b).2.length = tally .aborted (s.phaseAfter env b).tasks := by
    rw [passAfter, hs]
    simp only [Validator.minimal, Validator.abortedIndices, List.length_map, tally,
      List.countP_eq_length_filter, List.filter_map]
    refine congrArg (fun p => (List.filter p _).length) (funext fun t => ?_)
    simp [Task.status_validate_aborted]
  rw [hpass]
  rw [hnone, Nat.zero_add] at haborted
  exact haborted

theorem Lockstep.round_aborts (h : Lockstep requests number b) {summary : Summary}
    (hok : (s.phaseAfter env b).verdict = .ok summary)
    (hpaid : b.report.aborts = b.report.retries) :
    (s.round env b).batch.report.aborts = (s.round env b).batch.report.retries := by
  obtain ⟨-, haborts, hretries⟩ := round_report hok
  rw [haborts, hretries, h.length_reported hs hok, hpaid]

theorem aborts_of_again {metrics : Metrics} {world : World S} (hne : requests ≠ [])
    (hb : s.roundEnd? env (Batch.start metrics world requests) number = some (.again b)) :
    b.report.aborts = b.report.retries := by
  refine (roundEnd?_again (I := fun number b => Lockstep requests number b ∧
    b.report.aborts = b.report.retries) ⟨lockstep_start metrics world hne, rfl⟩
    (fun {number b b'} h hround => ?_) hb).2
  obtain ⟨⟨summary, hok⟩, -⟩ := round_again hround
  have haborts := h.1.round_aborts hs hok h.2
  rw [hround] at haborts
  exact ⟨h.1.again hs hround, haborts⟩

end Minimal

end Scheduler

end TxBatch
