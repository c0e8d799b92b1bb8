import TxBatch.Proofs.Phase.Delivery

/-!
# Why a phase fails

The errors that a parent can notice are those of the workers that died, and a worker dies only at
the end of its call. So the error of a phase is that of a call in its log, unless the batch was
cancelled, and then it says so (`run_error`).
-/

namespace TxBatch

variable {S Req R : Type}

/-- The error that a call without an outcome leaves behind. -/
def CallEnd.error? (job : Job Req) : CallEnd R → Option BatchError
  | .returned _ => none
  | .aborted _ => none
  | .failed reason =>
    some (.executionFailed job.version.index job.version.incarnation reason)
  | .crashed report => some (.workerCrashed report)

/-- It is never that of the batch. -/
theorem CallEnd.error?_ne_cancelled {job : Job Req} {result : CallEnd R} :
    result.error? job ≠ some .cancelled := by
  cases result <;> simp [error?]

theorem CallEnd.error?_eq_none {job : Job Req} {result : CallEnd R} :
    result.error? job = none ↔ result.outcome?.isSome := by
  cases result <;> simp [error?, outcome?]

/-- A call in the log left the error behind. -/
def Blames (log : List (Event Req R)) (error : BatchError) : Prop :=
  ∃ job result, .ended job result ∈ log ∧ result.error? job = some error

theorem Blames.cons {log : List (Event Req R)} {error : BatchError} (h : Blames log error)
    (event : Event Req R) : Blames (event :: log) error := by
  obtain ⟨job, result, hmem, herror⟩ := h
  exact ⟨job, result, List.mem_cons_of_mem _ hmem, herror⟩

/-- What a call leaves behind is its own failure, nothing that the batch decides. -/
theorem Blames.cases {log : List (Event Req R)} {error : BatchError} (h : Blames log error) :
    (∃ index incarnation reason, error = .executionFailed index incarnation reason) ∨
      ∃ reason, error = .workerCrashed reason := by
  obtain ⟨job, result, -, herror⟩ := h
  cases result with
  | returned response => cases herror
  | aborted signal => cases herror
  | failed reason =>
      cases herror
      exact .inl ⟨_, _, _, rfl⟩
  | crashed report =>
      cases herror
      exact .inr ⟨_, rfl⟩

namespace Phase

structure Blamed (p : Phase S Req R) : Prop where
  unnoticed : ∀ error ∈ p.unnoticed, Blames p.log error
  failure : ∀ error, p.failure = some error → Blames p.log error

theorem unnoticed_conclude (p : Phase S Req R) (job : Job Req) (result : CallEnd R) :
    (p.conclude job result).unnoticed = p.unnoticed ++ (result.error? job).toList := by
  cases result <;> simp [conclude, arrive, lose, CallEnd.error?]

theorem Blamed.step {executor : Executor S Req R} {p q : Phase S Req R}
    (h : Step executor p q) (hp : Blamed p) : Blamed q := by
  cases h with
  | take hqueue htake =>
      exact ⟨fun error hmem => (hp.unnoticed error hmem).cons _,
        fun error hmem => (hp.failure error hmem).cons _⟩
  | advance place hplace => exact ⟨hp.unnoticed, hp.failure⟩
  | @finish place job result hplace =>
      refine ⟨fun error hmem => ?_, fun error hfailure => ?_⟩
      · rw [unnoticed_conclude, List.mem_append, Option.mem_toList] at hmem
        rw [log_conclude]
        rcases hmem with hmem | herror
        · exact (hp.unnoticed error hmem).cons _
        · exact ⟨job, result, List.mem_cons_self, herror⟩
      · rw [failure_conclude] at hfailure
        rw [log_conclude]
        exact (hp.failure error hfailure).cons _
  | notice place hplace =>
      refine ⟨fun error hmem => hp.unnoticed error (List.mem_of_mem_eraseIdx hmem),
        fun error hfailure => ?_⟩
      rcases Option.or_eq_some_iff.mp hfailure with hold | ⟨-, hnew⟩
      · exact hp.failure error hold
      · exact hp.unnoticed error (Option.some.inj hnew ▸ List.mem_of_getElem? hplace)

section Run

variable (executor : Executor S Req R) (workers : Int64) (schedule : List Choice) (round : Nat)
  (world : World S) (tasks : List (Task Req R))

theorem blamed_last : Blamed (last executor workers schedule world tasks) :=
  (steps_last ..).invariant Blamed.step
    ⟨fun _ hmem => (List.not_mem_nil hmem).elim, fun _ hfailure => by cases hfailure⟩

theorem run_error {error : BatchError}
    (h : (run executor workers schedule round world tasks).verdict = .error error) :
    ((run executor workers schedule round world tasks).world.cancelled = true ∧
      error = .cancelled) ∨
    ((run executor workers schedule round world tasks).world.cancelled = false ∧
      Blames (run executor workers schedule round world tasks).log error) := by
  by_cases hjobs : jobs tasks = []
  · rw [run_of_no_jobs _ _ _ _ _ _ hjobs] at h
    cases h
  cases hworld : world.cancelled with
  | true =>
      rw [run_of_cancelled _ _ _ _ _ _ hjobs hworld] at h ⊢
      cases h
      exact .inl ⟨hworld, rfl⟩
  | false =>
      rw [run_eq_last _ _ _ _ _ _ hjobs hworld] at h ⊢
      simp only [verdict] at h
      split at h
      · rename_i hcancelled
        cases h
        exact .inl ⟨hcancelled, rfl⟩
      rename_i hcancelled
      split at h
      · rename_i hfailure
        cases h
        exact .inr ⟨by simpa using hcancelled, (blamed_last ..).failure _ hfailure⟩
      · cases h

theorem run_outcome_of_ok {summary : Summary}
    (hok : (run executor workers schedule round world tasks).verdict = .ok summary)
    {job : Job Req} {result : CallEnd R}
    (hmem : .ended job result ∈ (run executor workers schedule round world tasks).log) :
    result.outcome?.isSome := by
  rcases run_ok_cases _ _ _ _ _ _ hok with ⟨hjobs, -⟩ | ⟨hjobs, hworld, -, hfailure, -⟩
  · rw [run_of_no_jobs _ _ _ _ _ _ hjobs] at hmem
    cases hmem
  · rw [run_eq_last _ _ _ _ _ _ hjobs hworld] at hmem
    exact (staffed_last ..).outcome hfailure (drain_unnoticed ..) hmem

theorem run_succeeds
    (hworld : (run executor workers schedule round world tasks).world.cancelled = false)
    (houtcome : ∀ {job result},
      .ended job result ∈ (run executor workers schedule round world tasks).log →
        result.outcome?.isSome) :
    ∃ summary, (run executor workers schedule round world tasks).verdict = .ok summary := by
  cases hverdict : (run executor workers schedule round world tasks).verdict with
  | ok summary => exact ⟨summary, rfl⟩
  | error error =>
      rcases run_error _ _ _ _ _ _ hverdict with ⟨hcancelled, -⟩ | ⟨-, job, result, hmem, herror⟩
      · rw [hworld] at hcancelled
        cases hcancelled
      · have hsome := houtcome hmem
        cases result <;> cases herror <;> cases hsome

end Run

end Phase

end TxBatch
