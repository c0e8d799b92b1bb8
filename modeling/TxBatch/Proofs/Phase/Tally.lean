import TxBatch.Proofs.Phase.Delivery

/-!
# How many tasks a phase executed

A phase that succeeds moves each waiting task to one of two states, and its summary counts the
moves: the executed and the aborted tasks are as many more as it says, and no outcome comes too
late (`run_tally`).
-/

namespace TxBatch

variable {S Req R : Type}

def tally (status : Status) (tasks : List (Task Req R)) : Nat :=
  tasks.countP fun t => t.status = status

theorem tally_set {tasks : List (Task Req R)} {slot : Nat} {t : Task Req R}
    (ht : tasks[slot]? = some t) (t' : Task Req R) (status : Status) :
    tally status (tasks.set slot t') + (if t.status = status then 1 else 0) =
      tally status tasks + if t'.status = status then 1 else 0 := by
  unfold tally
  induction tasks generalizing slot with
  | nil => cases ht
  | cons u rest ih =>
      cases slot with
      | zero =>
          cases ht
          simp only [List.set_cons_zero, List.countP_cons, decide_eq_true_eq]
          omega
      | succ slot =>
          have hrest := ih ht
          simp only [List.set_cons_succ, List.countP_cons]
          omega

theorem tally_eq_zero {status : Status} {tasks : List (Task Req R)}
    (h : ∀ t ∈ tasks, t.status ≠ status) : tally status tasks = 0 :=
  List.countP_eq_zero.mpr fun t ht => by simpa using h t ht

theorem tally_eq_length {status : Status} {tasks : List (Task Req R)}
    (h : ∀ t ∈ tasks, t.status = status) : tally status tasks = tasks.length :=
  List.countP_eq_length.mpr fun t ht => by simpa using h t ht

/-- The tasks and the summary of a phase under way, and those that it began with. -/
structure Tallied (tasks after : List (Task Req R)) (summary : Summary) : Prop where
  executed : tally .executed after = tally .executed tasks + summary.executed
  aborted : tally .aborted after = tally .aborted tasks + summary.aborted
  validated : tally .validated after = tally .validated tasks
  pending : tally .pending after + summary.total = tally .pending tasks
  stale : summary.stale = 0

theorem tallied_nil (tasks : List (Task Req R)) : Tallied tasks tasks {} :=
  ⟨rfl, rfl, rfl, rfl, rfl⟩

theorem Tallied.receive {tasks after : List (Task Req R)} {summary : Summary}
    (h : Tallied tasks after summary) {slot : Nat} {t : Task Req R} (ht : after[slot]? = some t)
    (hpending : t.status = .pending) (round : Nat) (outcome : Outcome R) :
    Tallied tasks (after.set slot (t.receive round outcome)) (summary.count outcome) := by
  have hset := tally_set ht (t.receive round outcome)
  have hexecuted := hset .executed
  have haborted := hset .aborted
  have hvalidated := hset .validated
  have hwaiting := hset .pending
  have htotal := h.pending
  rw [Summary.total] at htotal
  cases outcome with
  | executed response =>
      have hstatus : (t.receive round (.executed response)).status = .executed := rfl
      simp only [hpending, hstatus, reduceCtorEq, if_true, if_false, Nat.add_zero] at *
      refine ⟨?_, haborted.trans h.aborted, hvalidated.trans h.validated, ?_, h.stale⟩
      · show _ = _ + (summary.executed + 1)
        rw [hexecuted, h.executed, Nat.add_assoc]
      · show _ + (summary.executed + 1 + summary.aborted + summary.stale) = _
        omega
  | aborted signal =>
      have hstatus : (t.receive round (.aborted signal)).status = .aborted := rfl
      simp only [hpending, hstatus, reduceCtorEq, if_true, if_false, Nat.add_zero] at *
      refine ⟨hexecuted.trans h.executed, ?_, hvalidated.trans h.validated, ?_, h.stale⟩
      · show _ = _ + (summary.aborted + 1)
        rw [haborted, h.aborted, Nat.add_assoc]
      · show _ + (summary.executed + (summary.aborted + 1) + summary.stale) = _
        omega

theorem tallied_foldl {tasks : List (Task Req R)} (round : Nat) (arrivals : List (Arrival R)) :
    ∀ {after : List (Task Req R)} {summary : Summary}, Tallied tasks after summary →
      Awaited after arrivals → (arrivals.map Arrival.slot).Nodup →
      Tallied tasks (arrivals.foldl (Arrival.deliver round) (after, summary)).1
        (arrivals.foldl (Arrival.deliver round) (after, summary)).2 := by
  induction arrivals with
  | nil => exact fun h _ _ => h
  | cons a rest ih =>
      intro after summary h hawaited hnodup
      obtain ⟨t, ht, hpending, hversion⟩ := hawaited a List.mem_cons_self
      rw [List.foldl_cons, deliver_awaited ht hpending hversion]
      exact ih (h.receive ht hpending round a.outcome) (hawaited.tail hnodup _)
        (List.nodup_cons.mp hnodup).2

namespace Phase

theorem run_tally (executor : Executor S Req R) (workers : Int64) (schedule : List Choice)
    (round : Nat) (world : World S) (tasks : List (Task Req R)) {summary : Summary}
    (hok : (run executor workers schedule round world tasks).verdict = .ok summary) :
    Tallied tasks (run executor workers schedule round world tasks).tasks summary := by
  rcases run_ok_cases _ _ _ _ _ _ hok with ⟨hjobs, rfl⟩ | ⟨hjobs, hworld, -, -, rfl⟩
  · rw [run_of_no_jobs _ _ _ _ _ _ hjobs]
    exact tallied_nil tasks
  · rw [run_eq_last _ _ _ _ _ _ hjobs hworld]
    obtain ⟨hawaited, hnodup⟩ := awaited_last executor workers schedule world tasks
    have hperm := List.reverse_perm (last executor workers schedule world tasks).arrivals
    exact tallied_foldl round _ (tallied_nil tasks)
      (fun a ha => hawaited a (hperm.mem_iff.mp ha)) ((hperm.map _).nodup_iff.mpr hnodup)

end Phase

end TxBatch
