import Mathlib.Data.List.Nodup
import TxBatch.Proofs.Committed
import TxBatch.Proofs.Incarnations

/-!
# The calls of a run

What a run did is in its log: the calls that began, round by round, and how they ended. Between two
rounds the log and the tasks say the same (`Told`): a position was called at each incarnation in
front of the one its task waits at, each once and in order, and behind a result stands the one call
that returned it. A phase adds at most the attempt that a task waits at, validation and sending
back add nothing.

So over a whole run, however it ends, the calls of a position go through the incarnations from zero
on (`process_history`), and a call is made again exactly if its result was reported.
-/

namespace TxBatch

variable {S Req R : Type}

/-- The calls of a phase, in the order in which they began. -/
def begun (log : List (Event Req R)) : List (Job Req) := (log.filterMap Event.started?).reverse

/-- The calls of a run, in the order in which they began, each with its round. The log has the
newest round in front. -/
def calls : List (List (Event Req R)) → List (Nat × Job Req)
  | [] => []
  | newest :: older => calls older ++ (begun newest).map fun job => (older.length + 1, job)

def callsAt (index : Nat) (log : List (List (Event Req R))) : List (Nat × Job Req) :=
  (calls log).filter fun call => call.2.version.index = index

def attempts (index : Nat) (request : Req) (count : Nat) : List (Job Req) :=
  (List.range count).map fun incarnation => ⟨index, ⟨index, incarnation⟩, request⟩

theorem attempts_succ (index : Nat) (request : Req) (count : Nat) :
    attempts index request (count + 1) =
      attempts index request count ++ [⟨index, ⟨index, count⟩, request⟩] := by
  simp [attempts, List.range_succ]

@[simp] theorem length_attempts (index : Nat) (request : Req) (count : Nat) :
    (attempts index request count).length = count := by
  simp [attempts]

theorem incarnation_lt_of_mem_attempts {index count : Nat} {request : Req} {job : Job Req}
    (h : job ∈ attempts index request count) : job.version.incarnation < count := by
  obtain ⟨incarnation, hlt, rfl⟩ := List.mem_map.mp h
  exact List.mem_range.mp hlt

theorem mem_begun {log : List (Event Req R)} {job : Job Req} :
    job ∈ begun log ↔ .started job ∈ log := by
  simp [begun, Event.started?_eq_some]

theorem callsAt_cons (index : Nat) (newest : List (Event Req R))
    (older : List (List (Event Req R))) :
    callsAt index (newest :: older) = callsAt index older ++
      ((begun newest).filter fun job => job.version.index = index).map
        fun job => (older.length + 1, job) := by
  simp only [callsAt, calls, List.filter_append, List.filter_map]
  rfl

theorem round_of_mem_calls {log : List (List (Event Req R))} {call : Nat × Job Req}
    (h : call ∈ calls log) : 1 ≤ call.1 ∧ call.1 ≤ log.length := by
  induction log with
  | nil => cases h
  | cons newest older ih =>
      rw [calls, List.mem_append, List.mem_map] at h
      rw [List.length_cons]
      rcases h with h | ⟨job, -, rfl⟩
      · have := ih h
        omega
      · exact ⟨Nat.le_add_left _ _, Nat.le_refl _⟩

theorem mem_calls_append {newer older : List (List (Event Req R))} {phase : List (Event Req R)}
    {job : Job Req} :
    (older.length + 1, job) ∈ calls (newer ++ phase :: older) ↔ .started job ∈ phase := by
  induction newer with
  | nil =>
      rw [List.nil_append, calls, List.mem_append]
      constructor
      · rintro (h | h)
        · have := (round_of_mem_calls h).2
          omega
        · obtain ⟨job', hjob, heq⟩ := List.mem_map.mp h
          cases heq
          exact mem_begun.mp hjob
      · exact fun h => .inr (List.mem_map_of_mem (mem_begun.mpr h))
  | cons newest newer ih =>
      rw [List.cons_append, calls, List.mem_append, ih, or_iff_left]
      intro h
      obtain ⟨_, -, heq⟩ := List.mem_map.mp h
      have := congrArg Prod.fst heq
      simp only [List.length_append, List.length_cons] at this
      omega

/-! ## The calls of one phase -/

section Phase

variable {requests : List Req} {tasks : List (Task Req R)} (h : Seated requests tasks)

include h

theorem Seated.job_eq {slot : Nat} {t : Task Req R} (ht : tasks[slot]? = some t) {job : Job Req}
    (hjob : job ∈ jobs tasks) (hindex : job.version.index = slot) :
    t.status = .pending ∧ job = ⟨slot, t.version, t.request⟩ := by
  obtain ⟨slot', version, request⟩ := job
  obtain ⟨u, hu, hpending, hversion, hrequest⟩ := Phase.mem_jobs.mp hjob
  dsimp only at hu hversion hrequest hindex
  subst hversion hrequest
  obtain rfl : slot' = slot := (h.index hu).symm.trans hindex
  obtain rfl := Option.some.inj (hu.symm.trans ht)
  exact ⟨hpending, rfl⟩

/-- A waiting task has one job, and no other task has one. -/
theorem Seated.filter_jobs {slot : Nat} {t : Task Req R} (ht : tasks[slot]? = some t) :
    ((jobs tasks).filter fun job => job.version.index = slot) =
      if t.status = .pending then [⟨slot, t.version, t.request⟩] else [] := by
  split
  · rename_i hpending
    have hall : ∀ job ∈ (jobs tasks).filter fun job => job.version.index = slot,
        job = ⟨slot, t.version, t.request⟩ := fun job hmem => by
      obtain ⟨hjob, hindex⟩ := List.mem_filter.mp hmem
      exact (h.job_eq ht hjob (by simpa using hindex)).2
    have hmem : ⟨slot, t.version, t.request⟩ ∈
        (jobs tasks).filter fun job => job.version.index = slot :=
      List.mem_filter.mpr ⟨Phase.mem_jobs.mpr ⟨t, ht, hpending, rfl, rfl⟩,
        decide_eq_true (h.index ht)⟩
    have hnodup := List.Nodup.filter (fun job : Job Req => decide (job.version.index = slot))
      (List.Nodup.of_map Job.slot (Phase.jobs_slots_nodup tasks))
    have heq := List.eq_replicate_of_mem hall
    rw [heq] at hmem hnodup ⊢
    have hle := List.nodup_replicate.mp hnodup
    have hpos := List.length_pos_of_mem hmem
    rw [List.length_replicate] at hpos
    rw [Nat.le_antisymm hle hpos]
    rfl
  · rename_i hstatus
    refine List.filter_eq_nil_iff.mpr fun job hjob hindex => hstatus ?_
    exact (h.job_eq ht hjob (by simpa using hindex)).1

end Phase

/-! ## The log and the tasks -/

/-- How often a task was executed, between two phases. -/
def Task.executions (t : Task Req R) : Nat :=
  if t.status = .pending then t.incarnation else t.incarnation + 1

theorem Task.executions_of_ne_pending {t : Task Req R} (h : t.status ≠ .pending) :
    t.executions = t.incarnation + 1 := if_neg h

/-- The log tells how the tasks got where they are. -/
structure Told (requests : List Req) (tasks : List (Task Req R))
    (log : List (List (Event Req R))) : Prop where
  seated : Seated requests tasks
  below : ∀ call ∈ calls log, call.2.version.index < requests.length
  rising : ∀ index, ((callsAt index log).map Prod.fst).Pairwise (· < ·)
  made : ∀ {slot : Nat} {t}, tasks[slot]? = some t →
    (callsAt slot log).map Prod.snd = attempts slot t.request t.executions
  begun : ∀ {job result}, .ended job result ∈ log.flatten → ∃ round, (round, job) ∈ calls log
  answered : ∀ {slot : Nat} {t response round}, tasks[slot]? = some t →
    t.result? = some (response, round) → ∀ result,
      .ended ⟨slot, t.version, t.request⟩ result ∈ log.flatten ↔ result = .returned response

theorem told_ofRequests (requests : List Req) :
    Told requests (Task.ofRequests requests : List (Task Req R)) [] where
  seated := seated_ofRequests requests
  below := fun _ hmem => (List.not_mem_nil hmem).elim
  rising := fun _ => .nil
  made := fun ht => by
    obtain ⟨⟨request, index⟩, -, rfl⟩ := List.mem_map.mp (List.mem_of_getElem? ht)
    rfl
  begun := fun hmem => (List.not_mem_nil hmem).elim
  answered := fun ht hresult => by
    obtain ⟨⟨request, index⟩, -, rfl⟩ := List.mem_map.mp (List.mem_of_getElem? ht)
    cases hresult

namespace Told

variable {requests : List Req} {tasks : List (Task Req R)} {log : List (List (Event Req R))}

/-- The log still tells how the tasks got where they are when some are judged or sent back. -/
theorem replace (h : Told requests tasks log) {tasks' : List (Task Req R)}
    (hlength : tasks'.length = tasks.length)
    (hsame : ∀ {slot : Nat} {t'}, tasks'[slot]? = some t' → ∃ t, tasks[slot]? = some t ∧
      t'.index = t.index ∧ t'.request = t.request ∧ t'.executions = t.executions ∧
      ∀ {result}, t'.result? = some result → t.result? = some result ∧ t'.version = t.version) :
    Told requests tasks' log := by
  refine { h with seated := ?_, made := fun ht' => ?_, answered := fun ht' hresult => ?_ }
  · refine h.seated.replace hlength fun {slot t'} ht' => ?_
    obtain ⟨t, ht, hindex, hrequest, -⟩ := hsame ht'
    exact ⟨t, ht, hindex, hrequest⟩
  · obtain ⟨t, ht, -, hrequest, hexecutions, -⟩ := hsame ht'
    rw [hrequest, hexecutions]
    exact h.made ht
  · obtain ⟨t, ht, -, hrequest, -, hresult'⟩ := hsame ht'
    obtain ⟨hresult, hversion⟩ := hresult' hresult
    rw [hrequest, hversion]
    exact h.answered ht hresult

end Told

/-- The log goes through the attempts of each position in order, at most up to the one that its task
stands at. This much is left when a phase fails. -/
structure InOrder (requests : List Req) (tasks : List (Task Req R))
    (log : List (List (Event Req R))) : Prop where
  seated : Seated requests tasks
  below : ∀ call ∈ calls log, call.2.version.index < requests.length
  rising : ∀ index, ((callsAt index log).map Prod.fst).Pairwise (· < ·)
  made : ∀ {slot : Nat} {t}, tasks[slot]? = some t → ∃ count ≤ t.incarnation + 1,
    (callsAt slot log).map Prod.snd = attempts slot t.request count

theorem Told.inOrder {requests : List Req} {tasks : List (Task Req R)}
    {log : List (List (Event Req R))} (h : Told requests tasks log) :
    InOrder requests tasks log where
  seated := h.seated
  below := h.below
  rising := h.rising
  made := fun {slot t} ht => by
    refine ⟨t.executions, ?_, h.made ht⟩
    unfold Task.executions
    split <;> omega

namespace Scheduler

variable {s : Scheduler S Req R} {env : Environment} {b b' : Batch S Req R} {requests : List Req}

section Round

variable (h : Told requests b.tasks b.log)

include h

/-- The calls of a phase are for tasks that wait, each at its own attempt. -/
theorem filter_begun (env : Environment) {slot : Nat} {t : Task Req R}
    (ht : b.tasks[slot]? = some t) :
    ((begun (s.phaseAfter env b).log).filter fun job => job.version.index = slot) = [] ∨
      t.status = .pending ∧
        ((begun (s.phaseAfter env b).log).filter fun job => job.version.index = slot) =
          [⟨slot, t.version, t.request⟩] := by
  have hprefix : ((begun (s.phaseAfter env b).log).filter
        fun job => job.version.index = slot) <+:
      (jobs b.tasks).filter fun job => job.version.index = slot :=
    (Phase.run_started_front ..).filter _
  rw [h.seated.filter_jobs ht] at hprefix
  split at hprefix
  · rename_i hpending
    rcases List.prefix_cons_iff.mp hprefix with hnil | ⟨rest, heq, hrest⟩
    · exact .inl hnil
    · rw [List.prefix_nil.mp hrest] at heq
      exact .inr ⟨hpending, heq⟩
  · exact .inl (List.prefix_nil.mp hprefix)

theorem below_phaseAfter (env : Environment) {call : Nat × Job Req}
    (hcall : call ∈ calls ((s.phaseAfter env b).log :: b.log)) :
    call.2.version.index < requests.length := by
  rw [calls, List.mem_append, List.mem_map] at hcall
  rcases hcall with hcall | ⟨job, hjob, rfl⟩
  · exact h.below call hcall
  · obtain ⟨t, ht, -, hversion, -⟩ :=
      Phase.mem_jobs.mp (Phase.run_started_mem_jobs _ _ _ _ _ _ (mem_begun.mp hjob))
    have hindex : job.version.index = job.slot := by
      rw [hversion]
      exact h.seated.index ht
    rw [hindex, ← h.seated.length]
    exact (List.getElem?_eq_some_iff.mp ht).1

theorem rising_phaseAfter (env : Environment) (index : Nat) :
    ((callsAt index ((s.phaseAfter env b).log :: b.log)).map Prod.fst).Pairwise (· < ·) := by
  rw [callsAt_cons, List.map_append, List.pairwise_append]
  refine ⟨h.rising index, ?_, fun early hearly late hlate => ?_⟩
  · cases ht : b.tasks[index]? with
    | none =>
        have hnil : ((begun (s.phaseAfter env b).log).filter
            fun job => job.version.index = index) = [] := by
          refine List.filter_eq_nil_iff.mpr fun job hjob hindex => ?_
          have hcall : (b.log.length + 1, job) ∈ calls ((s.phaseAfter env b).log :: b.log) := by
            rw [calls]
            exact List.mem_append_right _ (List.mem_map_of_mem hjob)
          have hlt := below_phaseAfter h env hcall
          have hle := List.getElem?_eq_none_iff.mp ht
          rw [h.seated.length] at hle
          simp only [decide_eq_true_eq] at hindex
          dsimp only at hlt
          omega
        rw [hnil]
        exact .nil
    | some t =>
        rcases filter_begun (s := s) h env ht with hnil | ⟨-, hone⟩
        · rw [hnil]
          exact .nil
        · rw [hone]
          exact List.pairwise_singleton _ _
  · obtain ⟨call, hcall, rfl⟩ := List.mem_map.mp hearly
    obtain ⟨_, hcall', rfl⟩ := List.mem_map.mp hlate
    obtain ⟨job, -, rfl⟩ := List.mem_map.mp hcall'
    have hle := (round_of_mem_calls (List.mem_of_mem_filter hcall)).2
    show call.1 < b.log.length + 1
    omega

/-- A phase makes no call for a position, or one more, and one more for a task that waited if the
phase succeeds. -/
theorem made_phaseAfter (env : Environment) {slot : Nat} {t : Task Req R}
    (ht : b.tasks[slot]? = some t) :
    (callsAt slot ((s.phaseAfter env b).log :: b.log)).map Prod.snd =
        attempts slot t.request t.executions ∨
      t.status = .pending ∧
        (callsAt slot ((s.phaseAfter env b).log :: b.log)).map Prod.snd =
          attempts slot t.request (t.incarnation + 1) := by
  rw [callsAt_cons, List.map_append, h.made ht]
  rcases filter_begun (s := s) h env ht with hnil | ⟨hpending, hone⟩
  · left
    rw [hnil, List.map_nil, List.map_nil, List.append_nil]
  · right
    have hversion : t.version = ⟨slot, t.incarnation⟩ := by
      rw [← h.seated.index ht]
      rfl
    rw [hone, attempts_succ, Task.executions, if_pos hpending, hversion]
    exact ⟨hpending, rfl⟩

theorem inOrder_phaseAfter (env : Environment) :
    InOrder requests (s.phaseAfter env b).tasks ((s.phaseAfter env b).log :: b.log) where
  seated := phaseAfter_seated h.seated
  below := fun _ hcall => below_phaseAfter h env hcall
  rising := rising_phaseAfter h env
  made := fun {slot t'} ht' => by
    obtain ⟨t, ht, -, hrequest, hincarnation⟩ := phaseAfter_identity ht'
    rw [hrequest, hincarnation]
    rcases made_phaseAfter (s := s) h env ht with hsame | ⟨-, hmore⟩
    · refine ⟨t.executions, ?_, hsame⟩
      unfold Task.executions
      split <;> omega
    · exact ⟨_, Nat.le_refl _, hmore⟩

theorem made_phaseAfter_of_ok {summary : Summary}
    (hok : (s.phaseAfter env b).verdict = .ok summary) {slot : Nat} {t : Task Req R}
    (ht : b.tasks[slot]? = some t) :
    (callsAt slot ((s.phaseAfter env b).log :: b.log)).map Prod.snd =
      attempts slot t.request (t.incarnation + 1) := by
  by_cases hpending : t.status = .pending
  · have hone : begun (s.phaseAfter env b).log = jobs b.tasks :=
      Phase.run_started_of_ok _ _ _ _ _ _ hok
    have hversion : t.version = ⟨slot, t.incarnation⟩ := by
      rw [← h.seated.index ht]
      rfl
    rw [callsAt_cons, hone, h.seated.filter_jobs ht, if_pos hpending, List.map_append, h.made ht,
      attempts_succ, Task.executions, if_pos hpending, hversion]
    rfl
  · rcases made_phaseAfter (s := s) h env ht with hsame | ⟨hpending', -⟩
    · rw [hsame, Task.executions_of_ne_pending hpending]
    · exact absurd hpending' hpending

theorem not_ended_of_pending {slot : Nat} {t : Task Req R} (ht : b.tasks[slot]? = some t)
    (hpending : t.status = .pending) {result : CallEnd R} :
    .ended ⟨slot, t.version, t.request⟩ result ∉ b.log.flatten := by
  intro hmem
  obtain ⟨round, hcall⟩ := h.begun hmem
  have hat : (round, ⟨slot, t.version, t.request⟩) ∈ callsAt slot b.log :=
    List.mem_filter.mpr ⟨hcall, decide_eq_true (h.seated.index ht)⟩
  have hmade := List.mem_map_of_mem (f := Prod.snd) hat
  rw [h.made ht, Task.executions, if_pos hpending] at hmade
  exact Nat.lt_irrefl _ (incarnation_lt_of_mem_attempts hmade)

theorem answered_phaseAfter {summary : Summary}
    (hok : (s.phaseAfter env b).verdict = .ok summary) {slot : Nat} {t' : Task Req R}
    {response : R} {round : Nat} (ht' : (s.phaseAfter env b).tasks[slot]? = some t')
    (hresult : t'.result? = some (response, round)) (result : CallEnd R) :
    .ended ⟨slot, t'.version, t'.request⟩ result ∈ ((s.phaseAfter env b).log :: b.log).flatten ↔
      result = .returned response := by
  rw [List.flatten_cons, List.mem_append]
  obtain ⟨t, ht, hversion, hrequest, ⟨hstatus, rfl⟩ | ⟨hpending, ended, outcome, hended, hout,
    rfl⟩⟩ := phaseAfter_origin hok ht'
  · rw [h.answered ht hresult, or_iff_right]
    intro hmem
    obtain ⟨u, hu, hpending, -⟩ := Phase.mem_jobs.mp (Phase.run_started_mem_jobs _ _ _ _ _ _
      (Phase.run_ended_mem_started _ _ _ _ _ _ hmem))
    obtain rfl := Option.some.inj (ht.symm.trans hu)
    exact hstatus hpending
  · obtain ⟨rfl, -⟩ := Task.receive_result? hresult
    obtain rfl := CallEnd.eq_returned hout
    rw [hversion, hrequest, or_iff_left (not_ended_of_pending h ht hpending)]
    constructor
    · exact fun hmem => Phase.run_ended_unique _ _ _ _ _ _ hmem hended
    · rintro rfl
      exact hended

theorem told_phaseAfter {summary : Summary} (hok : (s.phaseAfter env b).verdict = .ok summary) :
    Told requests (s.phaseAfter env b).tasks ((s.phaseAfter env b).log :: b.log) where
  seated := phaseAfter_seated h.seated
  below := fun _ hcall => below_phaseAfter h env hcall
  rising := rising_phaseAfter h env
  made := fun {slot t'} ht' => by
    obtain ⟨t, ht, hversion, hrequest, -⟩ := phaseAfter_origin hok ht'
    have hincarnation : t'.incarnation = t.incarnation := congrArg Version.incarnation hversion
    rw [Task.executions_of_ne_pending (phaseAfter_status hok ht'), hincarnation, hrequest]
    exact made_phaseAfter_of_ok h hok ht
  begun := fun {job result} hmem => by
    rw [List.flatten_cons, List.mem_append] at hmem
    rw [calls]
    rcases hmem with hmem | hmem
    · have hjob := mem_begun.mpr (Phase.run_ended_mem_started _ _ _ _ _ _ hmem)
      exact ⟨_, List.mem_append_right _ (List.mem_map_of_mem hjob)⟩
    · obtain ⟨round, hcall⟩ := h.begun hmem
      exact ⟨round, List.mem_append_left _ hcall⟩
  answered := fun ht' hresult => answered_phaseAfter h hok ht' hresult

variable (hv : s.validator.Judges)

include hv

theorem told_passAfter {summary : Summary} (hok : (s.phaseAfter env b).verdict = .ok summary) :
    Told requests (s.passAfter env b).1 ((s.phaseAfter env b).log :: b.log) := by
  refine (told_phaseAfter h hok).replace (hv.length _ _) fun {slot t'} ht' => ?_
  obtain ⟨t, ht, hverdict⟩ := hv.passAfter_task ht'
  have hstatus := phaseAfter_status hok ht
  have hstatus' : t'.status ≠ .pending := by
    rcases hverdict.status_of_ne_pending hstatus with h' | h' <;> simp [h']
  obtain ⟨hindex, hrequest, hincarnation⟩ := hverdict.identity
  refine ⟨t, ht, hindex, hrequest, ?_,
    fun hresult => ⟨(hverdict.result? hresult).1, hverdict.version⟩⟩
  rw [Task.executions_of_ne_pending hstatus, Task.executions_of_ne_pending hstatus', hincarnation]

theorem told_again (hround : s.round env b = .again b') : Told requests b'.tasks b'.log := by
  obtain ⟨⟨summary, hok⟩, -, hsend, -⟩ := round_again hround
  have hlog := (round_batch s env b).2.1
  rw [hround] at hlog
  rw [show b'.log = (s.phaseAfter env b).log :: b.log from hlog]
  refine (told_passAfter h hv hok).replace (sendBackAll_length _ hsend) fun {slot t'} ht' => ?_
  obtain ⟨t, ht⟩ := getElem?_of_length_eq (sendBackAll_length _ hsend) ht'
  refine ⟨t, ht, ?_⟩
  rcases hv.again_task h.seated hround ht with ⟨-, h'⟩ | ⟨haborted, h'⟩
  · obtain rfl := Option.some.inj (ht'.symm.trans h')
    exact ⟨rfl, rfl, rfl, fun hresult => ⟨hresult, rfl⟩⟩
  · obtain rfl := Option.some.inj (ht'.symm.trans h')
    refine ⟨rfl, rfl, ?_, fun hresult => by cases hresult⟩
    rw [Task.executions_of_ne_pending (t := t) (by simp [haborted])]
    rfl

end Round

/-! ## The run -/

section Run

variable {metrics : Metrics} {world : World S} {number : Nat} {e : RoundEnd S Req R}

theorem roundEnd?_log {last : Nat}
    (hb : s.roundEnd? env (Batch.start metrics world requests) number = some (.again b))
    (hlt : number < last)
    (he : s.roundEnd? env (Batch.start metrics world requests) last = some e) :
    ∃ newer, e.batch.log = newer ++ (s.phaseAfter env b).log :: b.log := by
  induction last generalizing e with
  | zero => omega
  | succ last ih =>
      obtain ⟨c, hc, rfl⟩ := roundEnd?_succ he
      have hlog := (round_batch s env c).2.1
      rcases Nat.lt_or_eq_of_le (Nat.le_of_lt_succ hlt) with hlt | rfl
      · obtain ⟨newer, hnewer⟩ := ih hlt hc
        exact ⟨(s.phaseAfter env c).log :: newer, hlog.trans (congrArg (_ :: ·) hnewer)⟩
      · obtain rfl := RoundEnd.again.inj (Option.some.inj (hb.symm.trans hc))
        exact ⟨[], hlog⟩

variable (hv : s.validator.Judges)

include hv

theorem told_of_again
    (hb : s.roundEnd? env (Batch.start metrics world requests) number = some (.again b)) :
    Told requests b.tasks b.log :=
  roundEnd?_again (I := fun _ b => Told requests b.tasks b.log) (told_ofRequests requests)
    (fun h hround => told_again h hv hround) hb

theorem told_of_settled
    (hb : s.roundEnd? env (Batch.start metrics world requests) number = some (.settled b)) :
    Told requests b.tasks b.log := by
  cases number with
  | zero => cases hb
  | succ number =>
      obtain ⟨c, hc, hround⟩ := roundEnd?_succ hb
      obtain ⟨⟨summary, hok⟩, -, htasks, -⟩ := round_settled hround
      have hlog := (round_batch s env c).2.1
      rw [hround] at hlog
      rw [htasks, show b.log = (s.phaseAfter env c).log :: c.log from hlog]
      exact told_passAfter (told_of_again hv hc) hv hok

theorem roundEnd?_inOrder
    (he : s.roundEnd? env (Batch.start metrics world requests) number = some e) :
    InOrder requests e.batch.tasks e.batch.log := by
  cases e with
  | again b => exact (told_of_again hv he).inOrder
  | settled b => exact (told_of_settled hv he).inOrder
  | halted reason b =>
      cases number with
      | zero => cases he
      | succ number =>
          obtain ⟨c, hc, hround⟩ := roundEnd?_succ he
          have h := told_of_again hv hc
          have hlog := (round_batch s env c).2.1
          rw [hround] at hlog
          show InOrder requests b.tasks b.log
          rw [show b.log = (s.phaseAfter env c).log :: c.log from hlog]
          rcases round_halted hround with ⟨_, -, -, htasks⟩ | ⟨⟨summary, hok⟩, -, htasks⟩
          · exact htasks ▸ inOrder_phaseAfter h env
          · exact htasks ▸ (told_passAfter h hv hok).inOrder

/-- A run with responses answers each request with what the last call for it returned. -/
theorem answered_of_process_ok {rs : List R}
    (h : (s.process env metrics world requests).result = .ok rs) :
    rs.length = requests.length ∧ ∀ index request, requests[index]? = some request →
      ∃ last response, rs[index]? = some response ∧
        (callsAt index (s.process env metrics world requests).batch.log).map Prod.snd =
          attempts index request (last + 1) ∧
        ∀ result, .ended ⟨index, ⟨index, last⟩, request⟩ result ∈
            (s.process env metrics world requests).batch.log.flatten ↔
          result = .returned response := by
  by_cases hne : requests = []
  · subst hne
    obtain ⟨hresponses, -⟩ := process_nil h
    cases hresponses
    exact ⟨rfl, fun _ _ hrequest => by cases hrequest⟩
  obtain ⟨number, b, hb, hagrees, hresponses⟩ := settled_of_process_ok hne h
  obtain ⟨hlength, hanswers⟩ := responses_ok hresponses
  have htold := told_of_settled hv hb
  refine ⟨hlength.trans htold.seated.length, fun index request hrequest => ?_⟩
  obtain ⟨t, ht⟩ := htold.seated.exists_task (List.getElem?_eq_some_iff.mp hrequest).1
  obtain ⟨response, round, hresult, hrs⟩ := hanswers ht
  obtain rfl := Option.some.inj ((htold.seated.request ht).symm.trans hrequest)
  have hstatus : t.status ≠ .pending := fun hpending => by
    rw [Task.result?_eq_none.mpr (.inl hpending)] at hresult
    cases hresult
  have hversion : t.version = ⟨index, t.incarnation⟩ := by
    rw [← htold.seated.index ht]
    rfl
  refine ⟨t.incarnation, response, hrs, ?_, ?_⟩
  · rw [hagrees.log, htold.made ht, Task.executions_of_ne_pending hstatus]
  · rw [hagrees.log, ← hversion]
    exact htold.answered ht hresult

/-- The call by which a reported task is executed once more. -/
structure Redoes (pass : List (Task Req R) × List Nat) (job : Job Req) : Prop where
  reported : job.slot ∈ pass.2
  next : ∃ t, pass.1[job.slot]? = some t ∧ job.version = ⟨job.slot, t.incarnation + 1⟩ ∧
    job.request = t.request

/-- The jobs of the next round are those that the report of this one asks for. -/
theorem mem_jobs_of_again
    (hb : s.roundEnd? env (Batch.start metrics world requests) number = some (.again b))
    (hround : s.round env b = .again b') {job : Job Req} :
    job ∈ jobs b'.tasks ↔ Redoes (s.passAfter env b) job := by
  have hseated := hv.roundEnd?_seated (seated_ofRequests requests) hb
  rw [Phase.mem_jobs]
  constructor
  · rintro ⟨t', ht', hpending, hversion, hrequest⟩
    obtain ⟨t, ht⟩ := getElem?_of_length_eq (sendBackAll_length _ (round_again hround).2.2.1) ht'
    rcases hv.again_task hseated hround ht with ⟨hvalidated, h'⟩ | ⟨haborted, h'⟩
    · obtain rfl := Option.some.inj (ht'.symm.trans h')
      rw [hpending] at hvalidated
      cases hvalidated
    · obtain rfl := Option.some.inj (ht'.symm.trans h')
      refine ⟨(hv.mem_reported hseated).mpr ⟨t, ht, haborted⟩, t, ht, ?_, hrequest⟩
      rw [hversion, ← (hv.passAfter_seated env hseated).index ht]
      rfl
  · rintro ⟨hreported, t, ht, hversion, hrequest⟩
    obtain ⟨u, hu, haborted⟩ := (hv.mem_reported hseated).mp hreported
    obtain rfl := Option.some.inj (ht.symm.trans hu)
    rcases hv.again_task hseated hround ht with ⟨hvalidated, -⟩ | ⟨-, h'⟩
    · rw [haborted] at hvalidated
      cases hvalidated
    · refine ⟨_, h', rfl, ?_, hrequest⟩
      rw [hversion, ← (hv.passAfter_seated env hseated).index ht]
      rfl

omit hv in
theorem jobs_ofRequests_ne_nil (hne : requests ≠ []) :
    jobs (Task.ofRequests requests : List (Task Req R)) ≠ [] := by
  obtain ⟨request, rest, rfl⟩ := List.exists_cons_of_ne_nil hne
  have hmem : ⟨0, ⟨0, 0⟩, request⟩ ∈ jobs (Task.ofRequests (request :: rest) : List (Task Req R)) :=
    Phase.mem_jobs.mpr ⟨_, rfl, rfl, rfl, rfl⟩
  exact List.ne_nil_of_mem hmem

theorem jobs_ne_nil_of_again (hne : requests ≠ [])
    (hb : s.roundEnd? env (Batch.start metrics world requests) number = some (.again b)) :
    jobs b.tasks ≠ [] := by
  cases number with
  | zero =>
      cases hb
      exact jobs_ofRequests_ne_nil hne
  | succ number =>
      obtain ⟨c, hc, hround⟩ := roundEnd?_succ hb
      have hseated := hv.roundEnd?_seated (seated_ofRequests requests) hc
      obtain ⟨-, hreported, -⟩ := round_again hround
      obtain ⟨index, hindex⟩ := List.exists_mem_of_ne_nil _ hreported
      obtain ⟨t, ht, -⟩ := (hv.mem_reported hseated).mp hindex
      have hjob : ⟨index, ⟨index, t.incarnation + 1⟩, t.request⟩ ∈ jobs b.tasks :=
        (mem_jobs_of_again hv hc hround).mpr ⟨hindex, t, ht, rfl, rfl⟩
      exact List.ne_nil_of_mem hjob

theorem open_of_again (hne : requests ≠ []) (hworld : world.cancelled = false)
    (hb : s.roundEnd? env (Batch.start metrics world requests) number = some (.again b)) :
    b.world.cancelled = false := by
  cases number with
  | zero =>
      cases hb
      exact hworld
  | succ number =>
      obtain ⟨c, hc, hround⟩ := roundEnd?_succ hb
      obtain ⟨⟨summary, hok⟩, -⟩ := round_again hround
      have hworld' := (round_batch s env c).1
      rw [hround] at hworld'
      rw [show b.world = (s.phaseAfter env c).world from hworld']
      exact Phase.run_cancelled_of_ok _ _ _ _ _ _ hok (jobs_ne_nil_of_again hv hne hc)

omit hv in
theorem mem_calls_of_again {last : Nat} (hlt : number + 1 < last)
    (he : s.roundEnd? env (Batch.start metrics world requests) last = some e)
    (hb : s.roundEnd? env (Batch.start metrics world requests) (number + 1) = some (.again b))
    {job : Job Req} :
    (number + 2, job) ∈ calls e.batch.log ↔ .started job ∈ (s.phaseAfter env b).log := by
  obtain ⟨newer, hnewer⟩ := roundEnd?_log hb hlt he
  have hlength : b.log.length = number + 1 := (roundEnd?_counted hb).2
  rw [hnewer]
  show (number + 1 + 1, job) ∈ _ ↔ _
  rw [← hlength]
  exact mem_calls_append

theorem redoes_of_mem_calls {last : Nat}
    (he : s.roundEnd? env (Batch.start metrics world requests) last = some e) {job : Job Req}
    (hjob : (number + 2, job) ∈ calls e.batch.log) :
    ∃ b, s.roundEnd? env (Batch.start metrics world requests) number = some (.again b) ∧
      Redoes (s.passAfter env b) job := by
  have hlt : number + 1 < last := by
    have hle := (round_of_mem_calls hjob).2
    rw [(roundEnd?_counted he).2] at hle
    exact hle
  obtain ⟨b', hb'⟩ := roundEnd?_of_lt he hlt
  obtain ⟨b, hb, hround⟩ := roundEnd?_succ hb'
  have hstarted := (mem_calls_of_again hlt he hb').mp hjob
  exact ⟨b, hb, (mem_jobs_of_again hv hb hround).mp
    (Phase.run_started_mem_jobs _ _ _ _ _ _ hstarted)⟩

/-- If the next phase succeeds, all that the report asks for is called. -/
theorem mem_calls_of_redoes {last : Nat} (hlt : number + 1 < last)
    (he : s.roundEnd? env (Batch.start metrics world requests) last = some e)
    (hb : s.roundEnd? env (Batch.start metrics world requests) number = some (.again b))
    (hround : s.round env b = .again b') {summary : Summary}
    (hok : (s.phaseAfter env b').verdict = .ok summary) {job : Job Req}
    (hjob : Redoes (s.passAfter env b) job) : (number + 2, job) ∈ calls e.batch.log := by
  have hb' := roundEnd?_succ_of_again hb
  rw [hround] at hb'
  have hbegun : begun (s.phaseAfter env b').log = jobs b'.tasks :=
    Phase.run_started_of_ok _ _ _ _ _ _ hok
  rw [mem_calls_of_again hlt he hb', ← mem_begun, hbegun]
  exact (mem_jobs_of_again hv hb hround).mpr hjob

end Run

/-- **The law of the calls.** However a run ends, the calls for a position are its attempts from
incarnation zero on, each made once, one after the other in rounds that rise, and none of them above
the ceiling. A call of a later round was asked for by the report of the round in front of it, and
if the phase succeeds all that the report asks for are made. A run with responses has one for each
request: the one that the last call of the position returned. -/
theorem process_history (hs : s.validator.BuiltIn) (env : Environment) (metrics : Metrics)
    (world : World S) (requests : List Req) :
    let ended := s.process env metrics world requests
    let start := Batch.start metrics world requests
    (∀ call ∈ calls ended.batch.log, call.2.version.index < requests.length) ∧
    (∀ index request, requests[index]? = some request → ∃ count,
      (callsAt index ended.batch.log).map Prod.snd = attempts index request count ∧
      ((callsAt index ended.batch.log).map Prod.fst).Pairwise (· < ·) ∧
      (∀ limit, s.config.maxIncarnations = some limit → count ≤ limit.toNat + 1) ∧
      ∀ rs, ended.result = .ok rs → ∃ last response, count = last + 1 ∧
        rs[index]? = some response ∧ ∀ result,
          .ended ⟨index, ⟨index, last⟩, request⟩ result ∈ ended.batch.log.flatten ↔
            result = .returned response) ∧
    (∀ rs, ended.result = .ok rs → rs.length = requests.length) ∧
    (∀ number job, (number + 2, job) ∈ calls ended.batch.log → ∃ b,
      s.roundEnd? env start number = some (.again b) ∧ Redoes (s.passAfter env b) job) ∧
    ∀ number b b', number + 1 < ended.batch.report.rounds →
      s.roundEnd? env start number = some (.again b) → s.round env b = .again b' →
      (∃ summary, (s.phaseAfter env b').verdict = .ok summary) →
      ∀ job, Redoes (s.passAfter env b) job → (number + 2, job) ∈ calls ended.batch.log := by
  intro ended start
  have hv := hs.judges
  obtain ⟨last, e, -, he, hagrees⟩ := process_last s env metrics world requests
  have horder := roundEnd?_inOrder hv he
  have hrounds : ended.batch.report.rounds = last := by
    rw [hagrees.report, (roundEnd?_counted he).1]
  rw [← hagrees.log] at horder
  refine ⟨horder.below, fun index request hrequest => ?_, fun rs hrs => ?_,
    fun number job hjob => ?_, ?_⟩
  · obtain ⟨t, ht⟩ := horder.seated.exists_task (List.getElem?_eq_some_iff.mp hrequest).1
    obtain ⟨count, hcount, hmade⟩ := horder.made ht
    obtain rfl := Option.some.inj ((horder.seated.request ht).symm.trans hrequest)
    refine ⟨count, hmade, horder.rising index, fun limit hlimit => ?_, fun rs hrs => ?_⟩
    · have hroom := Config.exceeded?_eq_none.mp
        (roundEnd?_room hv he t (List.mem_of_getElem? ht)) limit hlimit
      omega
    · obtain ⟨last, response, hresponse, hattempts, hended⟩ :=
        (answered_of_process_ok hv hrs).2 index _ hrequest
      have hlength := congrArg List.length (hmade.symm.trans hattempts)
      rw [length_attempts, length_attempts] at hlength
      exact ⟨last, response, hlength, hresponse, hended⟩
  · exact (answered_of_process_ok hv hrs).1
  · exact redoes_of_mem_calls hv he (hagrees.log ▸ hjob)
  · rintro number b b' hlt hb hround ⟨summary, hok⟩ job hjob
    rw [hagrees.log]
    exact mem_calls_of_redoes hv (hrounds ▸ hlt) he hb hround hok hjob

/-- The relay calls each position once more often than the one in front of it. -/
theorem relay_history :
    (calls (echo.process {} {} ⟨(), false⟩ relay).batch.log).map
        (fun call => (call.1, call.2.version)) =
      [(1, ⟨0, 0⟩), (1, ⟨1, 0⟩), (1, ⟨2, 0⟩), (2, ⟨1, 1⟩), (2, ⟨2, 1⟩), (3, ⟨2, 2⟩)] ∧
    ∃ rs response, (echo.process {} {} ⟨(), false⟩ relay).result = .ok rs ∧
      rs[2]? = some response ∧
      .ended ⟨2, ⟨2, 2⟩, Access.read {} ⟨[97]⟩⟩ (.returned response) ∈
        (echo.process {} {} ⟨(), false⟩ relay).batch.log.flatten := by
  obtain ⟨-, hcalls, -⟩ := process_history (s := echo) .readWrite {} {} ⟨(), false⟩ relay
  obtain ⟨count, hmade, -, -, hanswer⟩ := hcalls 2 _ rfl
  obtain ⟨last, response, hcount, hresponse, hended⟩ := hanswer relay rfl
  obtain rfl : count = 3 := (length_attempts ..).symm.trans (congrArg List.length hmade.symm)
  obtain rfl : last = 2 := by omega
  exact ⟨by rfl, relay, response, rfl, hresponse, (hended _).mpr rfl⟩

end Scheduler

end TxBatch
