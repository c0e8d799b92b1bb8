import TxBatch.Proofs.Rounds
import TxBatch.Proofs.Validation

/-!
# The tasks of a batch between its rounds

A task never leaves its seat: at every stage of every round the task in slot `i` is that of request
`i`, under the index `i` (`Seated`). So the positions a validator reports are slots, and a round
under a validator that judges can be told slot by slot: a task that waited gets its outcome
(`phaseAfter_task`), it is accepted or rejected, and a rejected one waits again, one incarnation
further, unless the ceiling is in the way (`Validator.Judges.again_task`).
-/

namespace TxBatch

variable {S Req R : Type}

/-- The task in each slot is that of the request there. -/
structure Seated (requests : List Req) (tasks : List (Task Req R)) : Prop where
  length : tasks.length = requests.length
  index : ∀ {slot : Nat} {t}, tasks[slot]? = some t → t.index = slot
  request : ∀ {slot : Nat} {t}, tasks[slot]? = some t → requests[slot]? = some t.request

theorem seated_ofRequests (requests : List Req) :
    Seated requests (Task.ofRequests requests : List (Task Req R)) := by
  refine ⟨by simp [Task.ofRequests], fun {slot t} ht => ?_, fun {slot t} ht => ?_⟩ <;>
  · simp only [Task.ofRequests, List.getElem?_map, List.getElem?_zipIdx, Option.map_eq_some_iff]
      at ht
    obtain ⟨⟨request, index⟩, ⟨request', hrequest, heq⟩, rfl⟩ := ht
    cases heq
    simp [hrequest]

theorem Seated.replace {requests : List Req} {tasks tasks' : List (Task Req R)}
    (h : Seated requests tasks) (hlength : tasks'.length = tasks.length)
    (hsame : ∀ {slot : Nat} {t'}, tasks'[slot]? = some t' → ∃ t, tasks[slot]? = some t ∧
      t'.index = t.index ∧ t'.request = t.request) : Seated requests tasks' := by
  refine ⟨hlength.trans h.length, fun ht' => ?_, fun ht' => ?_⟩
  · obtain ⟨t, ht, hindex, -⟩ := hsame ht'
    rw [hindex, h.index ht]
  · obtain ⟨t, ht, -, hrequest⟩ := hsame ht'
    rw [hrequest, h.request ht]

theorem Seated.exists_task {requests : List Req} {tasks : List (Task Req R)}
    (h : Seated requests tasks) {slot : Nat} (hlt : slot < requests.length) :
    ∃ t, tasks[slot]? = some t :=
  ⟨_, List.getElem?_eq_getElem (h.length ▸ hlt)⟩

theorem Phase.Passed.identity {log : List (Event Req R)} {round slot : Nat} {t t' : Task Req R}
    (h : Phase.Passed log round slot t t') :
    t'.index = t.index ∧ t'.request = t.request ∧ t'.incarnation = t.incarnation := by
  cases h with
  | kept => exact ⟨rfl, rfl, rfl⟩
  | received => exact ⟨by simp, by simp, by simp⟩

theorem Seated.mem_abortedIndices {requests : List Req} {tasks : List (Task Req R)}
    (h : Seated requests tasks) {index : Nat} :
    index ∈ Validator.abortedIndices tasks ↔
      ∃ t, tasks[index]? = some t ∧ t.status = .aborted := by
  rw [Validator.mem_abortedIndices]
  constructor
  · rintro ⟨t, hmem, hstatus, rfl⟩
    obtain ⟨slot, ht⟩ := List.getElem?_of_mem hmem
    rw [h.index ht]
    exact ⟨t, ht, hstatus⟩
  · rintro ⟨t, ht, hstatus⟩
    exact ⟨t, List.mem_of_getElem? ht, hstatus, h.index ht⟩

theorem Seated.map_index {requests : List Req} {tasks : List (Task Req R)}
    (h : Seated requests tasks) : tasks.map Task.index = List.range tasks.length := by
  refine List.ext_getElem? fun slot => ?_
  rw [List.getElem?_map]
  cases ht : tasks[slot]? with
  | none =>
      have hle := List.getElem?_eq_none_iff.mp ht
      simp [hle]
  | some t =>
      have hlt := (List.getElem?_eq_some_iff.mp ht).1
      simp [hlt, h.index ht]

theorem Seated.sorted_abortedIndices {requests : List Req} {tasks : List (Task Req R)}
    (h : Seated requests tasks) : (Validator.abortedIndices tasks).Pairwise (· < ·) := by
  have hsub : (Validator.abortedIndices tasks).Sublist (tasks.map Task.index) :=
    List.filter_sublist.map _
  rw [h.map_index] at hsub
  exact List.pairwise_lt_range.sublist hsub

namespace Scheduler

variable {s : Scheduler S Req R} {env : Environment} {b b' : Batch S Req R} {requests : List Req}

theorem phaseAfter_identity {slot : Nat} {t : Task Req R}
    (ht : (s.phaseAfter env b).tasks[slot]? = some t) :
    ∃ t₀, b.tasks[slot]? = some t₀ ∧ t.index = t₀.index ∧ t.request = t₀.request ∧
      t.incarnation = t₀.incarnation := by
  obtain ⟨t₀, ht₀, hpassed⟩ := Phase.run_origin _ _ _ _ _ _ ht
  exact ⟨t₀, ht₀, hpassed.identity⟩

theorem phaseAfter_seated (h : Seated requests b.tasks) :
    Seated requests (s.phaseAfter env b).tasks := by
  refine h.replace (Phase.run_length ..) fun {slot t'} ht' => ?_
  obtain ⟨t, ht, hindex, hrequest, -⟩ := phaseAfter_identity ht'
  exact ⟨t, ht, hindex, hrequest⟩

/-- What a phase that succeeds does to one task: one that waited gets the outcome of its call, any
other is as it was. -/
theorem phaseAfter_task {summary : Summary} (hok : (s.phaseAfter env b).verdict = .ok summary)
    {slot : Nat} {t : Task Req R} (ht : b.tasks[slot]? = some t) :
    (t.status ≠ .pending ∧ (s.phaseAfter env b).tasks[slot]? = some t) ∨
    (t.status = .pending ∧ ∃ result outcome,
      .ended ⟨slot, t.version, t.request⟩ result ∈ (s.phaseAfter env b).log ∧
      result.outcome? = some outcome ∧
      (s.phaseAfter env b).tasks[slot]? = some (t.receive (b.report.rounds + 1) outcome)) := by
  by_cases hpending : t.status = .pending
  · exact .inr ⟨hpending, Phase.run_task_of_ok _ _ _ _ _ _ hok ht hpending⟩
  · exact .inl ⟨hpending, Phase.run_task_of_not_pending _ _ _ _ _ _ ht hpending⟩

theorem phaseAfter_origin {summary : Summary} (hok : (s.phaseAfter env b).verdict = .ok summary)
    {slot : Nat} {t' : Task Req R} (ht' : (s.phaseAfter env b).tasks[slot]? = some t') :
    ∃ t, b.tasks[slot]? = some t ∧ t'.version = t.version ∧ t'.request = t.request ∧
      ((t.status ≠ .pending ∧ t' = t) ∨
      (t.status = .pending ∧ ∃ result outcome,
        .ended ⟨slot, t.version, t.request⟩ result ∈ (s.phaseAfter env b).log ∧
        result.outcome? = some outcome ∧ t' = t.receive (b.report.rounds + 1) outcome)) := by
  obtain ⟨t, ht, hindex, hrequest, hincarnation⟩ := phaseAfter_identity ht'
  refine ⟨t, ht, by simp [Task.version, hindex, hincarnation], hrequest, ?_⟩
  rcases phaseAfter_task hok ht with ⟨hstatus, h⟩ | ⟨hpending, result, outcome, hended, hout, h⟩
  · exact .inl ⟨hstatus, Option.some.inj (ht'.symm.trans h)⟩
  · exact .inr ⟨hpending, result, outcome, hended, hout, Option.some.inj (ht'.symm.trans h)⟩

theorem phaseAfter_status {summary : Summary} (hok : (s.phaseAfter env b).verdict = .ok summary)
    {slot : Nat} {t : Task Req R} (ht : (s.phaseAfter env b).tasks[slot]? = some t) :
    t.status ≠ .pending :=
  Phase.run_settles _ _ _ _ _ _ hok ht

theorem responses_of_validated {tasks : List (Task Req R)}
    (h : ∀ t ∈ tasks, t.status = .validated) : ∃ rs, responses tasks = .ok rs := by
  induction tasks with
  | nil => exact ⟨[], rfl⟩
  | cons t rest ih =>
      obtain ⟨rs, hrs⟩ := ih fun u hu => h u (List.mem_cons_of_mem _ hu)
      obtain ⟨response, round, hresult, -⟩ := Task.result?_of_validated (h t List.mem_cons_self)
      exact ⟨response :: rs, by simp [responses, Task.response?, hresult, hrs, Except.map]⟩

/-! ## Under any validator that judges -/

end Scheduler

namespace Validator.Judges

open Scheduler

variable {s : Scheduler S Req R} {env : Environment} {b b' : Batch S Req R} {requests : List Req}
  (hv : s.validator.Judges)

include hv

theorem passAfter_task {slot : Nat} {t : Task Req R}
    (ht : (s.passAfter env b).1[slot]? = some t) :
    ∃ t₀, (s.phaseAfter env b).tasks[slot]? = some t₀ ∧ t₀.Verdict t :=
  hv.verdict ht

theorem length_passAfter (env : Environment) (b : Batch S Req R) :
    (s.passAfter env b).1.length = b.tasks.length :=
  (hv.length _ _).trans (Phase.run_length ..)

theorem passAfter_seated (env : Environment) (h : Seated requests b.tasks) :
    Seated requests (s.passAfter env b).1 := by
  refine (phaseAfter_seated h).replace (hv.length _ _) fun {slot t'} ht' => ?_
  obtain ⟨t, ht, hverdict⟩ := hv.passAfter_task ht'
  exact ⟨t, ht, hverdict.identity.1, hverdict.identity.2.1⟩

theorem passAfter_identity {slot : Nat} {t : Task Req R}
    (ht : (s.passAfter env b).1[slot]? = some t) :
    ∃ t₀, b.tasks[slot]? = some t₀ ∧ t.index = t₀.index ∧ t.request = t₀.request ∧
      t.incarnation = t₀.incarnation := by
  obtain ⟨t', ht', hverdict⟩ := hv.passAfter_task ht
  obtain ⟨t₀, ht₀, hindex, hrequest, hincarnation⟩ := phaseAfter_identity ht'
  obtain ⟨hindex', hrequest', hincarnation'⟩ := hverdict.identity
  exact ⟨t₀, ht₀, hindex'.trans hindex, hrequest'.trans hrequest, hincarnation'.trans hincarnation⟩

theorem mem_reported (h : Seated requests b.tasks) {index : Nat} :
    index ∈ (s.passAfter env b).2 ↔
      ∃ t, (s.passAfter env b).1[index]? = some t ∧ t.status = .aborted := by
  rw [passAfter, hv.reported]
  exact (hv.passAfter_seated env h).mem_abortedIndices

theorem reported_lt (h : Seated requests b.tasks) {index : Nat}
    (hmem : index ∈ (s.passAfter env b).2) : index < (s.passAfter env b).1.length := by
  obtain ⟨t, ht, -⟩ := (hv.mem_reported h).mp hmem
  exact (List.getElem?_eq_some_iff.mp ht).1

theorem sorted_reported (h : Seated requests b.tasks) : (s.passAfter env b).2.Pairwise (· < ·) := by
  rw [passAfter, hv.reported]
  exact (hv.passAfter_seated env h).sorted_abortedIndices

theorem nodup_reported (h : Seated requests b.tasks) : (s.passAfter env b).2.Nodup :=
  (hv.sorted_reported h).imp Nat.ne_of_lt

/-- After the validation pass of a round whose phase succeeded each task is accepted or rejected. -/
theorem passAfter_status {summary : Summary} (hok : (s.phaseAfter env b).verdict = .ok summary)
    {slot : Nat} {t : Task Req R} (ht : (s.passAfter env b).1[slot]? = some t) :
    t.status = .validated ∨ t.status = .aborted := by
  obtain ⟨t₀, ht₀, hverdict⟩ := hv.passAfter_task ht
  exact hverdict.status_of_ne_pending (phaseAfter_status hok ht₀)

theorem settled_status (hseated : Seated requests b.tasks) (hround : s.round env b = .settled b')
    {t : Task Req R} (ht : t ∈ b'.tasks) : t.status = .validated := by
  obtain ⟨⟨summary, hok⟩, hreported, htasks, -⟩ := round_settled hround
  obtain ⟨slot, hslot⟩ := List.getElem?_of_mem (htasks ▸ ht)
  refine (hv.passAfter_status hok hslot).resolve_right fun haborted => ?_
  have hmem := (hv.mem_reported hseated).mpr ⟨t, hslot, haborted⟩
  rw [hreported] at hmem
  cases hmem

theorem again_task (hseated : Seated requests b.tasks) (hround : s.round env b = .again b')
    {slot : Nat} {t : Task Req R} (ht : (s.passAfter env b).1[slot]? = some t) :
    (t.status = .validated ∧ b'.tasks[slot]? = some t) ∨
    (t.status = .aborted ∧ b'.tasks[slot]? =
      some { t with incarnation := t.incarnation + 1, progress := .pending }) := by
  obtain ⟨⟨summary, hok⟩, -, hsend, -⟩ := round_again hround
  have hslot := sendBackAll_ok _ hsend (hv.nodup_reported hseated) slot
  rcases hv.passAfter_status hok ht with hstatus | hstatus
  · refine .inl ⟨hstatus, ?_⟩
    rw [if_neg fun hmem => ?_] at hslot
    · exact hslot.trans ht
    · obtain ⟨u, hu, hu'⟩ := (hv.mem_reported hseated).mp hmem
      obtain rfl := Option.some.inj (ht.symm.trans hu)
      rw [hstatus] at hu'
      cases hu'
  · refine .inr ⟨hstatus, ?_⟩
    rw [if_pos ((hv.mem_reported hseated).mpr ⟨t, ht, hstatus⟩), ht] at hslot
    rw [hslot, Option.map_some, sendBack_of_aborted hstatus]

theorem again_seated (h : Seated requests b.tasks) (hround : s.round env b = .again b') :
    Seated requests b'.tasks := by
  have hlength := sendBackAll_length _ (round_again hround).2.2.1
  refine (hv.passAfter_seated env h).replace hlength fun {slot t'} ht' => ?_
  obtain ⟨t, ht⟩ := getElem?_of_length_eq hlength ht'
  rcases hv.again_task h hround ht with ⟨-, h'⟩ | ⟨-, h'⟩ <;>
  · obtain rfl := Option.some.inj (ht'.symm.trans h')
    exact ⟨_, ht, rfl, rfl⟩

theorem roundEnd?_seated {start : Batch S Req R} (h : Seated requests start.tasks) {number : Nat}
    (hb : s.roundEnd? env start number = some (.again b)) : Seated requests b.tasks :=
  roundEnd?_again (I := fun _ b => Seated requests b.tasks) h hv.again_seated hb

/-- However a round ends, nobody has left their seat. -/
theorem seated_of_roundEnd? {start : Batch S Req R} (h : Seated requests start.tasks)
    {number : Nat} {e : RoundEnd S Req R} (he : s.roundEnd? env start number = some e) :
    Seated requests e.batch.tasks := by
  rcases roundEnd?_tasks he with ⟨b, rfl⟩ | ⟨_, c, -, hc, htasks | htasks⟩
  · exact hv.roundEnd?_seated h he
  · exact htasks ▸ phaseAfter_seated (hv.roundEnd?_seated h hc)
  · exact htasks ▸ hv.passAfter_seated env (hv.roundEnd?_seated h hc)

end Validator.Judges

namespace Scheduler

/-- How a run of a batch with something in it ends: with a response for each task, in a round that
fails, or with the round counter full. -/
inductive Ending (s : Scheduler S Req R) (env : Environment) (start : Batch S Req R)
    (ended : BatchEnd S Req R) : Prop
  | answered {number : Nat} {b b' : Batch S Req R} {rs : List R}
      (hb : s.roundEnd? env start number = some (.again b))
      (hround : s.round env b = .settled b') (hagrees : ended.batch.Agrees b')
      (hresponses : responses b'.tasks = .ok rs) (hresult : ended.result = .ok rs)
      (hlt : number < counterMax)
  | halted {number : Nat} {b b' : Batch S Req R} {reason : Halt}
      (hb : s.roundEnd? env start number = some (.again b))
      (hround : s.round env b = .halted reason b') (hagrees : ended.batch.Agrees b')
      (hresult : ended.result = .error reason) (hlt : number < counterMax)
  | full {b : Batch S Req R} (hb : s.roundEnd? env start counterMax = some (.again b))
      (hagrees : ended.batch.Agrees b) (hresult : ended.result = .error .crashed)

theorem process_ending {s : Scheduler S Req R} (hv : s.validator.Judges) (env : Environment)
    (metrics : Metrics) (world : World S) {requests : List Req}
    (hvalid : s.config.validate = .ok ()) (hne : requests ≠ []) :
    Ending s env (Batch.start metrics world requests) (s.process env metrics world requests) := by
  obtain ⟨finished, hfinished, hagrees, hresult⟩ :=
    process_finished s env metrics world requests hvalid hne
  cases hfinished with
  | @settled last b' hle hlast =>
      cases last with
      | zero => cases hlast
      | succ number =>
          obtain ⟨b, hb, hround⟩ := roundEnd?_succ hlast
          have hseated := hv.roundEnd?_seated (seated_ofRequests requests) hb
          obtain ⟨rs, hresponses⟩ := responses_of_validated fun t ht =>
            hv.settled_status hseated hround ht
          dsimp only at hresult
          rw [hresponses] at hresult
          exact .answered hb hround hagrees hresponses hresult hle
  | @halted last reason b' hle hlast =>
      cases last with
      | zero => cases hlast
      | succ number =>
          obtain ⟨b, hb, hround⟩ := roundEnd?_succ hlast
          exact .halted hb hround hagrees hresult hle
  | full hfull => exact .full hfull hagrees hresult

end Scheduler

/-! ## Under the read/write-set validator -/

namespace Scheduler

section ReadWrite

variable {s : Scheduler S Req R} {env : Environment} {b b' : Batch S Req R} {requests : List Req}
  [Tracked R] (hs : s.validator = Validator.readWrite)

include hs

theorem judges : s.validator.Judges :=
  hs ▸ Validator.judges_readWrite

theorem passAfter_readWrite :
    s.passAfter env b = (Validator.judgeBehind [] (s.phaseAfter env b).tasks,
      Validator.abortedIndices (Validator.judgeBehind [] (s.phaseAfter env b).tasks)) := by
  rw [passAfter, hs]
  rfl

theorem passAfter_seated (env : Environment) (h : Seated requests b.tasks) :
    Seated requests (s.passAfter env b).1 :=
  (judges hs).passAfter_seated env h

theorem settled_status (hseated : Seated requests b.tasks) (hround : s.round env b = .settled b')
    {t : Task Req R} (ht : t ∈ b'.tasks) : t.status = .validated :=
  (judges hs).settled_status hseated hround ht

theorem roundEnd?_seated {start : Batch S Req R} (h : Seated requests start.tasks) {number : Nat}
    (hb : s.roundEnd? env start number = some (.again b)) : Seated requests b.tasks :=
  (judges hs).roundEnd?_seated h hb

end ReadWrite

end Scheduler

end TxBatch
