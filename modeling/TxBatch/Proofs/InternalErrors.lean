import Mathlib.Data.List.Nodup
import TxBatch.Proofs.Incarnations
import TxBatch.Proofs.Phase.Blame

/-!
# Errors that no run can meet

Two of the errors of a batch are about the library and not about the calls: a report of a position
outside the batch, and a task that ends the batch without a response. Neither can come of a
validator that judges. Behind a phase that succeeds nobody waits, so a validation pass leaves each
task accepted, with a response, or rejected and reported once (`Settled`); the reported ones wait
again at their next incarnation, and when nothing is reported all are accepted.
-/

namespace TxBatch

variable {S Req R : Type}

/-- What a validation pass leaves of a batch of so many requests, and what it reports. -/
structure Settled (count : Nat) (tasks : List (Task Req R)) (reported : List Nat) : Prop where
  length : tasks.length = count
  index : ∀ {slot : Nat} {t}, tasks[slot]? = some t → t.index = slot
  judged : ∀ {slot : Nat} {t}, tasks[slot]? = some t →
    (t.status = .validated ∧ t.response?.isSome ∧ slot ∉ reported) ∨
      (t.status = .aborted ∧ t.response? = none ∧ reported.count slot = 1)
  rising : reported.Pairwise (· < ·)
  inside : ∀ index ∈ reported, index < count

/-- A configuration that is refused keeps a batch from its rounds. -/
theorem Scheduler.process_of_invalid {s : Scheduler S Req R} (env : Environment)
    (metrics : Metrics) (world : World S) (requests : List Req) {fault : ConfigFault}
    (hvalid : s.config.validate = .error fault) :
    (s.process env metrics world requests).result = .error (.failed (.invalidConfig fault)) := by
  simp only [process, execute, hvalid]

namespace Validator.Judges

open Scheduler

variable {s : Scheduler S Req R} {env : Environment} {b b' : Batch S Req R} {requests : List Req}
  (hv : s.validator.Judges)

include hv

theorem settled_passAfter (hseated : Seated requests b.tasks)
    (hok : ∃ summary, (s.phaseAfter env b).verdict = .ok summary) :
    Settled requests.length (s.passAfter env b).1 (s.passAfter env b).2 := by
  obtain ⟨summary, hok⟩ := hok
  have hpass := hv.passAfter_seated env hseated
  refine ⟨hpass.length, hpass.index, fun {slot t} ht => ?_, hv.sorted_reported hseated,
    fun index hindex => ?_⟩
  · rcases hv.passAfter_status hok ht with hvalidated | haborted
    · obtain ⟨response, round, hresult, -⟩ := Task.result?_of_validated hvalidated
      refine .inl ⟨hvalidated, by simp [Task.response?, hresult], fun hmem => ?_⟩
      obtain ⟨u, hu, haborted⟩ := (hv.mem_reported hseated).mp hmem
      obtain rfl := Option.some.inj (ht.symm.trans hu)
      cases hvalidated.symm.trans haborted
    · have hmem : slot ∈ (s.passAfter env b).2 := (hv.mem_reported hseated).mpr ⟨t, ht, haborted⟩
      have hnone : t.result? = none := Task.result?_eq_none.mpr (.inr haborted)
      refine .inr ⟨haborted, by simp [Task.response?, hnone], ?_⟩
      exact List.count_eq_one_of_mem (hv.nodup_reported hseated) hmem
  · rw [← hpass.length]
    exact hv.reported_lt hseated hindex

/-- Sending back takes each reported task, and no other, to its next incarnation. -/
theorem sentBack (hseated : Seated requests b.tasks)
    (hok : ∃ summary, (s.phaseAfter env b).verdict = .ok summary) {tasks : List (Task Req R)}
    (hsend : sendBackAll s.config (s.passAfter env b).1 (s.passAfter env b).2 = .ok tasks)
    {slot : Nat} {t : Task Req R} (ht : (s.passAfter env b).1[slot]? = some t) :
    tasks[slot]? =
      some (if slot ∈ (s.passAfter env b).2 then
        { t with incarnation := t.incarnation + 1, progress := .pending } else t) := by
  rw [sendBackAll_ok _ hsend (hv.nodup_reported hseated) slot, ht]
  rcases (hv.settled_passAfter hseated hok).judged ht with ⟨-, -, hnot⟩ | ⟨haborted, -, hcount⟩
  · rw [if_neg hnot, if_neg hnot]
  · have hmem : slot ∈ (s.passAfter env b).2 := List.count_pos_iff.mp (by omega)
    rw [if_pos hmem, if_pos hmem, Option.map_some, sendBack_of_aborted haborted]

theorem halted_external (hseated : Seated requests b.tasks) {reason : Halt}
    (hround : s.round env b = .halted reason b') (index : Nat) :
    reason ≠ .failed (.invalidIndex index) ∧ reason ≠ .failed (.missingResponse index) := by
  rcases round_halted hround with ⟨error, herror, rfl, -⟩ | ⟨-, hsend, -⟩
  · rcases Phase.run_error _ _ _ _ _ _ herror with ⟨-, rfl⟩ | ⟨-, hblames⟩
    · simp
    · rcases hblames.cases with ⟨_, _, _, rfl⟩ | ⟨_, rfl⟩ <;> simp
  · obtain ⟨_, _, _, _, -, -, -, hreason⟩ := sendBackAll_error _ hsend
      (hv.nodup_reported hseated) fun _ => hv.reported_lt hseated
    rcases hreason with ⟨-, rfl⟩ | ⟨_, -, rfl⟩ <;> simp

theorem accepted_of_settled {metrics : Metrics} {world : World S} {number : Nat}
    (hb : s.roundEnd? env (Batch.start metrics world requests) number = some (.settled b)) :
    ∀ t ∈ b.tasks, t.status = .validated := by
  intro t ht
  cases number with
  | zero => cases hb
  | succ number =>
      obtain ⟨c, hc, hround⟩ := roundEnd?_succ hb
      exact hv.settled_status (hv.roundEnd?_seated (seated_ofRequests requests) hc) hround ht

theorem accepted_of_process_ok {metrics : Metrics} {world : World S} {rs : List R}
    (h : (s.process env metrics world requests).result = .ok rs) :
    (s.process env metrics world requests).batch.tasks.length = requests.length ∧
      ∀ t ∈ (s.process env metrics world requests).batch.tasks, t.status = .validated := by
  by_cases hne : requests = []
  · subst hne
    have hnone : (s.process env metrics world []).batch.tasks = [] := (process_nil h).2.tasks
    simp [hnone]
  · obtain ⟨last, b, hb, hagrees, -⟩ := settled_of_process_ok hne h
    have hlength := (hv.seated_of_roundEnd? (seated_ofRequests requests) hb).length
    rw [hagrees.tasks]
    exact ⟨hlength, hv.accepted_of_settled hb⟩

/-- A batch that fails does so for its configuration, for a call, for a cancellation or for a
counter. -/
theorem process_external (env : Environment) (metrics : Metrics) (world : World S)
    (requests : List Req) (index : Nat) :
    (s.process env metrics world requests).result ≠ .error (.failed (.invalidIndex index)) ∧
      (s.process env metrics world requests).result ≠
        .error (.failed (.missingResponse index)) := by
  cases hvalid : s.config.validate with
  | error fault =>
      rw [process_of_invalid env metrics world requests hvalid]
      simp
  | ok =>
      by_cases hne : requests = []
      · subst hne
        rw [process_empty s env metrics world hvalid]
        simp
      · cases process_ending hv env metrics world hvalid hne with
        | answered _ _ _ _ hresult =>
            rw [hresult]
            simp
        | halted hb hround _ hresult =>
            have hseated := hv.roundEnd?_seated (seated_ofRequests requests) hb
            rw [hresult]
            simpa using hv.halted_external hseated hround index
        | full _ _ hresult =>
            rw [hresult]
            simp

end Validator.Judges

namespace Scheduler

variable {s : Scheduler S Req R}

/-- **No run meets an error of the library's own.** Whatever the calls do, in whatever order, a
batch under one of the validators of this library fails neither for a position outside of it nor for
a task without a response. Behind each phase that succeeds no task waits; the validation pass leaves
each task accepted with a response, or rejected and reported once, and the report goes up through
the positions of the batch; each reported task then waits at its next incarnation, and no other task
changes; and when the rounds are over every task is accepted. -/
theorem process_no_internal_error (hs : s.validator.BuiltIn) (env : Environment)
    (metrics : Metrics) (world : World S) (requests : List Req) :
    let ended := s.process env metrics world requests
    let start := Batch.start metrics world requests
    (∀ index, ended.result ≠ .error (.failed (.invalidIndex index)) ∧
      ended.result ≠ .error (.failed (.missingResponse index))) ∧
    (∀ number b, s.roundEnd? env start number = some (.again b) →
      (∃ summary, (s.phaseAfter env b).verdict = .ok summary) →
      (∀ t ∈ (s.phaseAfter env b).tasks, t.status ≠ .pending) ∧
      Settled requests.length (s.passAfter env b).1 (s.passAfter env b).2 ∧
      ∀ tasks, sendBackAll s.config (s.passAfter env b).1 (s.passAfter env b).2 = .ok tasks →
        ∀ slot t, (s.passAfter env b).1[slot]? = some t → tasks[slot]? =
          some (if slot ∈ (s.passAfter env b).2 then
            { t with incarnation := t.incarnation + 1, progress := .pending } else t)) ∧
    (∀ number b, s.roundEnd? env start number = some (.settled b) →
      ∀ t ∈ b.tasks, t.status = .validated) ∧
    ∀ rs, ended.result = .ok rs → ended.batch.tasks.length = requests.length ∧
      ∀ t ∈ ended.batch.tasks, t.status = .validated := by
  intro ended start
  have hv := hs.judges
  have hseated : ∀ {number b}, s.roundEnd? env start number = some (.again b) →
      Seated requests b.tasks := fun hb => hv.roundEnd?_seated (seated_ofRequests requests) hb
  refine ⟨hv.process_external env metrics world requests, fun number b hb hok =>
    ⟨fun t ht => ?_, hv.settled_passAfter (hseated hb) hok, fun tasks hsend slot t =>
      hv.sentBack (hseated hb) hok hsend⟩, fun number b => hv.accepted_of_settled,
    fun rs => hv.accepted_of_process_ok⟩
  obtain ⟨summary, hok⟩ := hok
  obtain ⟨slot, hslot⟩ := List.getElem?_of_mem ht
  exact phaseAfter_status hok hslot

/-! ## A rehearsal -/

/-- Each request says how its attempts end. -/
def rehearsal : Scheduler Unit (List (CallEnd Access)) Access where
  executor request version := .finish (request[version.incarnation]?.getD (.crashed ""))
  validator := Validator.readWrite

/-- One attempt that writes a key, one that aborts first, and one that reads the key too early. -/
def parts : List (List (CallEnd Access)) :=
  let key : Key := ⟨[97]⟩
  [[.returned (Access.write {} key)], [.aborted .requested, .returned {}],
    [.returned (Access.read {} key), .returned (Access.read {} key)]]

/-- The rehearsal as it started. -/
def rehearsed : Batch Unit (List (CallEnd Access)) Access := Batch.start {} ⟨(), false⟩ parts

/-- The first round rejects a task for its call and another for what it read, the second none. -/
theorem rehearsal_no_internal_error :
    (rehearsal.passAfter {} rehearsed).2 = [1, 2] ∧
      Settled 3 (rehearsal.passAfter {} rehearsed).1 [1, 2] ∧
      ∃ rs, (rehearsal.process {} {} ⟨(), false⟩ parts).result = .ok rs ∧
        ∀ t ∈ (rehearsal.process {} {} ⟨(), false⟩ parts).batch.tasks, t.status = .validated := by
  obtain ⟨-, hpasses, -, hend⟩ :=
    process_no_internal_error (s := rehearsal) .readWrite {} {} ⟨(), false⟩ parts
  have hreported : (rehearsal.passAfter {} rehearsed).2 = [1, 2] := by rfl
  have hresult : ∃ rs, (rehearsal.process {} {} ⟨(), false⟩ parts).result = .ok rs := ⟨_, by rfl⟩
  obtain ⟨rs, hrs⟩ := hresult
  have hsettled := (hpasses 0 rehearsed rfl ⟨⟨2, 1, 0⟩, by rfl⟩).2.1
  rw [hreported] at hsettled
  exact ⟨hreported, hsettled, rs, hrs, (hend rs hrs).2⟩

end Scheduler

end TxBatch
