import TxBatch.Proofs.Incarnations

/-!
# Rounds under the minimal policy

The minimal validator accepts every response, and what is accepted it accepts again. So a task is
out of the batch with its first response, and those still in it were sent back every time: they all
wait at the incarnation that is the number of rounds so far (`Lockstep`).
-/

namespace TxBatch

variable {S Req R : Type}

theorem Task.status_validate_aborted {t : Task Req R} :
    (t.move .validate).status = .aborted ↔ t.status = .aborted := by
  obtain ⟨index, request, incarnation, progress, lastAbort⟩ := t
  cases progress <;> simp [move, move?, result?, status]

namespace Scheduler

variable {s : Scheduler S Req R} {env : Environment} {b b' : Batch S Req R} {requests : List Req}
  {number : Nat}

section Round

variable (hs : s.validator = Validator.minimal)

include hs

theorem judges_of_minimal : s.validator.Judges :=
  hs ▸ Validator.judges_minimal

theorem passAfter_minimal {slot : Nat} :
    (s.passAfter env b).1[slot]? =
      (s.phaseAfter env b).tasks[slot]?.map fun t => t.move .validate := by
  rw [passAfter, hs]
  exact List.getElem?_map ..

theorem passAfter_of_validated {slot : Nat} {t : Task Req R} (ht : b.tasks[slot]? = some t)
    (hstatus : t.status = .validated) : (s.passAfter env b).1[slot]? = some t := by
  have hkept : (s.phaseAfter env b).tasks[slot]? = some t :=
    Phase.run_task_of_not_pending _ _ _ _ _ _ ht (by simp [hstatus])
  rw [passAfter_minimal hs, hkept, Option.map_some,
    Task.move_validate_of_ne_executed (by simp [hstatus])]

/-- What a round makes of a task that waited: a response is accepted, and an abort stays one. -/
theorem passAfter_of_pending {summary : Summary}
    (hok : (s.phaseAfter env b).verdict = .ok summary) {slot : Nat} {t : Task Req R}
    (ht : b.tasks[slot]? = some t) (hstatus : t.status = .pending) :
    (∃ response, .ended ⟨slot, t.version, t.request⟩ (.returned response) ∈
        (s.phaseAfter env b).log ∧ (s.passAfter env b).1[slot]? =
          some { t with progress := .validated response (b.report.rounds + 1) }) ∨
    (∃ signal, .ended ⟨slot, t.version, t.request⟩ (.aborted signal) ∈
        (s.phaseAfter env b).log ∧ (s.passAfter env b).1[slot]? = some (t.discard signal)) := by
  rw [passAfter_minimal hs]
  rcases phaseAfter_task hok ht with ⟨hne, -⟩ | ⟨-, result, outcome, hended, hout, h'⟩
  · exact absurd hstatus hne
  rw [h', Option.map_some]
  cases outcome with
  | executed response =>
      obtain rfl := CallEnd.eq_returned hout
      exact .inl ⟨response, hended, rfl⟩
  | aborted signal =>
      obtain rfl := CallEnd.eq_aborted hout
      exact .inr ⟨signal, hended, congrArg some (Task.move_validate_of_none rfl)⟩

variable (hseated : Seated requests b.tasks) (hround : s.round env b = .again b')

include hseated hround

theorem again_of_validated {slot : Nat} {t : Task Req R} (ht : b.tasks[slot]? = some t)
    (hstatus : t.status = .validated) : b'.tasks[slot]? = some t := by
  have hpass : (s.passAfter env b).1[slot]? = some t := passAfter_of_validated hs ht hstatus
  rcases (judges_of_minimal hs).again_task hseated hround hpass with ⟨-, h'⟩ | ⟨haborted, -⟩
  · exact h'
  · rw [hstatus] at haborted
    cases haborted

/-- What becomes of a task that waited until the next round. -/
theorem again_of_pending {slot : Nat} {t : Task Req R} (ht : b.tasks[slot]? = some t)
    (hstatus : t.status = .pending) :
    (∃ response, .ended ⟨slot, t.version, t.request⟩ (.returned response) ∈
        (s.phaseAfter env b).log ∧
      b'.tasks[slot]? = some { t with progress := .validated response (b.report.rounds + 1) }) ∨
    (∃ signal, .ended ⟨slot, t.version, t.request⟩ (.aborted signal) ∈
        (s.phaseAfter env b).log ∧
      b'.tasks[slot]? = some { t with
        incarnation := t.incarnation + 1, progress := .pending, lastAbort := some signal }) := by
  obtain ⟨⟨summary, hok⟩, -⟩ := round_again hround
  rcases passAfter_of_pending hs hok ht hstatus with
    ⟨response, hended, hpass⟩ | ⟨signal, hended, hpass⟩
  · rcases (judges_of_minimal hs).again_task hseated hround hpass with ⟨-, h'⟩ | ⟨haborted, -⟩
    · exact .inl ⟨response, hended, h'⟩
    · cases haborted
  · rcases (judges_of_minimal hs).again_task hseated hround hpass with ⟨hvalidated, -⟩ | ⟨-, h'⟩
    · cases hvalidated
    · exact .inr ⟨signal, hended, h'⟩

end Round

/-- After `number` rounds a task was accepted in one of them, or has been sent back in each. -/
structure Lockstep (requests : List Req) (number : Nat) (b : Batch S Req R) : Prop where
  seated : Seated requests b.tasks
  status : ∀ {slot : Nat} {t}, b.tasks[slot]? = some t →
    (t.status = .validated ∧ t.incarnation < number) ∨
    (t.status = .pending ∧ t.incarnation = number)
  waiting : ∃ (slot : Nat) (t : Task Req R), b.tasks[slot]? = some t ∧ t.status = .pending

theorem lockstep_start (metrics : Metrics) (world : World S) (hne : requests ≠ []) :
    Lockstep requests 0 (Batch.start metrics world requests : Batch S Req R) where
  seated := seated_ofRequests requests
  status := fun ht => by
    obtain ⟨⟨request, index⟩, -, rfl⟩ := List.mem_map.mp (List.mem_of_getElem? ht)
    exact .inr ⟨rfl, rfl⟩
  waiting := by
    obtain ⟨t, ht⟩ := (seated_ofRequests (R := R) requests).exists_task
      (List.length_pos_of_ne_nil hne)
    obtain ⟨⟨request, index⟩, -, rfl⟩ := List.mem_map.mp (List.mem_of_getElem? ht)
    exact ⟨0, _, ht, rfl⟩

variable (hs : s.validator = Validator.minimal)

include hs

theorem Lockstep.again (h : Lockstep requests number b) (hround : s.round env b = .again b') :
    Lockstep requests (number + 1) b' := by
  have hv := judges_of_minimal hs
  obtain ⟨⟨summary, hok⟩, hreported, hsend, -⟩ := round_again hround
  refine ⟨hv.again_seated h.seated hround, fun {slot t'} ht' => ?_, ?_⟩
  · obtain ⟨t₁, ht₁⟩ := getElem?_of_length_eq (sendBackAll_length _ hsend) ht'
    obtain ⟨t, ht, -⟩ := hv.passAfter_identity ht₁
    rcases h.status ht with ⟨hstatus, hlt⟩ | ⟨hstatus, hat⟩
    · obtain rfl := Option.some.inj
        (ht'.symm.trans (again_of_validated hs h.seated hround ht hstatus))
      exact .inl ⟨hstatus, Nat.lt_succ_of_lt hlt⟩
    · rcases again_of_pending hs h.seated hround ht hstatus with ⟨_, -, h'⟩ | ⟨_, -, h'⟩
      · obtain rfl := Option.some.inj (ht'.symm.trans h')
        exact .inl ⟨rfl, by show t.incarnation < number + 1; omega⟩
      · obtain rfl := Option.some.inj (ht'.symm.trans h')
        exact .inr ⟨rfl, congrArg (· + 1) hat⟩
  · obtain ⟨slot, hslot⟩ := List.exists_mem_of_ne_nil _ hreported
    obtain ⟨t, ht, haborted⟩ := (hv.mem_reported h.seated).mp hslot
    rcases hv.again_task h.seated hround ht with ⟨hvalidated, -⟩ | ⟨-, h'⟩
    · rw [haborted] at hvalidated
      cases hvalidated
    · exact ⟨slot, _, h', rfl⟩

theorem lockstep_of_again {metrics : Metrics} {world : World S} (hne : requests ≠ [])
    (hb : s.roundEnd? env (Batch.start metrics world requests) number = some (.again b)) :
    Lockstep requests number b :=
  roundEnd?_again (lockstep_start metrics world hne) (fun h => h.again hs) hb

end Scheduler

end TxBatch
