import TxBatch.Proofs.Arena

/-!
# A committed front is final

A single accepted result may go back in a later round. A front of the batch in which every task is
accepted may not: nothing in it waits, so no phase touches it; the verdicts on it are verdicts
against itself alone, so every validation pass repeats them; and only rejected tasks are sent back.
`Committed` is what makes a front immune, `round_committed` is one round, and
`validated_front_is_final` is the rest of the run.
-/

namespace TxBatch

variable {S Req R : Type} [Tracked R]

/-- Every task of the front is accepted, by verdicts that need nothing but the front. -/
structure Committed (front : List (Task Req R)) : Prop where
  validated : ∀ t ∈ front, t.status = .validated
  judged : Validator.judgeBehind [] front = front

theorem committed_take {tasks : List (Task Req R)} {count : Nat}
    (h : ∀ t ∈ (Validator.judgeBehind [] tasks).take count, t.status = .validated) :
    Committed ((Validator.judgeBehind [] tasks).take count) := by
  refine ⟨h, ?_⟩
  rw [← Validator.take_judgeBehind, Validator.judgeBehind_judgeBehind]

theorem Committed.status_of_lt {front tasks : List (Task Req R)} (h : Committed front)
    (hfront : front <+: tasks) {slot : Nat} (hlt : slot < front.length) {t : Task Req R}
    (ht : tasks[slot]? = some t) : t.status = .validated := by
  rw [List.prefix_iff_getElem?.mp hfront slot hlt] at ht
  obtain rfl := Option.some.inj ht
  exact h.validated _ (List.getElem_mem hlt)

theorem Committed.prefix_judgeBehind {front tasks : List (Task Req R)} (h : Committed front)
    (hfront : front <+: tasks) : front <+: Validator.judgeBehind [] tasks := by
  rw [List.prefix_iff_eq_take] at hfront ⊢
  rw [Validator.take_judgeBehind, ← hfront, h.judged]

namespace Scheduler

variable {s : Scheduler S Req R} {env : Environment} {b b' : Batch S Req R} {requests : List Req}
  {front : List (Task Req R)}

/-! ## One round -/

theorem phaseAfter_committed (h : Committed front) (hfront : front <+: b.tasks) :
    front <+: (s.phaseAfter env b).tasks := by
  rw [List.prefix_iff_getElem?] at hfront ⊢
  intro slot hlt
  refine Phase.run_task_of_not_pending _ _ _ _ _ _ (hfront slot hlt) ?_
  rw [h.validated _ (List.getElem_mem hlt)]
  exact fun h => by cases h

theorem le_slot_of_started (h : Committed front) (hfront : front <+: b.tasks) {job : Job Req}
    (hstarted : .started job ∈ (s.phaseAfter env b).log) : front.length ≤ job.slot := by
  obtain ⟨t, ht, hpending, -⟩ := Phase.mem_jobs.mp (Phase.run_started_mem_jobs _ _ _ _ _ _ hstarted)
  by_contra hlt
  rw [h.status_of_lt hfront (Nat.not_le.mp hlt) ht] at hpending
  cases hpending

section ReadWrite

variable (hs : s.validator = Validator.readWrite)

include hs

theorem passAfter_committed (h : Committed front) (hfront : front <+: b.tasks) :
    front <+: (s.passAfter env b).1 := by
  rw [passAfter_readWrite hs]
  exact h.prefix_judgeBehind (phaseAfter_committed h hfront)

theorem again_committed (h : Committed front) (hseated : Seated requests b.tasks)
    (hfront : front <+: (s.passAfter env b).1) (hround : s.round env b = .again b') :
    front <+: b'.tasks := by
  rw [List.prefix_iff_getElem?] at hfront ⊢
  intro slot hlt
  rcases (judges hs).again_task hseated hround (hfront slot hlt) with ⟨-, h'⟩ | ⟨haborted, -⟩
  · exact h'
  · rw [h.validated _ (List.getElem_mem hlt)] at haborted
    cases haborted

theorem round_committed (h : Committed front) (hseated : Seated requests b.tasks)
    (hfront : front <+: b.tasks) : front <+: (s.round env b).batch.tasks := by
  have hpass : front <+: (s.passAfter env b).1 := passAfter_committed hs h hfront
  cases hround : s.round env b with
  | again b' => exact again_committed hs h hseated hpass hround
  | settled b' => exact (round_settled hround).2.2.1 ▸ hpass
  | halted reason b' =>
      rcases round_halted hround with ⟨_, -, -, htasks⟩ | ⟨-, -, htasks⟩
      · exact htasks ▸ phaseAfter_committed h hfront
      · exact htasks ▸ hpass

/-! ## The rest of the run -/

variable {metrics : Metrics} {world : World S}

/-- A front that is committed between two rounds stays until the run ends. -/
theorem roundEnd?_committed (h : Committed front) {number : Nat}
    (hb : s.roundEnd? env (Batch.start metrics world requests) number = some (.again b))
    (hfront : front <+: b.tasks) :
    ∀ {later e}, number ≤ later →
      s.roundEnd? env (Batch.start metrics world requests) later = some e →
      front <+: e.batch.tasks := by
  intro later
  induction later with
  | zero =>
      intro e hle he
      obtain rfl := Nat.le_zero.mp hle
      obtain rfl := Option.some.inj (hb.symm.trans he)
      exact hfront
  | succ later ih =>
      intro e hle he
      rcases Nat.lt_or_eq_of_le hle with hlt | rfl
      · obtain ⟨c, hc, rfl⟩ := roundEnd?_succ he
        exact round_committed hs h (roundEnd?_seated hs (seated_ofRequests requests) hc)
          (ih (Nat.le_of_lt_succ hlt) hc)
      · obtain rfl := Option.some.inj (hb.symm.trans he)
        exact hfront

/-- The front that the validation pass of a round has accepted is what every later round ends
with. -/
theorem roundEnd?_of_accepted {number count : Nat}
    (hb : s.roundEnd? env (Batch.start metrics world requests) number = some (.again b))
    {summary : Summary} (hok : (s.phaseAfter env b).verdict = .ok summary)
    (h : ∀ t ∈ (s.passAfter env b).1.take count, t.status = .validated) {later : Nat}
    {e : RoundEnd S Req R} (hlt : number < later)
    (he : s.roundEnd? env (Batch.start metrics world requests) later = some e) :
    (s.passAfter env b).1.take count <+: e.batch.tasks := by
  have hcommitted : Committed ((s.passAfter env b).1.take count) := by
    rw [passAfter_readWrite hs] at h ⊢
    exact committed_take h
  have hseated := roundEnd?_seated hs (seated_ofRequests requests) hb
  have hprefix : (s.passAfter env b).1.take count <+: (s.passAfter env b).1 :=
    List.take_prefix _ _
  have hnext := roundEnd?_succ_of_again hb
  rcases Nat.lt_or_eq_of_le (Nat.succ_le_of_lt hlt) with hlater | rfl
  · obtain ⟨b', hb'⟩ := roundEnd?_of_lt he hlater
    obtain hround := Option.some.inj (hnext.symm.trans hb')
    exact roundEnd?_committed hs hcommitted hb'
      (again_committed hs hcommitted hseated hprefix hround) (Nat.le_of_lt hlater) he
  · obtain rfl := Option.some.inj (hnext.symm.trans he)
    cases hround : s.round env b with
    | again b' => exact again_committed hs hcommitted hseated hprefix hround
    | settled b' => exact (round_settled hround).2.2.1 ▸ hprefix
    | halted reason b' =>
        rcases round_halted hround with ⟨error, hverdict, -, -⟩ | ⟨-, -, htasks⟩
        · cases hok.symm.trans hverdict
        · exact htasks ▸ hprefix

/-- **A committed front is final.** Let the validation pass of a round leave the tasks `0` to `m`
accepted. Then these tasks stand in the batch, unchanged in every field, at the end of every later
round, after every later phase and every later pass, and when the run is over; and no later round
calls any of them. -/
theorem validated_front_is_final {number m : Nat}
    (hb : s.roundEnd? env (Batch.start metrics world requests) number = some (.again b))
    (hok : ∃ summary, (s.phaseAfter env b).verdict = .ok summary)
    (hfront : ∀ i ≤ m, ∃ t, (s.passAfter env b).1[i]? = some t ∧ t.status = .validated) :
    (∀ later e, number < later →
      s.roundEnd? env (Batch.start metrics world requests) later = some e →
      (s.passAfter env b).1.take (m + 1) <+: e.batch.tasks) ∧
    (∀ later b', number < later →
      s.roundEnd? env (Batch.start metrics world requests) later = some (.again b') →
      (s.passAfter env b).1.take (m + 1) <+: (s.phaseAfter env b').tasks ∧
      (s.passAfter env b).1.take (m + 1) <+: (s.passAfter env b').1 ∧
      ∀ job, .started job ∈ (s.phaseAfter env b').log → m < job.slot) ∧
    (s.config.validate = .ok () → number < counterMax →
      (s.passAfter env b).1.take (m + 1) <+: (s.process env metrics world requests).batch.tasks) := by
  obtain ⟨summary, hok⟩ := hok
  have hseated := roundEnd?_seated hs (seated_ofRequests requests) hb
  have haccepted : ∀ t ∈ (s.passAfter env b).1.take (m + 1), t.status = .validated := by
    intro t ht
    obtain ⟨i, hi⟩ := List.getElem?_of_mem ht
    rw [List.getElem?_take] at hi
    split at hi
    · obtain ⟨u, hu, hstatus⟩ := hfront i (by omega)
      exact Option.some.inj (hi.symm.trans hu) ▸ hstatus
    · cases hi
  have hcommitted : Committed ((s.passAfter env b).1.take (m + 1)) := by
    rw [passAfter_readWrite hs] at haccepted ⊢
    exact committed_take haccepted
  have hlength : ((s.passAfter env b).1.take (m + 1)).length = m + 1 := by
    obtain ⟨t, ht, -⟩ := hfront m (Nat.le_refl m)
    have hlt := (List.getElem?_eq_some_iff.mp ht).1
    rw [List.length_take]
    omega
  refine ⟨fun later e hlt he => roundEnd?_of_accepted hs hb hok haccepted hlt he,
    fun later b' hlt hb' => ?_, fun hvalid hlt => ?_⟩
  · have hfront' := roundEnd?_of_accepted hs hb hok haccepted hlt hb'
    refine ⟨phaseAfter_committed hcommitted hfront', passAfter_committed hs hcommitted hfront',
      fun job hstarted => ?_⟩
    have hle := le_slot_of_started hcommitted hfront' hstarted
    omega
  · have hne : requests ≠ [] := by
      rintro rfl
      have hle := (passAfter_seated hs env hseated).length
      rw [List.length_take, hle] at hlength
      simp at hlength
    obtain ⟨last, e, hlast, he, hagrees⟩ := process_of_again hvalid hne hlt hb
    rw [hagrees.tasks]
    exact roundEnd?_of_accepted hs hb hok haccepted hlast he

end ReadWrite

/-! ## A relay -/

/-- Answers each request with the access set that it is. -/
def echo : Scheduler Unit Access Access where
  executor := fun request _ => .finish (.returned request)
  validator := Validator.readWrite

/-- One key: written, then read and written over, then read. -/
def relay : List Access :=
  let key : Key := ⟨[97]⟩
  [Access.write {} key, Access.write (Access.read {} key) key, Access.read {} key]

/-- The relay between its first two rounds. -/
def relayed : Batch Unit Access Access :=
  (echo.round {} (Batch.start {} ⟨(), false⟩ relay)).batch

/-- Three requests that hand a value on. The second round accepts the first two, while the third
goes back once more. -/
theorem relay_front_is_final :
    (echo.passAfter {} relayed).1.map Task.status = [.validated, .validated, .aborted] ∧
      (echo.passAfter {} relayed).1.take 2 <+:
        (echo.process {} {} ⟨(), false⟩ relay).batch.tasks := by
  have hb : echo.roundEnd? {} (Batch.start {} ⟨(), false⟩ relay) 1 = some (.again relayed) := by
    rfl
  have hfront : ∀ i ≤ 1, ∃ t,
      (echo.passAfter {} relayed).1[i]? = some t ∧ t.status = .validated := by
    intro i hi
    rcases Nat.le_one_iff_eq_zero_or_eq_one.mp hi with rfl | rfl
    · exact ⟨_, rfl, by rfl⟩
    · exact ⟨_, rfl, by rfl⟩
  refine ⟨by rfl, ?_⟩
  exact (validated_front_is_final rfl hb ⟨⟨2, 0, 0⟩, by rfl⟩ hfront).2.2 rfl (by decide)

end Scheduler

end TxBatch
