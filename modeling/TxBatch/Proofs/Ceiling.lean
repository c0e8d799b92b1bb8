import Mathlib.Order.Bounds.Basic
import TxBatch.Proofs.Lockstep
import TxBatch.Proofs.Phase.Blame

/-!
# A ceiling ends every run

A round that is not the last one has raised an incarnation, and under a ceiling there is only so
much to raise. So a run ends, whatever its calls do, before a counter overflows; and it fails at
the ceiling only for a task that stands there, the first of those reported
(`process_under_ceiling`).
-/

namespace TxBatch

variable {S Req R : Type}

namespace Scheduler

variable {s : Scheduler S Req R} {env : Environment} {b : Batch S Req R} {requests : List Req}
  {number : Nat} {limit : UInt32}

section Judges

variable (hv : s.validator.Judges) (hlimit : s.config.maxIncarnations = some limit)

include hv hlimit

theorem incarnation_le_limit {metrics : Metrics} {world : World S} {e : RoundEnd S Req R}
    (he : s.roundEnd? env (Batch.start metrics world requests) number = some e)
    {t : Task Req R} (ht : t ∈ e.batch.tasks) : t.incarnation ≤ limit.toNat :=
  Config.exceeded?_eq_none.mp (roundEnd?_room hv he t ht) limit hlimit

/-- As many rounds as there are incarnations to give, and the last one. -/
theorem roundEnd?_le {metrics : Metrics} {world : World S} {e : RoundEnd S Req R}
    (he : s.roundEnd? env (Batch.start metrics world requests) number = some e) :
    number ≤ requests.length * limit.toNat + 1 := by
  cases number with
  | zero => exact Nat.zero_le _
  | succ number =>
      obtain ⟨b, hb, -⟩ := roundEnd?_succ he
      have hclimbed := climbed_of_again hv hb
      have hsum := incarnations_le fun t ht => incarnation_le_limit hv hlimit hb ht
      have hle := hclimbed.le_retries
      rw [RoundEnd.batch, hclimbed.seated.length] at hsum
      have hretries := hclimbed.retries
      omega

/-- If the tasks that are reported cannot all go back, the first of them that stands at the ceiling
fails the batch. -/
theorem sendBackAll_at_ceiling {reason : Halt} (h : Climbed s.config requests number b)
    (hcounter : limit.toNat + 1 ≤ counterMax)
    (herror : sendBackAll s.config (s.passAfter env b).1 (s.passAfter env b).2 = .error reason) :
    ∃ index, reason =
        .failed (.incarnationLimitExceeded index (limit.toNat + 1) limit.toNat) ∧
      IsLeast {i | i ∈ (s.passAfter env b).2 ∧
        ∃ t, (s.passAfter env b).1[i]? = some t ∧ t.incarnation = limit.toNat} index := by
  have hsorted : (s.passAfter env b).2.Pairwise (· < ·) := hv.sorted_reported h.seated
  obtain ⟨front, index, behind, t, hreported, ht, hfront, hreason⟩ :=
    sendBackAll_error _ herror (hv.nodup_reported h.seated) fun _ => hv.reported_lt h.seated
  have hle : t.incarnation ≤ limit.toNat := Config.exceeded?_eq_none.mp
    (h.passAfter_room hv env (List.mem_of_getElem? ht)) limit hlimit
  obtain ⟨hat, rfl⟩ : t.incarnation = limit.toNat ∧ reason =
      .failed (.incarnationLimitExceeded index (limit.toNat + 1) limit.toNat) := by
    rcases hreason with ⟨hfull, -⟩ | ⟨ceiling, hceiling, rfl⟩
    · omega
    · obtain ⟨limit', hlimit', rfl, hlt⟩ := Config.exceeded?_eq_some.mp hceiling
      obtain rfl := Option.some.inj (hlimit'.symm.trans hlimit)
      have hat : t.incarnation = limit'.toNat := by omega
      exact ⟨hat, by rw [hat]⟩
  refine ⟨index, rfl, ⟨by rw [hreported]; simp, t, ht, hat⟩, ?_⟩
  rintro other ⟨hmem, u, hu, hu'⟩
  rw [hreported] at hmem hsorted
  rcases List.mem_append.mp hmem with hmem | hmem
  · have hroom := Config.exceeded?_eq_none.mp (hfront other hmem u hu) limit hlimit
    omega
  · rcases List.mem_cons.mp hmem with rfl | hmem
    · exact Nat.le_refl _
    · have hbehind := (List.pairwise_append.mp hsorted).2.1
      exact Nat.le_of_lt ((List.pairwise_cons.mp hbehind).1 other hmem)

end Judges

/-- Under the minimal policy a task that is left waits at the number of the rounds. -/
theorem roundEnd?_le_of_minimal (hs : s.validator = Validator.minimal)
    (hlimit : s.config.maxIncarnations = some limit) (hne : requests ≠ []) {metrics : Metrics}
    {world : World S} {e : RoundEnd S Req R}
    (he : s.roundEnd? env (Batch.start metrics world requests) number = some e) :
    number ≤ limit.toNat + 1 := by
  cases number with
  | zero => exact Nat.zero_le _
  | succ number =>
      obtain ⟨b, hb, -⟩ := roundEnd?_succ he
      have hlockstep := lockstep_of_again hs hne hb
      obtain ⟨slot, t, ht, hpending⟩ := hlockstep.waiting
      have hle := incarnation_le_limit (judges_of_minimal hs) hlimit hb (List.mem_of_getElem? ht)
      rcases hlockstep.status ht with ⟨hvalidated, -⟩ | ⟨-, hat⟩
      · rw [hpending] at hvalidated
        cases hvalidated
      · omega

theorem limit_lt (hroom : requests.length * limit.toNat + 1 < 2 ^ 32) (hne : requests ≠ []) :
    limit.toNat + 1 < 2 ^ 32 := by
  have hle := Nat.le_mul_of_pos_left limit.toNat (List.length_pos_of_ne_nil hne)
  omega

/-- What is counted stays in front of its bounds in every round. -/
theorem counts_of_roundEnd? (hv : s.validator.Judges)
    (hlimit : s.config.maxIncarnations = some limit)
    (hroom : requests.length * limit.toNat + 1 < 2 ^ 32) {metrics : Metrics} {world : World S}
    {e : RoundEnd S Req R}
    (he : s.roundEnd? env (Batch.start metrics world requests) number = some e) :
    e.batch.report.rounds ≤ requests.length * limit.toNat + 1 ∧
      ∀ t ∈ e.batch.tasks, t.incarnation ≤ limit.toNat ∧ t.incarnation + 1 < 2 ^ 32 := by
  refine ⟨(roundEnd?_counted he).1 ▸ roundEnd?_le hv hlimit he, ?_⟩
  intro t ht
  have hne : requests ≠ [] := by
    rintro rfl
    have hlength := (hv.seated_of_roundEnd? (seated_ofRequests []) he).length
    exact absurd ht (List.eq_nil_of_length_eq_zero hlength ▸ List.not_mem_nil)
  have hle := incarnation_le_limit hv hlimit he ht
  have hlt := limit_lt hroom hne
  omega

theorem halted_under_ceiling (hv : s.validator.Judges)
    (hlimit : s.config.maxIncarnations = some limit) (hcounter : limit.toNat + 1 ≤ counterMax)
    {b' : Batch S Req R} {reason : Halt} (h : Climbed s.config requests number b)
    (hround : s.round env b = .halted reason b') :
    ∃ error, reason = .failed error ∧ ∀ index incarnation ceiling,
      error = .incarnationLimitExceeded index incarnation ceiling →
        incarnation = limit.toNat + 1 ∧ ceiling = limit.toNat ∧
        IsLeast {i | i ∈ (s.passAfter env b).2 ∧
          ∃ t, (s.passAfter env b).1[i]? = some t ∧ t.incarnation = limit.toNat} index := by
  rcases round_halted hround with ⟨error, herror, rfl, -⟩ | ⟨-, hsend, -⟩
  · refine ⟨error, rfl, ?_⟩
    rintro index incarnation ceiling rfl
    rcases Phase.run_error _ _ _ _ _ _ herror with ⟨-, hcancelled⟩ | ⟨-, hblames⟩
    · cases hcancelled
    · rcases hblames.cases with ⟨_, _, _, hfailed⟩ | ⟨_, hcrashed⟩
      · cases hfailed
      · cases hcrashed
  · obtain ⟨index, rfl, hleast⟩ := sendBackAll_at_ceiling hv hlimit h hcounter hsend
    refine ⟨_, rfl, fun index' incarnation ceiling heq => ?_⟩
    cases heq
    exact ⟨rfl, rfl, hleast⟩

/-- **A ceiling ends every run.** Under a ceiling of `L ≥ 1` a batch of `n` requests, with
`n * L + 1` below 2³², is answered or fails for a reason: no counter overflows. That takes at most
`n * L + 1` rounds, and at most `L + 1` under the minimal policy. If the ceiling is the reason, the
task it is about is the first that was reported at incarnation `L`. -/
theorem process_under_ceiling (hs : s.validator.BuiltIn)
    (hlimit : s.config.maxIncarnations = some limit) (hpos : 1 ≤ limit.toNat)
    (hroom : requests.length * limit.toNat + 1 < 2 ^ 32) (env : Environment) (metrics : Metrics)
    (world : World S) :
    let ended := s.process env metrics world requests
    let start := Batch.start metrics world requests
    ((∃ rs, ended.result = .ok rs) ∨ ∃ error, ended.result = .error (.failed error)) ∧
    ended.batch.report.rounds ≤ requests.length * limit.toNat + 1 ∧
    (s.validator = Validator.minimal → ended.batch.report.rounds ≤ limit.toNat + 1) ∧
    (∀ number e, s.roundEnd? env start number = some e →
      e.batch.report.rounds ≤ requests.length * limit.toNat + 1 ∧
      ∀ t ∈ e.batch.tasks, t.incarnation ≤ limit.toNat ∧ t.incarnation + 1 < 2 ^ 32) ∧
    ∀ index incarnation ceiling,
      ended.result = .error (.failed (.incarnationLimitExceeded index incarnation ceiling)) →
      incarnation = limit.toNat + 1 ∧ ceiling = limit.toNat ∧
      ∃ number b, number + 1 = ended.batch.report.rounds ∧
        s.roundEnd? env start number = some (.again b) ∧
        IsLeast {i | i ∈ (s.passAfter env b).2 ∧
          ∃ t, (s.passAfter env b).1[i]? = some t ∧ t.incarnation = limit.toNat} index := by
  intro ended start
  have hv := hs.judges
  have hvalid : s.config.validate = .ok () := by
    refine if_neg fun hzero => ?_
    obtain rfl := Option.some.inj (hlimit.symm.trans hzero)
    exact absurd hpos (by decide)
  have hstages : ∀ number e, s.roundEnd? env start number = some e →
      e.batch.report.rounds ≤ requests.length * limit.toNat + 1 ∧
      ∀ t ∈ e.batch.tasks, t.incarnation ≤ limit.toNat ∧ t.incarnation + 1 < 2 ^ 32 :=
    fun _ _ he => counts_of_roundEnd? hv hlimit hroom he
  by_cases hne : requests = []
  · have hresult : ended.result = .ok [] := by
      subst hne
      exact process_empty s env metrics world hvalid
    have hagrees := process_of_no_rounds s env metrics world requests (.inr hne)
    have hnone : ended.batch.report.rounds = 0 := congrArg Report.rounds hagrees.report
    refine ⟨.inl ⟨[], hresult⟩, by omega, fun _ => by omega, hstages, fun _ _ _ herror => ?_⟩
    cases hresult.symm.trans herror
  have hrounds : ∀ {number b e}, s.roundEnd? env start number = some (.again b) →
      s.round env b = e → ended.batch.Agrees e.batch →
      ended.batch.report.rounds = number + 1 ∧
      ended.batch.report.rounds ≤ requests.length * limit.toNat + 1 ∧
      (s.validator = Validator.minimal → ended.batch.report.rounds ≤ limit.toNat + 1) := by
    rintro number b _ hb rfl hagrees
    have hlast := roundEnd?_succ_of_again hb
    have hcount : ended.batch.report.rounds = number + 1 := by
      rw [hagrees.report, (roundEnd?_counted hlast).1]
    rw [hcount]
    exact ⟨rfl, roundEnd?_le hv hlimit hlast,
      fun hminimal => roundEnd?_le_of_minimal hminimal hlimit hne hlast⟩
  cases process_ending hv env metrics world hvalid hne with
  | answered hb hround hagrees _ hresult =>
      obtain ⟨-, hle, hminimal⟩ := hrounds hb hround hagrees
      refine ⟨.inl ⟨_, hresult⟩, hle, hminimal, hstages, fun _ _ _ herror => ?_⟩
      cases hresult.symm.trans herror
  | halted hb hround hagrees hresult =>
      obtain ⟨hcount, hle, hminimal⟩ := hrounds hb hround hagrees
      obtain ⟨error, rfl, hceiling⟩ := halted_under_ceiling hv hlimit
        (Nat.le_of_lt_succ (limit_lt hroom hne)) (climbed_of_again hv hb) hround
      refine ⟨.inr ⟨error, hresult⟩, hle, hminimal, hstages,
        fun index incarnation ceiling herror => ?_⟩
      cases hresult.symm.trans herror
      obtain ⟨hincarnation, hlimit', hleast⟩ := hceiling _ _ _ rfl
      exact ⟨hincarnation, hlimit', _, _, hcount.symm, hb, hleast⟩
  | full hb =>
      have hle := roundEnd?_le hv hlimit (roundEnd?_succ_of_again hb)
      exact absurd hroom (Nat.not_lt.mpr hle)

/-- One transaction aborts whenever it is executed. -/
def stubborn : Scheduler Unit Nat Nat where
  executor request version :=
    .finish (if version.index = 1 then .aborted (.dependency 0) else .returned request)
  validator := Validator.minimal
  config := { maxIncarnations := some 5 }

/-- It is sent back as often as the ceiling allows, and the batch fails of it in the last round that
there can be. -/
theorem stubborn_under_ceiling :
    (stubborn.process {} {} ⟨(), false⟩ [1, 2, 3]).result =
        .error (.failed (.incarnationLimitExceeded 1 6 5)) ∧
      (stubborn.process {} {} ⟨(), false⟩ [1, 2, 3]).batch.report.rounds = 6 ∧
      ∃ b, stubborn.roundEnd? {} (Batch.start {} ⟨(), false⟩ [1, 2, 3]) 5 = some (.again b) ∧
        IsLeast {i | i ∈ (stubborn.passAfter {} b).2 ∧
          ∃ t, (stubborn.passAfter {} b).1[i]? = some t ∧ t.incarnation = 5} 1 := by
  have hresult : (stubborn.process {} {} ⟨(), false⟩ [1, 2, 3]).result =
      .error (.failed (.incarnationLimitExceeded 1 6 5)) := by rfl
  have hrounds : (stubborn.process {} {} ⟨(), false⟩ [1, 2, 3]).batch.report.rounds = 6 := by rfl
  have hroom : [1, 2, 3].length * (5 : UInt32).toNat + 1 < 2 ^ 32 := by decide
  obtain ⟨-, -, -, -, hceiling⟩ := process_under_ceiling (s := stubborn) .minimal rfl (by decide)
    hroom {} {} ⟨(), false⟩
  obtain ⟨-, -, number, b, hnumber, hb, hleast⟩ := hceiling _ _ _ hresult
  obtain rfl : number = 5 := by omega
  exact ⟨hresult, hrounds, b, hb, hleast⟩

end Scheduler

end TxBatch
