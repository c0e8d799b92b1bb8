import Mathlib.Data.List.Perm.Subperm
import Mathlib.Tactic.Ring
import TxBatch.Proofs.Committed
import TxBatch.Proofs.Phase.Calm

/-!
# Every round settles one task more

Let every call return (`Smooth`). Tasks far behind may be accepted and rejected again in turn, but
the front of the batch only grows: in front of the first task that is not final all results are older
than the round, so nothing spoils its next one (`Advanced.passAfter_front`). `Advanced` is what a run
has reached after a number of rounds. After as many rounds as there are tasks nothing is left to
send back, and on the way a task goes back only while it is behind the front
(`process_returns_in_length`).
-/

namespace TxBatch

variable {S Req R : Type} [Tracked R]

namespace Scheduler

/-- The run has come through `number` rounds, and at least so many tasks are final. -/
structure Advanced (requests : List Req) (number : Nat) (b : Batch S Req R) : Prop where
  seated : Seated requests b.tasks
  lt_length : number < requests.length
  world : b.world.cancelled = false
  rounds : b.report.rounds = number
  status : ∀ {slot : Nat} {t}, b.tasks[slot]? = some t →
    t.status = .validated ∨ t.status = .pending
  front : ∀ {slot : Nat} {t}, b.tasks[slot]? = some t → slot < number → t.status = .validated
  committed : ∀ {count : Nat}, (∀ t ∈ b.tasks.take count, t.status = .validated) →
    Committed (b.tasks.take count)
  round_le : ∀ {t response round}, t ∈ b.tasks → t.result? = some (response, round) →
    round ≤ number
  incarnation_le : ∀ {slot : Nat} {t}, b.tasks[slot]? = some t →
    t.incarnation ≤ number ∧ t.incarnation ≤ slot
  started : ∀ {job}, .started job ∈ b.log.flatten → job.version.incarnation ≤ job.version.index
  /-- Round `r` sends back at most the tasks behind the first `r`. -/
  retries : 2 * b.report.retries + (requests.length - number) * (requests.length - number - 1) ≤
    requests.length * (requests.length - 1)

theorem advanced_start {requests : List Req} (hne : 0 < requests.length) (metrics : Metrics)
    {world : World S} (hworld : world.cancelled = false) :
    Advanced requests 0 (Batch.start metrics world requests : Batch S Req R) := by
  have hfresh : ∀ t ∈ (Task.ofRequests requests : List (Task Req R)),
      t.status = .pending ∧ t.incarnation = 0 := by
    intro t ht
    obtain ⟨⟨request, index⟩, -, rfl⟩ := List.mem_map.mp ht
    exact ⟨rfl, rfl⟩
  refine {
    seated := seated_ofRequests requests
    lt_length := hne
    world := hworld
    rounds := rfl
    status := fun ht => .inr (hfresh _ (List.mem_of_getElem? ht)).1
    front := fun _ hlt => absurd hlt (Nat.not_lt_zero _)
    committed := fun {count} h => ?_
    round_le := fun ht hresult => ?_
    incarnation_le := fun ht => by simp [(hfresh _ (List.mem_of_getElem? ht)).2]
    started := fun hmem => (List.not_mem_nil hmem).elim
    retries := by simp [Batch.start] }
  · have hnil : (Batch.start metrics world requests : Batch S Req R).tasks.take count = [] := by
      refine List.eq_nil_iff_forall_not_mem.mpr fun t ht => ?_
      have hpending := (hfresh t (List.mem_of_mem_take ht)).1
      rw [h t ht] at hpending
      cases hpending
    rw [hnil]
    exact ⟨fun _ ht => (List.not_mem_nil ht).elim, rfl⟩
  · rw [Task.result?_eq_none.mpr (.inl (hfresh _ ht).1)] at hresult
    cases hresult

/-- The phase of the round that follows `b` succeeds and cancels nothing, and its calls return. -/
structure Smooth (s : Scheduler S Req R) (env : Environment) (b : Batch S Req R) : Prop where
  ok : ∃ summary, (s.phaseAfter env b).verdict = .ok summary
  world : (s.phaseAfter env b).world.cancelled = false
  returned : ∀ {job result}, .ended job result ∈ (s.phaseAfter env b).log →
    ∃ response, result = .returned response

omit [Tracked R] in
theorem smooth_of_returns {s : Scheduler S Req R} {env : Environment} {b : Batch S Req R}
    (hreturns : ∀ request version, (s.executor request version).Returns)
    (huninterrupted : ∀ round, env.interrupts round = false) (hworld : b.world.cancelled = false) :
    Smooth s env b := by
  obtain ⟨hok, hcalm, hreturned⟩ := Phase.run_calm hreturns s.config.workers
    (env.schedule (b.report.rounds + 1)) (b.report.rounds + 1)
    (Environment.enter_open hworld (huninterrupted _)) b.tasks
  exact ⟨hok, hcalm, hreturned⟩

section Round

variable {s : Scheduler S Req R} (env : Environment) {requests : List Req} {number : Nat}
  {b b' : Batch S Req R} (hs : s.validator = Validator.readWrite)
  (hsmooth : Smooth s env b)
  (h : Advanced requests number b)

include h

/-! ## The execution phase -/

/-- No call is for a task of the front, and none is at an incarnation above its position. -/
theorem Advanced.started_phaseAfter {job : Job Req}
    (hstarted : .started job ∈ (s.phaseAfter env b).log) :
    job.version.incarnation ≤ job.version.index := by
  obtain ⟨t, ht, -, hversion, -⟩ :=
    Phase.mem_jobs.mp (Phase.run_started_mem_jobs _ _ _ _ _ _ hstarted)
  have hindex : t.index = job.slot := h.seated.index ht
  have hle := (h.incarnation_le ht).2
  rw [hversion]
  simp only [Task.version, hindex]
  exact hle

include hsmooth

theorem Advanced.phaseAfter_task {slot : Nat} {t : Task Req R} (ht : b.tasks[slot]? = some t) :
    (t.status = .validated ∧ (s.phaseAfter env b).tasks[slot]? = some t) ∨
    (t.status = .pending ∧ ∃ response, (s.phaseAfter env b).tasks[slot]? =
      some { t with progress := .executed response (number + 1) }) := by
  obtain ⟨summary, hok⟩ := hsmooth.ok
  rcases Scheduler.phaseAfter_task hok ht with ⟨hstatus, h'⟩ | ⟨hpending, result, outcome, hended,
    hout, h'⟩
  · exact .inl ⟨(h.status ht).resolve_right hstatus, h'⟩
  · obtain ⟨response, rfl⟩ := hsmooth.returned hended
    cases hout
    rw [h.rounds] at h'
    exact .inr ⟨hpending, response, h'⟩

/-- What a task holds after the phase it holds since this round or an earlier one, and in front of
the first task that waited since an earlier one. -/
theorem Advanced.phaseAfter_round_le {slot : Nat} {t : Task Req R} {response : R} {round : Nat}
    (ht : (s.phaseAfter env b).tasks[slot]? = some t)
    (hresult : t.result? = some (response, round)) :
    round ≤ number + 1 ∧ (slot < number → round ≤ number) := by
  obtain ⟨t₀, ht₀⟩ := getElem?_of_length_eq (Phase.run_length ..) ht
  rcases h.phaseAfter_task env hsmooth ht₀ with ⟨-, h'⟩ | ⟨hpending, response', h'⟩
  · obtain rfl := Option.some.inj (ht.symm.trans h')
    have hle := h.round_le (List.mem_of_getElem? ht₀) hresult
    exact ⟨Nat.le_succ_of_le hle, fun _ => hle⟩
  · obtain rfl := Option.some.inj (ht.symm.trans h')
    cases hresult
    refine ⟨Nat.le_refl _, fun hlt => ?_⟩
    rw [h.front ht₀ hlt] at hpending
    cases hpending

/-! ## The validation pass -/

include hs

theorem Advanced.passAfter_round_le {t : Task Req R} {response : R} {round : Nat}
    (ht : t ∈ (s.passAfter env b).1) (hresult : t.result? = some (response, round)) :
    round ≤ number + 1 := by
  rw [passAfter_readWrite hs] at ht
  obtain ⟨slot, hslot⟩ := List.getElem?_of_mem ht
  rw [Validator.getElem?_judgeBehind, Option.map_eq_some_iff] at hslot
  obtain ⟨t₀, ht₀, rfl⟩ := hslot
  exact (h.phaseAfter_round_le env hsmooth ht₀ (Validator.judge_result? hresult).1).1

/-- The first task behind the front that just ran is accepted: everything in front of it is older
than its result. -/
theorem Advanced.passAfter_first {t : Task Req R} (ht : b.tasks[number]? = some t)
    (hpending : t.status = .pending) :
    ∃ t', (s.passAfter env b).1[number]? = some t' ∧ t'.status = .validated := by
  obtain ⟨response, ht'⟩ : ∃ response, (s.phaseAfter env b).tasks[number]? =
      some { t with progress := .executed response (number + 1) } := by
    rcases h.phaseAfter_task env hsmooth ht with ⟨hstatus, -⟩ | ⟨-, h'⟩
    · rw [hpending] at hstatus
      cases hstatus
    · exact h'
  rw [passAfter_readWrite hs, Validator.getElem?_judgeBehind, ht', Option.map_some]
  refine ⟨_, rfl, ?_⟩
  rw [Validator.judge_of_conflict?_eq_none rfl]
  · rfl
  · refine Validator.conflict?_eq_none.mpr fun earlier hmem other otherRound hother hle => ?_
    obtain ⟨slot, hslot⟩ := List.getElem?_of_mem hmem
    rw [List.nil_append, List.getElem?_take] at hslot
    split at hslot
    · rename_i hlt
      rw [Validator.getElem?_judgeBehind, Option.map_eq_some_iff] at hslot
      obtain ⟨u, hu, rfl⟩ := hslot
      have hold := (h.phaseAfter_round_le env hsmooth hu (Validator.judge_result? hother).1).2 hlt
      omega
    · cases hslot

/-- **The front grows.** The validation pass accepts the front and the first task behind it. -/
theorem Advanced.passAfter_front {slot : Nat} (hle : slot ≤ number) :
    ∃ t, (s.passAfter env b).1[slot]? = some t ∧ t.status = .validated := by
  have hkept : ∀ {count : Nat}, (∀ t ∈ b.tasks.take count, t.status = .validated) →
      slot < count → ∃ t, (s.passAfter env b).1[slot]? = some t ∧ t.status = .validated := by
    intro count hall hlt
    have hprefix : b.tasks.take count <+: (s.passAfter env b).1 :=
      passAfter_committed hs (h.committed hall) (List.take_prefix _ _)
    obtain ⟨t, ht⟩ := h.seated.exists_task (Nat.lt_of_le_of_lt hle h.lt_length)
    have ht' : (b.tasks.take count)[slot]? = some t := by rwa [List.getElem?_take_of_lt hlt]
    obtain ⟨hlt', rfl⟩ := List.getElem?_eq_some_iff.mp ht'
    exact ⟨_, List.prefix_iff_getElem?.mp hprefix slot hlt', hall _ (List.getElem_mem hlt')⟩
  have hfront : ∀ t ∈ b.tasks.take number, t.status = .validated := by
    intro t ht
    obtain ⟨i, hi⟩ := List.getElem?_of_mem ht
    rw [List.getElem?_take] at hi
    split at hi
    · exact h.front hi ‹_›
    · cases hi
  rcases Nat.lt_or_eq_of_le hle with hlt | rfl
  · exact hkept hfront hlt
  · obtain ⟨t, ht⟩ := h.seated.exists_task h.lt_length
    rcases h.status ht with hvalidated | hpending
    · have hall : ∀ u ∈ b.tasks.take (slot + 1), u.status = .validated := by
        intro u hu
        rw [List.take_add_one, ht] at hu
        rcases List.mem_append.mp hu with hu | hu
        · exact hfront u hu
        · simp only [Option.toList_some, List.mem_singleton] at hu
          exact hu ▸ hvalidated
      exact hkept hall (Nat.lt_succ_self _)
    · exact h.passAfter_first env hs hsmooth ht hpending

theorem Advanced.reported_bounds {index : Nat} (hmem : index ∈ (s.passAfter env b).2) :
    number < index ∧ index < requests.length := by
  obtain ⟨t, ht, haborted⟩ := ((judges hs).mem_reported h.seated).mp hmem
  refine ⟨?_, ?_⟩
  · by_contra hle
    obtain ⟨u, hu, hvalidated⟩ := h.passAfter_front env hs hsmooth (Nat.not_lt.mp hle)
    obtain rfl := Option.some.inj (ht.symm.trans hu)
    rw [haborted] at hvalidated
    cases hvalidated
  · rw [← (passAfter_seated hs env h.seated).length]
    exact (List.getElem?_eq_some_iff.mp ht).1

theorem Advanced.reported_length :
    (s.passAfter env b).2.length ≤ requests.length - number - 1 := by
  have hsub : (s.passAfter env b).2 ⊆
      List.range' (number + 1) (requests.length - number - 1) := by
    intro index hmem
    have hbounds := h.reported_bounds env hs hsmooth hmem
    rw [List.mem_range'_1]
    omega
  have hle := (List.subperm_of_subset ((judges hs).nodup_reported h.seated) hsub).length_le
  rwa [List.length_range'] at hle

/-! ## The end of a round -/

variable (hceiling : ∀ limit, s.config.maxIncarnations = some limit →
  max 1 (requests.length - 1) ≤ limit.toNat) (hroom : number < counterMax)

include hceiling hroom in
theorem Advanced.not_halted {reason : Halt} : s.round env b ≠ .halted reason b' := by
  intro hround
  rcases round_halted hround with ⟨error, herror, -, -⟩ | ⟨-, hsend, -⟩
  · obtain ⟨summary, hok⟩ := hsmooth.ok
    cases hok.symm.trans herror
  · obtain ⟨tasks, htasks⟩ : ∃ tasks,
        sendBackAll s.config (s.passAfter env b).1 (s.passAfter env b).2 = .ok tasks := by
      refine sendBackAll_succeeds _ ((judges hs).nodup_reported h.seated) fun index hmem => ?_
      obtain ⟨t, ht, -⟩ := ((judges hs).mem_reported h.seated).mp hmem
      obtain ⟨t₀, ht₀, -, -, hincarnation⟩ := (judges hs).passAfter_identity ht
      have hle := (h.incarnation_le ht₀).1
      have hbounds := h.reported_bounds env hs hsmooth hmem
      refine ⟨t, ht, by omega, ?_⟩
      unfold Config.exceeded?
      split
      · rename_i limit hlimit
        have hlimit' := hceiling limit hlimit
        exact if_neg (by omega)
      · rfl
    cases hsend.symm.trans htasks

omit hs hsmooth in
theorem Advanced.started_round {job : Job Req}
    (hmem : .started job ∈ (s.round env b).batch.log.flatten) :
    job.version.incarnation ≤ job.version.index := by
  rw [(round_batch s env b).2.1, List.flatten_cons, List.mem_append] at hmem
  rcases hmem with hmem | hmem
  · exact h.started_phaseAfter env hmem
  · exact h.started hmem

section Again

variable (hround : s.round env b = .again b')

include hround

omit hsmooth in
theorem Advanced.length_of_again : b'.tasks.length = (s.passAfter env b).1.length :=
  ((judges hs).again_seated h.seated hround).length.trans
    (passAfter_seated hs env h.seated).length.symm

/-- A task of the next round was accepted, or it is behind the front and goes one incarnation
further. -/
theorem Advanced.task_of_again {slot : Nat} {t' : Task Req R} (ht' : b'.tasks[slot]? = some t') :
    ∃ t, (s.passAfter env b).1[slot]? = some t ∧ ((t.status = .validated ∧ t' = t) ∨
      (number < slot ∧ t' = { t with incarnation := t.incarnation + 1, progress := .pending })) := by
  obtain ⟨t, ht⟩ := getElem?_of_length_eq (h.length_of_again env hs hround) ht'
  refine ⟨t, ht, ?_⟩
  rcases (judges hs).again_task h.seated hround ht with ⟨hvalidated, h'⟩ | ⟨haborted, h'⟩
  · exact .inl ⟨hvalidated, Option.some.inj (ht'.symm.trans h')⟩
  · have hmem : slot ∈ (s.passAfter env b).2 :=
      ((judges hs).mem_reported h.seated).mpr ⟨t, ht, haborted⟩
    exact .inr ⟨(h.reported_bounds env hs hsmooth hmem).1, Option.some.inj (ht'.symm.trans h')⟩

/-- Sending tasks back leaves a front alone that is accepted afterwards. -/
theorem Advanced.take_of_again {count : Nat}
    (hall : ∀ t ∈ b'.tasks.take count, t.status = .validated) :
    b'.tasks.take count = (s.passAfter env b).1.take count := by
  refine List.ext_getElem? fun slot => ?_
  rw [List.getElem?_take, List.getElem?_take]
  split
  · rename_i hlt
    cases ht' : b'.tasks[slot]? with
    | none =>
        have hle := List.getElem?_eq_none_iff.mp ht'
        rw [h.length_of_again env hs hround] at hle
        exact (List.getElem?_eq_none hle).symm
    | some t' =>
        obtain ⟨t, ht, ⟨-, rfl⟩ | ⟨-, rfl⟩⟩ := h.task_of_again env hs hsmooth hround ht'
        · exact ht.symm
        · cases hall _ (List.mem_of_getElem? ((List.getElem?_take_of_lt hlt).trans ht'))
  · rfl

theorem Advanced.retries_again : 2 * b'.report.retries +
    (requests.length - (number + 1)) * (requests.length - (number + 1) - 1) ≤
      requests.length * (requests.length - 1) := by
  obtain ⟨-, -, -, hretries⟩ := round_again hround
  have hlength := h.reported_length env hs hsmooth
  have hold := h.retries
  obtain ⟨left, hleft⟩ := Nat.exists_eq_add_of_lt h.lt_length
  have hnow : requests.length - number = left + 1 := by omega
  have hnext : requests.length - (number + 1) = left := by omega
  have hsquare : left * (left - 1) + 2 * left = (left + 1) * left := by
    cases left with
    | zero => rfl
    | succ left =>
        rw [Nat.add_sub_cancel]
        ring
  rw [hnow, Nat.add_sub_cancel] at hold hlength
  rw [hnext, hretries]
  omega

theorem Advanced.again : Advanced requests (number + 1) b' := by
  obtain ⟨-, hreported, -, -⟩ := round_again hround
  have hbatch := round_batch s env b
  rw [hround] at hbatch
  refine {
    seated := (judges hs).again_seated h.seated hround
    lt_length := ?_
    world := ?_
    rounds := ?_
    status := fun ht' => ?_
    front := fun ht' hlt => ?_
    committed := fun {count} hall => ?_
    round_le := fun ht' hresult => ?_
    incarnation_le := fun ht' => ?_
    started := fun hmem => ?_
    retries := h.retries_again env hs hsmooth hround }
  · obtain ⟨index, hmem⟩ := List.exists_mem_of_ne_nil _ hreported
    have hbounds := h.reported_bounds env hs hsmooth hmem
    omega
  · exact hbatch.1 ▸ hsmooth.world
  · exact hbatch.2.2.1.trans (congrArg (· + 1) h.rounds)
  · obtain ⟨t, ht, ⟨hvalidated, rfl⟩ | ⟨-, rfl⟩⟩ := h.task_of_again env hs hsmooth hround ht'
    · exact .inl hvalidated
    · exact .inr rfl
  · obtain ⟨t, ht, ⟨hvalidated, rfl⟩ | ⟨hbehind, -⟩⟩ := h.task_of_again env hs hsmooth hround ht'
    · exact hvalidated
    · omega
  · have hsame := h.take_of_again env hs hsmooth hround hall
    rw [hsame] at hall ⊢
    rw [passAfter_readWrite hs] at hall ⊢
    exact committed_take hall
  · obtain ⟨slot, hslot⟩ := List.getElem?_of_mem ht'
    obtain ⟨t, ht, ⟨-, rfl⟩ | ⟨-, rfl⟩⟩ := h.task_of_again env hs hsmooth hround hslot
    · exact h.passAfter_round_le env hs hsmooth (List.mem_of_getElem? ht) hresult
    · cases hresult
  · obtain ⟨t, ht, hcases⟩ := h.task_of_again env hs hsmooth hround ht'
    obtain ⟨t₀, ht₀, -, -, hincarnation⟩ := (judges hs).passAfter_identity ht
    have hle := h.incarnation_le ht₀
    rcases hcases with ⟨-, rfl⟩ | ⟨hbehind, rfl⟩
    · omega
    · simp only
      omega
  · refine h.started_round (s := s) env ?_
    rw [hround]
    exact hmem

end Again

omit hsmooth in
theorem Advanced.settled (hround : s.round env b = .settled b') :
    b'.report.rounds = number + 1 ∧ b'.tasks.length = requests.length ∧
      2 * b'.report.retries ≤ requests.length * (requests.length - 1) := by
  obtain ⟨-, -, htasks, hretries⟩ := round_settled hround
  have hbatch := round_batch s env b
  rw [hround] at hbatch
  rw [htasks, hretries]
  exact ⟨hbatch.2.2.1.trans (congrArg (· + 1) h.rounds), (passAfter_seated hs env h.seated).length,
    Nat.le_trans (Nat.le_add_right _ _) h.retries⟩

end Round

/-! ## The run -/

/-- A ceiling that leaves room for a retry is not refused. -/
theorem validate_of_ceiling {config : Config} {count : Nat}
    (hceiling : ∀ limit, config.maxIncarnations = some limit → max 1 count ≤ limit.toNat) :
    config.validate = .ok () := by
  refine if_neg fun hzero => ?_
  have hroom := hceiling 0 hzero
  simp at hroom

section Run

variable {s : Scheduler S Req R} {env : Environment} {requests : List Req}

section Smooth

variable (hs : s.validator = Validator.readWrite) {metrics : Metrics} {world : World S} {last : Nat}
  (hsmooth : ∀ {number b}, number < last →
    s.roundEnd? env (Batch.start metrics world requests) number = some (.again b) →
    b.world.cancelled = false → Smooth s env b)
  (hpos : 1 ≤ requests.length) (hworld : world.cancelled = false)

include hs hsmooth hpos hworld

theorem advanced_of_smooth {number : Nat} : ∀ {b : Batch S Req R}, number ≤ last →
    s.roundEnd? env (Batch.start metrics world requests) number = some (.again b) →
    Advanced requests number b := by
  induction number with
  | zero =>
      intro b _ hb
      cases hb
      exact advanced_start hpos metrics hworld
  | succ number ih =>
      intro b hlt hb
      obtain ⟨c, hc, hround⟩ := roundEnd?_succ hb
      have hadvanced := ih (Nat.le_of_lt hlt) hc
      exact hadvanced.again env hs (hsmooth hlt hc hadvanced.world) hround

/-- The end of such a run is that of its tasks, or that of the round counter. -/
theorem not_halted_of_smooth
    (hceiling : ∀ limit, s.config.maxIncarnations = some limit →
      max 1 (requests.length - 1) ≤ limit.toNat)
    (hroom : last ≤ counterMax) {number : Nat} (hle : number ≤ last) {reason : Halt}
    {b : Batch S Req R} :
    s.roundEnd? env (Batch.start metrics world requests) number ≠ some (.halted reason b) := by
  intro hb
  cases number with
  | zero => cases hb
  | succ number =>
      obtain ⟨c, hc, hround⟩ := roundEnd?_succ hb
      have hadvanced := advanced_of_smooth hs hsmooth hpos hworld (Nat.le_of_lt hle) hc
      exact hadvanced.not_halted env hs (hsmooth hle hc hadvanced.world) hceiling
        (Nat.lt_of_lt_of_le hle hroom) hround

end Smooth

section Calls

variable (hs : s.validator = Validator.readWrite)
  (hreturns : ∀ request version, (s.executor request version).Returns)
  (huninterrupted : ∀ round, env.interrupts round = false)
  (hpos : 1 ≤ requests.length) {metrics : Metrics} {world : World S}
  (hworld : world.cancelled = false)

include hs hreturns huninterrupted hpos hworld

theorem advanced_of_again {number : Nat} {b : Batch S Req R}
    (hb : s.roundEnd? env (Batch.start metrics world requests) number = some (.again b)) :
    Advanced requests number b :=
  advanced_of_smooth hs (fun _ _ => smooth_of_returns hreturns huninterrupted) hpos hworld
    (Nat.le_refl number) hb

variable (hceiling : ∀ limit, s.config.maxIncarnations = some limit →
  max 1 (requests.length - 1) ≤ limit.toNat) (hcounter : requests.length ≤ counterMax)

include hceiling hcounter

theorem roundEnd?_ne_halted {number : Nat} {reason : Halt} {b : Batch S Req R} :
    s.roundEnd? env (Batch.start metrics world requests) number ≠ some (.halted reason b) := by
  intro hb
  cases number with
  | zero => cases hb
  | succ number =>
      obtain ⟨c, hc, hround⟩ := roundEnd?_succ hb
      have hadvanced := advanced_of_again hs hreturns huninterrupted hpos hworld hc
      have hsmooth := smooth_of_returns hreturns huninterrupted hadvanced.world
      exact hadvanced.not_halted env hs hsmooth hceiling
        (Nat.lt_of_lt_of_le hadvanced.lt_length hcounter) hround

/-- However a round ends, it leaves as many tasks accepted in front as there were rounds. -/
theorem roundEnd?_front {number : Nat} {e : RoundEnd S Req R}
    (he : s.roundEnd? env (Batch.start metrics world requests) number = some e) {slot : Nat}
    (hslot : slot < number) (hlength : slot < requests.length) :
    ∃ t, e.batch.tasks[slot]? = some t ∧ t.status = .validated := by
  cases e with
  | again b =>
      have hadvanced := advanced_of_again hs hreturns huninterrupted hpos hworld he
      obtain ⟨t, ht⟩ := hadvanced.seated.exists_task hlength
      exact ⟨t, ht, hadvanced.front ht hslot⟩
  | halted reason b =>
      exact absurd he (roundEnd?_ne_halted hs hreturns huninterrupted hpos hworld hceiling hcounter)
  | settled b =>
      obtain ⟨number, rfl⟩ := Nat.exists_eq_succ_of_ne_zero (Nat.ne_zero_of_lt hslot)
      obtain ⟨c, hc, hround⟩ := roundEnd?_succ he
      have hadvanced := advanced_of_again hs hreturns huninterrupted hpos hworld hc
      obtain ⟨-, htasks, -⟩ := hadvanced.settled env hs hround
      have ht := List.getElem?_eq_getElem (htasks.symm ▸ hlength)
      exact ⟨_, ht, settled_status hs hadvanced.seated hround (List.mem_of_getElem? ht)⟩

end Calls

/-- **Every round settles one task more.** Let every call return, let nobody cancel the batch, and
let the ceiling leave room for one retry and for one less than there are tasks. Then the batch is
answered within as many rounds as it has tasks, its end is that of its last round, after round `r`
the first `r` tasks are accepted, no task is called at an incarnation above its position, and at
most `n * (n - 1) / 2` retries are made. -/
theorem process_returns_in_length (hs : s.validator = Validator.readWrite)
    (hreturns : ∀ request version, (s.executor request version).Returns)
    (hceiling : ∀ limit, s.config.maxIncarnations = some limit →
      max 1 (requests.length - 1) ≤ limit.toNat)
    (hpos : 1 ≤ requests.length) (hlt : requests.length < 2 ^ 32) (env : Environment)
    (huninterrupted : ∀ round, env.interrupts round = false) (metrics : Metrics) {world : World S}
    (hworld : world.cancelled = false) :
    let ended := s.process env metrics world requests
    let start := Batch.start metrics world requests
    (∃ rs, ended.result = .ok rs) ∧
    ended.batch.report.rounds ≤ requests.length ∧
    (∃ b, s.roundEnd? env start ended.batch.report.rounds = some (.settled b) ∧
      ended.batch.Agrees b) ∧
    (∀ number e, s.roundEnd? env start number = some e → ∀ slot < min number requests.length,
      ∃ t, e.batch.tasks[slot]? = some t ∧ t.status = .validated) ∧
    (∀ job, .started job ∈ ended.batch.log.flatten →
      job.version.incarnation ≤ job.version.index) ∧
    ended.batch.report.retries ≤ requests.length * (requests.length - 1) / 2 := by
  intro ended start
  have hcounter : requests.length ≤ counterMax := Nat.le_of_lt_succ hlt
  have hvalid : s.config.validate = .ok () := by
    refine if_neg fun hzero => ?_
    have hroom := hceiling 0 hzero
    simp at hroom
  have hne : requests ≠ [] := List.ne_nil_of_length_pos hpos
  obtain ⟨last, b, hlast⟩ : ∃ last b, s.roundEnd? env start last = some (.settled b) := by
    obtain ⟨finished, hfinished, -⟩ := process_finished s env metrics world requests hvalid hne
    cases hfinished with
    | settled _ hlast => exact ⟨_, _, hlast⟩
    | halted _ hlast =>
        exact absurd hlast
          (roundEnd?_ne_halted hs hreturns huninterrupted hpos hworld hceiling hcounter)
    | full hfull =>
        have hadvanced := advanced_of_again hs hreturns huninterrupted hpos hworld hfull
        exact absurd hadvanced.lt_length (Nat.not_lt.mpr hcounter)
  cases last with
  | zero => cases hlast
  | succ number =>
      obtain ⟨c, hc, hround⟩ := roundEnd?_succ hlast
      have hadvanced := advanced_of_again hs hreturns huninterrupted hpos hworld hc
      obtain ⟨hrounds, -, hretries⟩ := hadvanced.settled env hs hround
      have hle : number + 1 ≤ requests.length := hadvanced.lt_length
      obtain ⟨hagrees, hresult⟩ := process_of_settled hvalid hne (by omega) hlast
      obtain ⟨rs, hrs⟩ := responses_of_validated fun t ht =>
        settled_status hs hadvanced.seated hround ht
      refine ⟨⟨rs, by rw [hresult, hrs]; rfl⟩, ?_, ⟨b, ?_, hagrees⟩, ?_, ?_, ?_⟩
      · rw [hagrees.report, hrounds]
        exact hle
      · rw [hagrees.report, hrounds]
        exact hlast
      · intro earlier e he slot hslot
        exact roundEnd?_front hs hreturns huninterrupted hpos hworld hceiling hcounter he
          (by omega) (by omega)
      · intro job hmem
        refine hadvanced.started_round (s := s) env ?_
        rw [hround]
        exact hagrees.log ▸ hmem
      · rw [hagrees.report]
        omega

end Run

/-! ## A relay -/

theorem echo_returns (request : Access) (version : Version) :
    (echo.executor request version).Returns :=
  .finish request

/-- The relay is over after three rounds and three retries: it needs all that it may have. -/
theorem relay_returns_in_length :
    (∃ rs, (echo.process {} {} ⟨(), false⟩ relay).result = .ok rs) ∧
      (echo.process {} {} ⟨(), false⟩ relay).batch.report.rounds = 3 ∧
      (echo.process {} {} ⟨(), false⟩ relay).batch.report.retries = 3 ∧
      ∀ job, .started job ∈ (echo.process {} {} ⟨(), false⟩ relay).batch.log.flatten →
        job.version.incarnation ≤ job.version.index := by
  have hceiling : ∀ limit, echo.config.maxIncarnations = some limit →
      max 1 (relay.length - 1) ≤ limit.toNat := by
    intro limit hlimit
    cases hlimit
    decide
  obtain ⟨hresult, -, -, -, hstarted, -⟩ :=
    process_returns_in_length rfl echo_returns hceiling (by decide) (by decide) {}
      (fun _ => rfl) {} (rfl : (⟨(), false⟩ : World Unit).cancelled = false)
  exact ⟨hresult, by rfl, by rfl, hstarted⟩

end Scheduler

end TxBatch
