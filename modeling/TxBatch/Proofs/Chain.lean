import Mathlib.Data.Nat.Choose.Basic
import TxBatch.Proofs.Accounting
import TxBatch.Proofs.Cancelled
import TxBatch.Proofs.Ceiling
import TxBatch.Proofs.Kept

/-!
# What a chain of conflicts costs

If all transactions of a batch read and write one key, each of them spoils all that ran beside it
and stand behind it. So a round of the read/write-set validator accepts one task, the first that
waited, and sends all others back: after round `r` the tasks in front of `r` are accepted, each at
the incarnation that is its position, and the others wait at incarnation `r` (`Chained`). That is
the most that a batch of its length can cost (`process_returns_in_length`), and the account is
exact. A ceiling that is too low stops the run in the round in which the tasks left stand at it,
and the first of these is to blame.
-/

namespace TxBatch

variable {S Req R : Type} [Tracked R]

/-- The call returned, and answers that it read and wrote the key. -/
def CallEnd.Links (key : Key) (result : CallEnd R) : Prop :=
  ∃ response, result = .returned response ∧ key ∈ (Tracked.access response).reads ∧
    key ∈ (Tracked.access response).writes

/-- Nothing was cancelled, and all calls of the batch returned and touched the key. -/
structure Linked (key : Key) (b : Batch S Req R) : Prop where
  world : b.world.cancelled = false
  ended : ∀ {job result}, .ended job result ∈ b.log.flatten → result.Links key

theorem Linked.of_agrees {key : Key} {b b' : Batch S Req R} (h : Linked key b)
    (hagrees : b.Agrees b') : Linked key b' :=
  ⟨hagrees.world ▸ h.world, hagrees.log ▸ h.ended⟩

theorem choose_two_succ (n : Nat) : (n + 1).choose 2 = n + n.choose 2 := by
  rw [Nat.choose_succ_succ' n 1, Nat.choose_one_right]

namespace Scheduler

variable {s : Scheduler S Req R} {env : Environment} {metrics : Metrics} {world : World S}
  {requests : List Req} {key : Key} {number : Nat} {b b' : Batch S Req R}

/-- Calls that cannot do otherwise link a batch, however it ends. -/
theorem process_linked (hs : s.validator = Validator.readWrite)
    (hcalls : ∀ request ∈ requests, ∀ version, (s.executor request version).Ends (·.Links key))
    (huninterrupted : ∀ round, env.interrupts round = false) (hworld : world.cancelled = false) :
    Linked key (s.process env metrics world requests).batch := by
  have hkeeps : ∀ {slot : Nat} {request}, requests[slot]? = some request → ∀ incarnation,
      (s.executor request ⟨slot, incarnation⟩).Keeps (fun _ => True) (·.Links key) :=
    fun hrequest incarnation => (hcalls _ (List.mem_of_getElem? hrequest) ⟨_, incarnation⟩).keeps
  have hkept : Kept (fun _ => True) (fun _ _ result => result.Links key)
      (s.process env metrics world requests).batch :=
    process_kept hkeeps (judges hs) trivial env metrics
  exact ⟨process_uncancelled (I := fun _ => True) (P := fun _ _ result => result.Links key) hkeeps
    (judges hs) trivial hworld huninterrupted, hkept.ended⟩

/-! ## One round -/

/-- The phase of the round that follows `b` is smooth, and each of its calls touched the key. -/
structure SmoothLinked (key : Key) (s : Scheduler S Req R) (env : Environment)
    (b : Batch S Req R) : Prop where
  smooth : Smooth s env b
  links : ∀ {job result}, .ended job result ∈ (s.phaseAfter env b).log → result.Links key

/-- The run has come through `number` rounds, and each of them accepted one task. -/
structure Chained (requests : List Req) (number : Nat) (b : Batch S Req R) : Prop where
  advanced : Advanced requests number b
  waiting : ∀ {slot : Nat} {t}, b.tasks[slot]? = some t → number ≤ slot → t.status = .pending
  incarnation : ∀ {slot : Nat} {t}, b.tasks[slot]? = some t → t.incarnation = min slot number
  aborts : b.report.aborts = 0
  /-- The retries so far, and those that are still to come. -/
  retries : b.report.retries + (requests.length - number).choose 2 = requests.length.choose 2

theorem chained_start (hne : 0 < requests.length) (metrics : Metrics)
    (hworld : world.cancelled = false) :
    Chained requests 0 (Batch.start metrics world requests : Batch S Req R) where
  advanced := advanced_start hne metrics hworld
  waiting := fun ht _ => by
    obtain ⟨⟨request, index⟩, -, rfl⟩ := List.mem_map.mp (List.mem_of_getElem? ht)
    rfl
  incarnation := fun ht => by
    obtain ⟨⟨request, index⟩, -, rfl⟩ := List.mem_map.mp (List.mem_of_getElem? ht)
    exact (Nat.min_zero _).symm
  aborts := rfl
  retries := Nat.zero_add _

section Round

variable (hs : s.validator = Validator.readWrite) (hsmooth : SmoothLinked key s env b)
  (h : Chained requests number b)

include hsmooth h

/-- Each task that waited gets a response of this round that touches the key. -/
theorem Chained.phaseAfter_task {slot : Nat} {t : Task Req R} (ht : b.tasks[slot]? = some t)
    (hle : number ≤ slot) :
    ∃ response, (s.phaseAfter env b).tasks[slot]? =
        some { t with progress := .executed response (number + 1) } ∧
      key ∈ (Tracked.access response).reads ∧ key ∈ (Tracked.access response).writes := by
  obtain ⟨summary, hok⟩ := hsmooth.smooth.ok
  rcases Scheduler.phaseAfter_task hok ht with ⟨hstatus, -⟩ | ⟨-, result, outcome, hended, hout, h'⟩
  · exact absurd (h.waiting ht hle) hstatus
  · obtain ⟨response, rfl, hreads, hwrites⟩ := hsmooth.links hended
    cases hout
    rw [h.advanced.rounds] at h'
    exact ⟨response, h', hreads, hwrites⟩

include hs

/-- A result behind the first task that waited is spoiled by that of the first. -/
theorem Chained.passAfter_behind {slot : Nat} {t : Task Req R}
    (ht : (s.passAfter env b).1[slot]? = some t) (hlt : number < slot) : t.status = .aborted := by
  obtain ⟨summary, hok⟩ := hsmooth.smooth.ok
  refine ((judges hs).passAfter_status hok ht).resolve_left fun hvalidated => ?_
  -- What the pass accepts is what the phase left, for the first task and for this one.
  have hresult : ∀ {slot : Nat} {t : Task Req R}, (s.passAfter env b).1[slot]? = some t →
      t.status = .validated → number ≤ slot → ∃ response,
        t.result? = some (response, number + 1) ∧ key ∈ (Tracked.access response).reads ∧
          key ∈ (Tracked.access response).writes := by
    intro slot t ht hvalidated hle
    obtain ⟨t₁, ht₁, hverdict⟩ := (judges hs).passAfter_task ht
    obtain ⟨t₀, ht₀⟩ := getElem?_of_length_eq (Phase.run_length ..) ht₁
    obtain ⟨response, h', htouched⟩ := h.phaseAfter_task hsmooth ht₀ hle
    obtain ⟨response', round, hresult, -⟩ := Task.result?_of_validated hvalidated
    obtain rfl := Option.some.inj (ht₁.symm.trans h')
    have hsame := (hverdict.result? hresult).1
    cases hsame
    exact ⟨_, hresult, htouched⟩
  obtain ⟨first, hfirst, hfirst'⟩ := h.advanced.passAfter_front env hs hsmooth.smooth (Nat.le_refl _)
  obtain ⟨response, hresponse, hreads, -⟩ := hresult ht hvalidated (Nat.le_of_lt hlt)
  obtain ⟨other, hother, -, hwrites⟩ := hresult hfirst hfirst' (Nat.le_refl _)
  rw [passAfter_readWrite hs] at ht hfirst
  have hfree := Validator.not_dependsOn_of_validated hlt ht hfirst hresponse hother (Nat.le_refl _)
  rw [Access.dependsOn_iff.mpr ⟨key, hwrites, .inl hreads⟩] at hfree
  cases hfree

theorem Chained.mem_reported {index : Nat} :
    index ∈ (s.passAfter env b).2 ↔ number < index ∧ index < requests.length := by
  refine ⟨h.advanced.reported_bounds env hs hsmooth.smooth, fun ⟨hlt, hlength⟩ => ?_⟩
  have hseated := passAfter_seated hs env h.advanced.seated
  obtain ⟨t, ht⟩ := hseated.exists_task hlength
  exact ((judges hs).mem_reported h.advanced.seated).mpr
    ⟨t, ht, h.passAfter_behind hs hsmooth ht hlt⟩

theorem Chained.length_reported :
    (s.passAfter env b).2.length = requests.length - number - 1 := by
  have hperm : (s.passAfter env b).2.Perm
      (List.range' (number + 1) (requests.length - number - 1)) := by
    refine (List.perm_ext_iff_of_nodup ((judges hs).nodup_reported h.advanced.seated)
      List.nodup_range').mpr fun index => ?_
    rw [h.mem_reported hs hsmooth, List.mem_range'_1]
    omega
  rw [hperm.length_eq, List.length_range']

omit hsmooth in
theorem Chained.passAfter_incarnation {slot : Nat} {t : Task Req R}
    (ht : (s.passAfter env b).1[slot]? = some t) : t.incarnation = min slot number := by
  obtain ⟨t₀, ht₀, -, -, hincarnation⟩ := (judges hs).passAfter_identity ht
  rw [hincarnation, h.incarnation ht₀]

/-! ## The end of a round -/

theorem Chained.report :
    (s.round env b).batch.report.aborts = 0 ∧
      (s.round env b).batch.report.retries + (requests.length - (number + 1)).choose 2 =
        requests.length.choose 2 := by
  obtain ⟨summary, hok⟩ := hsmooth.smooth.ok
  obtain ⟨-, haborts, hretries⟩ := round_report hok
  refine ⟨?_, ?_⟩
  · have haborted := (Phase.run_tally _ _ _ _ _ _ hok).aborted
    have hnone : tally .aborted (s.phaseAfter env b).tasks = 0 := tally_eq_zero fun t ht => by
      obtain ⟨slot, hslot⟩ := List.getElem?_of_mem ht
      obtain ⟨t₀, ht₀⟩ := getElem?_of_length_eq (Phase.run_length ..) hslot
      rcases h.advanced.phaseAfter_task env hsmooth.smooth ht₀ with ⟨hstatus, h'⟩ | ⟨-, _, h'⟩
      · obtain rfl := Option.some.inj (hslot.symm.trans h')
        simp [hstatus]
      · obtain rfl := Option.some.inj (hslot.symm.trans h')
        simp [Task.status]
    rw [haborts, h.aborts]
    rw [show (Phase.run ..).tasks = (s.phaseAfter env b).tasks from rfl, hnone] at haborted
    omega
  · obtain ⟨left, hleft⟩ := Nat.exists_eq_add_of_lt h.advanced.lt_length
    have hnow : requests.length - number = left + 1 := by omega
    have hnext : requests.length - (number + 1) = left := by omega
    have hlength := h.length_reported hs hsmooth
    have hold := h.retries
    rw [hnow, Nat.add_sub_cancel] at hlength
    rw [hnow, choose_two_succ] at hold
    rw [hretries, hlength, hnext]
    omega

theorem Chained.again (hround : s.round env b = .again b') : Chained requests (number + 1) b' := by
  have hreport := h.report hs hsmooth
  rw [hround] at hreport
  have htask : ∀ {slot : Nat} {t'}, b'.tasks[slot]? = some t' → ∃ t,
      (s.passAfter env b).1[slot]? = some t ∧ ((t.status = .validated ∧ t' = t) ∨
        (number < slot ∧ t' = { t with incarnation := t.incarnation + 1, progress := .pending })) :=
    h.advanced.task_of_again env hs hsmooth.smooth hround
  refine ⟨h.advanced.again env hs hsmooth.smooth hround, fun {slot t'} ht' hle => ?_,
    fun {slot t'} ht' => ?_, hreport.1, hreport.2⟩
  · obtain ⟨t, ht, ⟨hvalidated, -⟩ | ⟨-, rfl⟩⟩ := htask ht'
    · rw [h.passAfter_behind hs hsmooth ht hle] at hvalidated
      cases hvalidated
    · rfl
  · obtain ⟨t, ht, hcases⟩ := htask ht'
    have hincarnation := h.passAfter_incarnation hs ht
    rcases hcases with ⟨hvalidated, rfl⟩ | ⟨hlt, rfl⟩
    · have hle : slot ≤ number := Nat.not_lt.mp fun hlt => by
        rw [h.passAfter_behind hs hsmooth ht hlt] at hvalidated
        cases hvalidated
      omega
    · dsimp only
      omega

/-- A run that comes to its end has accepted all tasks one by one. -/
theorem Chained.settled (hbalanced : Balanced requests b) (hround : s.round env b = .settled b') :
    number + 1 = requests.length ∧ b'.report.retries = requests.length.choose 2 ∧
      b'.report.executions = (requests.length + 1).choose 2 ∧ b'.report.aborts = 0 ∧
      ∀ slot < requests.length, ∃ t, b'.tasks[slot]? = some t ∧ t.incarnation = slot := by
  obtain ⟨⟨summary, hok⟩, hnone, htasks, hsame⟩ := round_settled hround
  have hreported := h.length_reported hs hsmooth
  rw [hnone, List.length_nil] at hreported
  have hlt := h.advanced.lt_length
  have hlast : number + 1 = requests.length := by omega
  have hexecuted := hbalanced.round hok
  obtain ⟨haborts, hretries⟩ := h.report hs hsmooth
  rw [hround, RoundEnd.batch] at haborts hretries hexecuted
  rw [hlast, Nat.sub_self, Nat.choose_zero_succ, Nat.add_zero] at hretries
  refine ⟨hlast, hretries, ?_, haborts, fun slot hslot => ?_⟩
  · rw [choose_two_succ]
    omega
  · obtain ⟨t, ht⟩ := (passAfter_seated hs env h.advanced.seated).exists_task hslot
    refine ⟨t, htasks ▸ ht, ?_⟩
    rw [h.passAfter_incarnation hs ht]
    omega

/-- A run that is stopped has come to the ceiling, and the first task that goes back is to blame. -/
theorem Chained.halted {limit : UInt32} (hlimit : s.config.maxIncarnations = some limit)
    (hcounter : limit.toNat + 1 ≤ counterMax) (hclimbed : Climbed s.config requests number b)
    {reason : Halt} (hround : s.round env b = .halted reason b') :
    number = limit.toNat ∧
      reason = .failed (.incarnationLimitExceeded (number + 1) (number + 1) number) := by
  obtain ⟨summary, hok⟩ := hsmooth.smooth.ok
  rcases round_halted hround with ⟨error, herror, -, -⟩ | ⟨-, hsend, -⟩
  · cases hok.symm.trans herror
  obtain ⟨index, rfl, ⟨hmem, t, ht, hat⟩, hleast⟩ :=
    sendBackAll_at_ceiling (judges hs) hlimit hclimbed hcounter hsend
  obtain ⟨hlt, hlength⟩ := (h.mem_reported hs hsmooth).mp hmem
  have hincarnation := h.passAfter_incarnation hs ht
  have hnumber : number = limit.toNat := by omega
  have hfirst : number + 1 ∈ (s.passAfter env b).2 :=
    (h.mem_reported hs hsmooth).mpr ⟨Nat.lt_succ_self _, by omega⟩
  obtain ⟨u, hu, -⟩ := ((judges hs).mem_reported h.advanced.seated).mp hfirst
  have hle : index ≤ number + 1 :=
    hleast ⟨hfirst, u, hu, by rw [h.passAfter_incarnation hs hu]; omega⟩
  have hindex : index = number + 1 := Nat.le_antisymm hle hlt
  refine ⟨hnumber, ?_⟩
  rw [hindex, hnumber]

end Round

/-! ## The run -/

section Run

variable (hs : s.validator = Validator.readWrite) (hpos : 1 ≤ requests.length)
  (hworld : world.cancelled = false) {last : Nat} {e : RoundEnd S Req R}
  (he : s.roundEnd? env (Batch.start metrics world requests) last = some e)
  (hlinked : Linked key e.batch)

include hs hpos hworld he hlinked

/-- No round of a linked run is disturbed. -/
theorem smoothLinked_of_lt (hlt : number < last)
    (hb : s.roundEnd? env (Batch.start metrics world requests) number = some (.again b)) :
    SmoothLinked key s env b := by
  have hnext := roundEnd?_succ_of_again hb
  have hcalm : (s.phaseAfter env b).world.cancelled = false := by
    rw [← (round_batch s env b).1]
    rcases Nat.lt_or_eq_of_le (Nat.succ_le_of_lt hlt) with hlt' | rfl
    · obtain ⟨c, hc⟩ := roundEnd?_of_lt he hlt'
      rw [Option.some.inj (hnext.symm.trans hc)]
      exact open_of_again (judges hs) (List.ne_nil_of_length_pos hpos) hworld hc
    · rw [Option.some.inj (hnext.symm.trans he)]
      exact hlinked.world
  obtain ⟨newer, hlog⟩ := roundEnd?_log hb hlt he
  have hlinks : ∀ {job result}, .ended job result ∈ (s.phaseAfter env b).log →
      result.Links key := by
    intro job result hmem
    refine @hlinked.ended job result ?_
    rw [hlog, List.flatten_append, List.flatten_cons]
    exact List.mem_append_right _ (List.mem_append_left _ hmem)
  have hreturned : ∀ {job result}, .ended job result ∈ (s.phaseAfter env b).log →
      ∃ response, result = .returned response := fun hmem =>
    let ⟨response, hresult, _⟩ := hlinks hmem
    ⟨response, hresult⟩
  refine ⟨⟨Phase.run_succeeds _ _ _ _ _ _ hcalm fun {job result} hmem => ?_, hcalm, hreturned⟩,
    hlinks⟩
  obtain ⟨response, rfl⟩ := hreturned hmem
  rfl

theorem chained_of_again (hle : number ≤ last)
    (hb : s.roundEnd? env (Batch.start metrics world requests) number = some (.again b)) :
    Chained requests number b := by
  induction number generalizing b with
  | zero =>
      cases hb
      exact chained_start hpos metrics hworld
  | succ number ih =>
      obtain ⟨c, hc, hround⟩ := roundEnd?_succ hb
      have hsmooth := smoothLinked_of_lt hs hpos hworld he hlinked hle hc
      exact (ih (Nat.le_of_lt hle) hc).again hs hsmooth hround

end Run

section Process

variable (hs : s.validator = Validator.readWrite) (hpos : 1 ≤ requests.length)
  (hworld : world.cancelled = false)
  (hlinked : Linked key (s.process env metrics world requests).batch)

include hs hpos hworld hlinked

theorem chained_last {e : RoundEnd S Req R}
    (hb : s.roundEnd? env (Batch.start metrics world requests) number = some (.again b))
    (hround : s.round env b = e)
    (hagrees : (s.process env metrics world requests).batch.Agrees e.batch) :
    SmoothLinked key s env b ∧ Chained requests number b ∧
      (s.process env metrics world requests).batch.report.rounds = number + 1 := by
  obtain rfl := hround
  have hnext := roundEnd?_succ_of_again hb
  have hlinked' := hlinked.of_agrees hagrees
  refine ⟨smoothLinked_of_lt hs hpos hworld hnext hlinked' (Nat.lt_succ_self _) hb,
    chained_of_again hs hpos hworld hnext hlinked' (Nat.le_succ _) hb, ?_⟩
  rw [hagrees.report, (roundEnd?_counted hnext).1]

variable (hlength : requests.length < 2 ^ 32)

include hlength

theorem chained_not_full
    (hb : s.roundEnd? env (Batch.start metrics world requests) counterMax = some (.again b))
    (hagrees : (s.process env metrics world requests).batch.Agrees b) : False := by
  have hchained := chained_of_again hs hpos hworld hb (hlinked.of_agrees hagrees) (Nat.le_refl _) hb
  exact Nat.not_lt.mpr (Nat.le_of_lt_succ hlength) hchained.advanced.lt_length

theorem chain_answered
    (hceiling : ∀ limit, s.config.maxIncarnations = some limit →
      max 1 (requests.length - 1) ≤ limit.toNat) :
    let ended := s.process env metrics world requests
    (∃ rs, ended.result = .ok rs) ∧ ended.batch.report.rounds = requests.length ∧
      ended.batch.report.retries = requests.length.choose 2 ∧
      ended.batch.report.executions = (requests.length + 1).choose 2 ∧
      ended.batch.report.aborts = 0 ∧
      ∀ slot < requests.length, ∃ t, ended.batch.tasks[slot]? = some t ∧ t.incarnation = slot := by
  intro ended
  cases process_ending (judges hs) env metrics world (validate_of_ceiling hceiling)
    (List.ne_nil_of_length_pos hpos) with
  | @answered number b b' rs hb hround hagrees _ hresult =>
      obtain ⟨hsmooth, hchained, hrounds⟩ := chained_last hs hpos hworld hlinked hb hround hagrees
      have hsettled := hchained.settled hs hsmooth (balanced_of_again (judges hs) hb) hround
      rw [← hagrees.report, ← hagrees.tasks] at hsettled
      exact ⟨⟨rs, hresult⟩, hrounds.trans hsettled.1, hsettled.2⟩
  | halted hb hround hagrees hresult =>
      obtain ⟨hsmooth, hchained, -⟩ := chained_last hs hpos hworld hlinked hb hround hagrees
      have hlt := hchained.advanced.lt_length
      exact absurd hround (hchained.advanced.not_halted env hs hsmooth.smooth hceiling
        (Nat.lt_of_lt_of_le hlt (Nat.le_of_lt_succ hlength)))
  | full hb hagrees => exact (chained_not_full hs hpos hworld hlinked hlength hb hagrees).elim

theorem chain_stopped {limit : UInt32} (hlimit : s.config.maxIncarnations = some limit)
    (hone : 1 ≤ limit.toNat) (hlow : limit.toNat < requests.length - 1) :
    (s.process env metrics world requests).result = .error (.failed
        (.incarnationLimitExceeded (limit.toNat + 1) (limit.toNat + 1) limit.toNat)) ∧
      (s.process env metrics world requests).batch.report.rounds = limit.toNat + 1 := by
  have hvalid : s.config.validate = .ok () :=
    validate_of_ceiling (show ∀ limit', _ → max 1 1 ≤ _ from fun limit' hlimit' => by
      rw [Option.some.inj (hlimit'.symm.trans hlimit)]
      exact hone)
  have hcounter : limit.toNat + 1 ≤ counterMax := by
    unfold counterMax
    omega
  cases process_ending (judges hs) env metrics world hvalid (List.ne_nil_of_length_pos hpos) with
  | @answered number b b' rs hb hround hagrees _ hresult =>
      obtain ⟨hsmooth, hchained, -⟩ := chained_last hs hpos hworld hlinked hb hround hagrees
      obtain ⟨-, -, -, -, hincarnation⟩ :=
        hchained.settled hs hsmooth (balanced_of_again (judges hs) hb) hround
      -- The last task would have climbed above the ceiling.
      obtain ⟨t, ht, hat⟩ := hincarnation (requests.length - 1) (by omega)
      have hle := incarnation_le_limit (judges hs) hlimit (roundEnd?_succ_of_again hb)
        (t := t) (by rw [hround]; exact List.mem_of_getElem? ht)
      omega
  | halted hb hround hagrees hresult =>
      obtain ⟨hsmooth, hchained, hrounds⟩ := chained_last hs hpos hworld hlinked hb hround hagrees
      obtain ⟨rfl, rfl⟩ := hchained.halted hs hsmooth hlimit hcounter
        (climbed_of_again (judges hs) hb) hround
      exact ⟨hresult, hrounds⟩
  | full hb hagrees => exact (chained_not_full hs hpos hworld hlinked hlength hb hagrees).elim

end Process

/-- **What a chain of conflicts costs.** Let all calls of a batch of `n` requests return, cancelling
nothing, and answer that they read and wrote one key. If the ceiling is at least 1 and `n - 1`, the
batch is answered after exactly `n` rounds with `n * (n - 1) / 2` retries, `n * (n + 1) / 2`
executions and no abort, and each task ends at the incarnation that is its position. Under a lower
ceiling `L` it fails after `L + 1` rounds, and the task at position `L + 1` is to blame. -/
theorem chain_costs (hs : s.validator = Validator.readWrite) (hpos : 1 ≤ requests.length)
    (hlength : requests.length < 2 ^ 32) (env : Environment) (metrics : Metrics)
    (hworld : world.cancelled = false)
    (hlinked : Linked key (s.process env metrics world requests).batch) :
    let n := requests.length
    let ended := s.process env metrics world requests
    ((∀ limit, s.config.maxIncarnations = some limit → max 1 (n - 1) ≤ limit.toNat) →
      (∃ rs, ended.result = .ok rs) ∧
      ended.batch.report.rounds = n ∧ ended.batch.report.retries = n * (n - 1) / 2 ∧
      ended.batch.report.executions = n * (n + 1) / 2 ∧ ended.batch.report.aborts = 0 ∧
      ∀ slot < n, ∃ t, ended.batch.tasks[slot]? = some t ∧ t.incarnation = slot) ∧
    ∀ limit, s.config.maxIncarnations = some limit → 1 ≤ limit.toNat → limit.toNat < n - 1 →
      ended.result = .error (.failed
        (.incarnationLimitExceeded (limit.toNat + 1) (limit.toNat + 1) limit.toNat)) ∧
      ended.batch.report.rounds = limit.toNat + 1 := by
  intro n ended
  refine ⟨fun hceiling => ?_, fun limit hlimit hone hlow =>
    chain_stopped hs hpos hworld hlinked hlength hlimit hone hlow⟩
  obtain ⟨hresult, hrounds, hretries, hexecutions, hrest⟩ :=
    chain_answered hs hpos hworld hlinked hlength hceiling
  rw [Nat.choose_two_right] at hretries hexecutions
  rw [Nat.add_sub_cancel, Nat.mul_comm] at hexecutions
  exact ⟨hresult, hrounds, hretries, hexecutions, hrest⟩

/-! ## Four links -/

/-- Each request reads and writes one key, and two of them a key of their own. -/
def links : List Access :=
  let link : Access := (Access.read {} ⟨[97]⟩).write ⟨[97]⟩
  [link, link.read ⟨[98]⟩, link, link.write ⟨[99]⟩]

theorem echo_links (config : Config) : ∀ request ∈ links, ∀ version,
    ({ echo with config }.executor request version).Ends (·.Links (R := Access) ⟨[97]⟩) := by
  have htouched : ∀ request ∈ links, ⟨[97]⟩ ∈ request.reads ∧ ⟨[97]⟩ ∈ request.writes := by
    decide +kernel
  exact fun request hmem version => .finish ⟨request, rfl, htouched request hmem⟩

/-- They need four rounds, and under a ceiling of 2 the third is the last. -/
theorem links_cost :
    let ended (ceiling : Option UInt32) :=
      { echo with config.maxIncarnations := ceiling }.process {} {} ⟨(), false⟩ links
    (ended (some 3)).batch.report.rounds = 4 ∧ (ended (some 3)).batch.report.retries = 6 ∧
      (ended (some 3)).batch.report.executions = 10 ∧
      (ended (some 2)).result = .error (.failed (.incarnationLimitExceeded 3 3 2)) ∧
      (ended (some 2)).batch.report.rounds = 3 := by
  intro ended
  have hlinked (ceiling : Option UInt32) : Linked ⟨[97]⟩ (ended ceiling).batch :=
    process_linked rfl (echo_links _) (fun _ => rfl) rfl
  obtain ⟨-, hrounds, hretries, hexecutions, -⟩ := (chain_costs rfl (by decide) (by decide) {} {} rfl
    (hlinked (some 3))).1 fun limit hlimit => by
      obtain rfl := Option.some.inj hlimit
      decide
  obtain ⟨hresult, hlast⟩ := (chain_costs rfl (by decide) (by decide) {} {} rfl
    (hlinked (some 2))).2 2 rfl (by decide) (by decide)
  exact ⟨hrounds, hretries, hexecutions, hresult, hlast⟩

/-- A single link needs no retry, and yet no batch is run under a ceiling of zero. -/
theorem zero_ceiling_refuses_link :
    let s : Scheduler Unit Access Access := { echo with config.maxIncarnations := some 0 }
    let requests := links.take 1
    let ended := s.process {} {} ⟨(), false⟩ requests
    s.validator = Validator.readWrite ∧
      (∀ request ∈ requests, ∀ version,
        (s.executor request version).Ends (·.Links (R := Access) ⟨[97]⟩)) ∧
      1 ≤ requests.length ∧ requests.length < 2 ^ 32 ∧
      (∀ limit, s.config.maxIncarnations = some limit → requests.length - 1 ≤ limit.toNat) ∧
      ended.result = .error (.failed (.invalidConfig .zeroCeiling)) ∧
      ended.batch.report.rounds ≠ requests.length := by
  intro s requests ended
  exact ⟨rfl, fun request hmem => echo_links _ request (List.mem_of_mem_take hmem), by decide,
    by decide, fun limit _ => Nat.zero_le _, rfl, by decide⟩

end Scheduler

end TxBatch
