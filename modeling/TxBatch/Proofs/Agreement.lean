import TxBatch.Proofs.Accounting
import TxBatch.Proofs.Attempts

/-!
# The batch run agrees with the sequential run

Let the end of a call depend on its request and its version only. Then the calls of a batch under
the minimal policy are the attempts of the sequential run, in another order: a task waits at its
next attempt until one does not abort (`Traced`). So a batch run comes to what its requests come to
(`process_decided`), as the sequential run does, and what it reports is what the requests needed
(`process_agrees_sequential`).
-/

namespace TxBatch

variable {S Req R : Type}

namespace Scheduler

variable {s : Scheduler S Req R} {env : Environment} {b b' : Batch S Req R} {requests : List Req}
  {number : Nat} {f : Req → Version → CallEnd R}

/-- Between two rounds each task stands at its first attempt that does not abort, or in front of
it. -/
structure Traced (f : Req → Version → CallEnd R) (requests : List Req) (number : Nat)
    (b : Batch S Req R) : Prop extends Lockstep requests number b where
  world : b.world.cancelled = false
  below : ∀ {slot : Nat} {t}, b.tasks[slot]? = some t →
    AbortsBelow f slot t.request t.incarnation
  returned : ∀ {slot : Nat} {t response round}, b.tasks[slot]? = some t →
    t.result? = some (response, round) →
      f t.request ⟨slot, t.incarnation⟩ = .returned response

theorem traced_start (f : Req → Version → CallEnd R) (metrics : Metrics) {world : World S}
    (hworld : world.cancelled = false) (hne : requests ≠ []) :
    Traced f requests 0 (Batch.start metrics world requests : Batch S Req R) where
  toLockstep := lockstep_start metrics world hne
  world := hworld
  below := fun {slot t} ht => by
    obtain ⟨⟨request, index⟩, -, rfl⟩ := List.mem_map.mp (List.mem_of_getElem? ht)
    exact .zero
  returned := fun ht hresult => by
    obtain ⟨⟨request, index⟩, -, rfl⟩ := List.mem_map.mp (List.mem_of_getElem? ht)
    cases hresult

section Round

variable (hs : s.validator = Validator.minimal)
  (hgives : ∀ request version, (s.executor request version).Gives (f request version))
  (huninterrupted : ∀ round, env.interrupts round = false) (h : Traced f requests number b)

include hgives huninterrupted h

theorem Traced.phaseAfter_ended :
    (s.phaseAfter env b).world.cancelled = false ∧
      ∀ {job result}, .ended job result ∈ (s.phaseAfter env b).log →
        result = f job.request job.version :=
  Phase.run_ends (P := fun request version => (· = f request version)) hgives s.config.workers
    (env.schedule (b.report.rounds + 1)) (b.report.rounds + 1)
    (Environment.enter_open h.world (huninterrupted _)) b.tasks

include hs

/-- After the validation pass of a round, too, and a task is rejected because it aborted. -/
theorem Traced.passAfter {summary : Summary} (hok : (s.phaseAfter env b).verdict = .ok summary)
    {slot : Nat} {t : Task Req R} (ht : (s.passAfter env b).1[slot]? = some t) :
    AbortsBelow f slot t.request t.incarnation ∧
      (∀ response round, t.result? = some (response, round) →
        f t.request ⟨slot, t.incarnation⟩ = .returned response) ∧
      (t.status = .aborted → ∃ signal, f t.request ⟨slot, t.incarnation⟩ = .aborted signal) := by
  obtain ⟨-, hended⟩ := h.phaseAfter_ended hgives huninterrupted
  obtain ⟨t₀, ht₀, -⟩ := (judges_of_minimal hs).passAfter_identity ht
  have hversion : t₀.version = ⟨slot, t₀.incarnation⟩ := by
    rw [← h.seated.index ht₀]
    rfl
  have hbelow := h.below ht₀
  rcases h.status ht₀ with ⟨hvalidated, -⟩ | ⟨hpending, -⟩
  · obtain rfl := Option.some.inj (ht.symm.trans (passAfter_of_validated hs ht₀ hvalidated))
    refine ⟨hbelow, fun _ _ hresult => h.returned ht₀ hresult, fun haborted => ?_⟩
    rw [hvalidated] at haborted
    cases haborted
  · rcases passAfter_of_pending hs hok ht₀ hpending with
      ⟨response, hmem, hpass⟩ | ⟨signal, hmem, hpass⟩
    · obtain rfl := Option.some.inj (ht.symm.trans hpass)
      have hgave := hended hmem
      rw [hversion] at hgave
      refine ⟨hbelow, fun _ _ hresult => ?_, fun haborted => by cases haborted⟩
      cases hresult
      exact hgave.symm
    · obtain rfl := Option.some.inj (ht.symm.trans hpass)
      have hgave := hended hmem
      rw [hversion] at hgave
      exact ⟨hbelow, fun _ _ hresult => (by cases hresult), fun _ => ⟨signal, hgave.symm⟩⟩

theorem Traced.again (hround : s.round env b = .again b') : Traced f requests (number + 1) b' := by
  obtain ⟨⟨summary, hok⟩, -, hsend, -⟩ := round_again hround
  have hworld := (round_batch s env b).1
  rw [hround] at hworld
  have horigin : ∀ {slot : Nat} {t'}, b'.tasks[slot]? = some t' →
      ∃ t, (s.passAfter env b).1[slot]? = some t ∧ (t' = t ∨ t.status = .aborted ∧
        t' = { t with incarnation := t.incarnation + 1, progress := .pending }) := by
    intro slot t' ht'
    obtain ⟨t, ht⟩ := getElem?_of_length_eq (sendBackAll_length _ hsend) ht'
    refine ⟨t, ht, ?_⟩
    rcases (judges_of_minimal hs).again_task h.seated hround ht with ⟨-, h'⟩ | ⟨haborted, h'⟩
    · exact .inl (Option.some.inj (ht'.symm.trans h'))
    · exact .inr ⟨haborted, Option.some.inj (ht'.symm.trans h')⟩
  refine ⟨h.toLockstep.again hs hround, ?_, fun {slot t'} ht' => ?_, fun ht' hresult => ?_⟩
  · exact hworld ▸ (h.phaseAfter_ended hgives huninterrupted).1
  · obtain ⟨t, ht, hcases⟩ := horigin ht'
    obtain ⟨hbelow, -, habort⟩ := h.passAfter hs hgives huninterrupted hok ht
    rcases hcases with rfl | ⟨haborted, rfl⟩
    · exact hbelow
    · obtain ⟨signal, hsignal⟩ := habort haborted
      exact hbelow.succ hsignal
  · obtain ⟨t, ht, rfl | ⟨-, rfl⟩⟩ := horigin ht'
    · exact (h.passAfter hs hgives huninterrupted hok ht).2.1 _ _ hresult
    · cases hresult

variable (hcrashed : ∀ request version report, f request version ≠ .crashed report)
  (hbounded : ∀ (index : Nat) request, requests[index]? = some request →
    Bounded s.config f index request)

include hcrashed hbounded

theorem Traced.halted (hclimbed : Climbed s.config requests number b) {reason : Halt}
    (hround : s.round env b = .halted reason b') :
    (∃ error, reason = .failed error) ∧ SomeDoomed s.config f 0 requests := by
  have hv := judges_of_minimal hs
  rcases round_halted hround with ⟨error, herror, rfl, -⟩ | ⟨⟨summary, hok⟩, hsend, -⟩
  · obtain ⟨hcalm, hended⟩ := h.phaseAfter_ended hgives huninterrupted
    refine ⟨⟨error, rfl⟩, ?_⟩
    rcases Phase.run_error _ _ _ _ _ _ herror with ⟨hcancelled, -⟩ | ⟨-, job, result, hmem, hblamed⟩
    · cases hcalm.symm.trans hcancelled
    obtain ⟨t, ht, -, hversion, hrequest⟩ := Phase.mem_jobs.mp
      (Phase.run_started_mem_jobs _ _ _ _ _ _ (Phase.run_ended_mem_started _ _ _ _ _ _ hmem))
    have hgave := hended hmem
    rw [hversion, hrequest, show t.version = ⟨job.slot, t.incarnation⟩ by
      rw [← h.seated.index ht]; rfl] at hgave
    refine ⟨job.slot, t.request, h.seated.request ht, ?_⟩
    rw [Nat.zero_add]
    cases result with
    | returned response => cases hblamed
    | aborted signal => cases hblamed
    | failed reason => exact doomed_of_failed (h.below ht) hgave.symm
    | crashed report => exact absurd hgave.symm (hcrashed _ _ _)
  · obtain ⟨front, index, behind, t, hreported, ht, -, hreason⟩ :=
      sendBackAll_error _ hsend (hv.nodup_reported h.seated) fun _ => hv.reported_lt h.seated
    have hmem : index ∈ (s.passAfter env b).2 := hreported ▸ by simp
    obtain ⟨u, hu, haborted⟩ := (hv.mem_reported h.seated).mp hmem
    obtain rfl := Option.some.inj (ht.symm.trans hu)
    obtain ⟨hbelow, -, habort⟩ := h.passAfter hs hgives huninterrupted hok ht
    obtain ⟨signal, hsignal⟩ := habort haborted
    have hrequest := (hv.passAfter_seated env h.seated).request ht
    rcases hreason with ⟨hfull, -⟩ | ⟨ceiling, hceiling, rfl⟩
    · have hlt := (hbounded index t.request hrequest).lt hbelow
        (hclimbed.passAfter_room hv env (List.mem_of_getElem? ht))
      omega
    · refine ⟨⟨_, rfl⟩, index, t.request, hrequest, ?_⟩
      rw [Nat.zero_add]
      exact doomed_of_exceeded (hbelow.succ hsignal) hceiling

end Round

section Run

variable (hs : s.validator = Validator.minimal)
  (hgives : ∀ request version, (s.executor request version).Gives (f request version))
  (hcrashed : ∀ request version report, f request version ≠ .crashed report)
  (huninterrupted : ∀ round, env.interrupts round = false)
  {metrics : Metrics} {world : World S} (hworld : world.cancelled = false)

include hs hgives huninterrupted hworld

theorem traced_of_again (hne : requests ≠ [])
    (hb : s.roundEnd? env (Batch.start metrics world requests) number = some (.again b)) :
    Traced f requests number b :=
  roundEnd?_again (traced_start f metrics hworld hne)
    (fun h hround => h.again hs hgives huninterrupted hround) hb

/-- What is left of the tasks in the last round is what answered their requests. -/
theorem answered_of_settled (hne : requests ≠ [])
    (hb : s.roundEnd? env (Batch.start metrics world requests) number = some (.again b))
    (hround : s.round env b = .settled b') {slot : Nat} {t : Task Req R}
    (ht : b'.tasks[slot]? = some t) {response : R} {round : Nat}
    (hresult : t.result? = some (response, round)) :
    Answered s.config f slot t.request t.incarnation response := by
  have hv := judges_of_minimal hs
  obtain ⟨⟨summary, hok⟩, -, htasks, -⟩ := round_settled hround
  rw [htasks] at ht
  obtain ⟨hbelow, hreturned, -⟩ :=
    (traced_of_again hs hgives huninterrupted hworld hne hb).passAfter hs hgives huninterrupted hok
      ht
  exact ⟨hbelow, hreturned _ _ hresult,
    (climbed_of_again hv hb).passAfter_room hv env (List.mem_of_getElem? ht)⟩

include hcrashed

theorem process_decided (hvalid : s.config.validate = .ok ())
    (hbounded : ∀ (index : Nat) request, requests[index]? = some request →
      Bounded s.config f index request) :
    Decided s.config f 0 requests (s.process env metrics world requests).result := by
  have hv := judges_of_minimal hs
  by_cases hne : requests = []
  · subst hne
    rw [process_empty s env metrics world hvalid]
    exact .answered ⟨rfl, fun hrequest => by cases hrequest⟩
  cases process_ending hv env metrics world hvalid hne with
  | answered hb hround hagrees hresponses hresult =>
      rw [hresult]
      have hseated := hv.seated_of_roundEnd? (seated_ofRequests requests)
        (hround ▸ roundEnd?_succ_of_again hb)
      obtain ⟨hlength, hanswers⟩ := responses_ok hresponses
      refine .answered ⟨hlength.trans hseated.length, fun {slot request} hrequest => ?_⟩
      obtain ⟨t, ht⟩ := hseated.exists_task (List.getElem?_eq_some_iff.mp hrequest).1
      obtain rfl := Option.some.inj ((hseated.request ht).symm.trans hrequest)
      obtain ⟨response, round, hres, hrs⟩ := hanswers ht
      refine ⟨t.incarnation, response, ?_, hrs⟩
      rw [Nat.zero_add]
      exact answered_of_settled hs hgives huninterrupted hworld hne hb hround ht hres
  | halted hb hround hagrees hresult =>
      have htraced := traced_of_again hs hgives huninterrupted hworld hne hb
      obtain ⟨⟨error, rfl⟩, hdoomed⟩ := htraced.halted hs hgives huninterrupted hcrashed hbounded
        (climbed_of_again hv hb) hround
      rw [hresult]
      exact .doomed hdoomed
  | full hb hagrees hresult =>
      have htraced := traced_of_again hs hgives huninterrupted hworld hne hb
      obtain ⟨slot, t, ht, hpending⟩ := htraced.waiting
      have hlt := (hbounded slot t.request (htraced.seated.request ht)).lt (htraced.below ht)
        ((climbed_of_again hv hb).room t (List.mem_of_getElem? ht))
      rcases htraced.status ht with ⟨hvalidated, -⟩ | ⟨-, hat⟩
      · rw [hpending] at hvalidated
        cases hvalidated
      · omega

omit hcrashed hgives huninterrupted hworld in
/-- What the report of the last round says of the tasks: how far they went, one execution with a
response each, and a retry for each abort. -/
theorem report_of_settled (hne : requests ≠ [])
    (hb : s.roundEnd? env (Batch.start metrics world requests) number = some (.again b))
    (hround : s.round env b = .settled b') :
    (b'.tasks.map Task.incarnation).max? = some number ∧
      b'.report.rounds = number + 1 ∧ b'.report.executions = requests.length ∧
      b'.report.aborts = (b'.tasks.map Task.incarnation).sum ∧
      b'.report.retries = (b'.tasks.map Task.incarnation).sum := by
  have hv := judges_of_minimal hs
  have hlockstep := lockstep_of_again hs hne hb
  have hclimbed := climbed_of_again hv hb
  obtain ⟨⟨summary, hok⟩, -, htasks, hretries⟩ := round_settled hround
  have hsame : b'.tasks.map Task.incarnation = b.tasks.map Task.incarnation :=
    htasks ▸ map_incarnation_passAfter hv env b
  have hexecutions := (balanced_of_again hv hb).round hok
  have haborts := hlockstep.round_aborts hs hok (aborts_of_again hs hne hb)
  have hrounds := (roundEnd?_counted (roundEnd?_succ_of_again hb)).1
  rw [hround] at hexecutions haborts hrounds
  simp only [RoundEnd.batch] at hexecutions haborts hrounds
  have hsum : b'.report.retries = (b'.tasks.map Task.incarnation).sum := by
    rw [hsame, hretries, hclimbed.retries, incarnations]
  refine ⟨?_, hrounds, by omega, haborts.trans hsum, hsum⟩
  rw [hsame, List.max?_eq_some_iff]
  constructor
  · obtain ⟨slot, t, ht, hpending⟩ := hlockstep.waiting
    rcases hlockstep.status ht with ⟨hvalidated, -⟩ | ⟨-, hat⟩
    · rw [hpending] at hvalidated
      cases hvalidated
    · exact hat ▸ List.mem_map_of_mem (List.mem_of_getElem? ht)
  · intro incarnation hmem
    obtain ⟨t, ht, rfl⟩ := List.mem_map.mp hmem
    obtain ⟨slot, hslot⟩ := List.getElem?_of_mem ht
    rcases hlockstep.status hslot with ⟨-, hlt⟩ | ⟨-, hat⟩
    · exact Nat.le_of_lt hlt
    · exact Nat.le_of_eq hat

end Run

/-- **The batch run agrees with the sequential run.** Let the end of a call depend on its request
and its version only, and let no call crash or cancel the batch. Under the minimal policy, and a
ceiling in front of the last incarnation that can be counted, or none if every transaction stops
aborting in front of it, both runs have the same responses or both fail. If they succeed, a batch
with something in it takes one round more than the last transaction aborts, executes each
transaction once with a response, and makes a retry for each abort. -/
theorem process_agrees_sequential (hs : s.validator = Validator.minimal)
    (hvalid : s.config.validate = .ok ())
    (hgives : ∀ request version, (s.executor request version).Gives (f request version))
    (hcrashed : ∀ request version report, f request version ≠ .crashed report)
    (hceiling : ∀ limit, s.config.maxIncarnations = some limit → limit.toNat < counterMax)
    (hstops : s.config.maxIncarnations = none → ∀ (index : Nat) request,
      requests[index]? = some request →
        ∃ stop < counterMax, ∀ signal, f request ⟨index, stop⟩ ≠ .aborted signal)
    (env : Environment) (huninterrupted : ∀ round, env.interrupts round = false)
    (metrics : Metrics) {world world' : World S} (hworld : world.cancelled = false)
    (hworld' : world'.cancelled = false) :
    let ended := s.process env metrics world requests
    let reference := s.sequential world' requests
    (∀ rs, ended.result = .ok rs ↔ reference.result = .ok rs) ∧
    ((∃ error, ended.result = .error (.failed error)) ↔
      ∃ error, reference.result = .error (.failed error)) ∧
    ended.result ≠ .error .crashed ∧
    ∀ rs, ended.result = .ok rs → ∃ stops : List Nat, stops.length = requests.length ∧
      (∀ (index : Nat) request stop, requests[index]? = some request →
        stops[index]? = some stop → FirstStop f index request stop) ∧
      (requests ≠ [] → ∃ most, stops.max? = some most ∧ ended.batch.report.rounds = 1 + most) ∧
      ended.batch.report.executions = requests.length ∧
      ended.batch.report.aborts = stops.sum ∧ ended.batch.report.retries = stops.sum := by
  intro ended reference
  have hv := judges_of_minimal hs
  have hbounded : ∀ (index : Nat) request, requests[index]? = some request →
      Bounded s.config f index request := by
    intro index request hrequest
    cases hmax : s.config.maxIncarnations with
    | none =>
        obtain ⟨stop, hlt, hstop⟩ := hstops hmax index request hrequest
        exact ⟨stop, hlt, .inr hstop⟩
    | some limit =>
        refine ⟨limit.toNat, hceiling limit hmax, .inl fun hroom => ?_⟩
        exact Nat.not_succ_le_self _ (Config.exceeded?_eq_none.mp hroom limit hmax)
  have hdecided : Decided s.config f 0 requests ended.result :=
    process_decided hs hgives hcrashed huninterrupted hworld hvalid hbounded
  obtain ⟨hsame, hfailed⟩ := hdecided.agree
    (sequential_decided hgives hcrashed hvalid hworld' hbounded)
  refine ⟨hsame, hfailed, fun hcrash => ?_, fun rs hrs => ?_⟩
  · rw [hcrash] at hdecided
    cases hdecided
  by_cases hne : requests = []
  · obtain ⟨-, -, -, hreport⟩ := process_of_no_rounds s env metrics world requests (.inr hne)
    refine ⟨[], by rw [hne]; rfl, fun _ _ _ _ hstop => (by cases hstop), fun h => absurd hne h, ?_⟩
    rw [show ended.batch.report = _ from hreport, hne]
    exact ⟨rfl, rfl, rfl⟩
  cases process_ending hv env metrics world hvalid hne with
  | @answered number b b' _ hb hround hagrees hresponses _ =>
      obtain ⟨hmax, hrounds, hexecutions, haborts, hretries⟩ := report_of_settled hs hne hb hround
      have hseated := hv.seated_of_roundEnd? (seated_ofRequests requests)
        (hround ▸ roundEnd?_succ_of_again hb)
      refine ⟨b'.tasks.map Task.incarnation, by rw [List.length_map]; exact hseated.length,
        fun index request stop hrequest hstop => ?_, fun _ => ⟨number, hmax, ?_⟩, ?_⟩
      · rw [List.getElem?_map, Option.map_eq_some_iff] at hstop
        obtain ⟨t, ht, rfl⟩ := hstop
        obtain ⟨response, round, hresult, -⟩ := (responses_ok hresponses).2 ht
        obtain rfl := Option.some.inj ((hseated.request ht).symm.trans hrequest)
        exact (answered_of_settled hs hgives huninterrupted hworld hne hb hround ht
          hresult).firstStop
      · rw [hagrees.report, hrounds, Nat.add_comm]
      · rw [hagrees.report]
        exact ⟨hexecutions, haborts, hretries⟩
  | halted _ _ _ hresult => cases hrs.symm.trans hresult
  | full _ _ hresult => cases hrs.symm.trans hresult

/-- A transaction aborts as often as its position says. -/
def patience (_ : Nat) (version : Version) : CallEnd Version :=
  if version.incarnation < version.index then .aborted .requested else .returned version

def patient : Scheduler Unit Nat Version where
  executor request version := .finish (patience request version)
  validator := Validator.minimal

/-- Both runs wait for the last one, the batch run in four rounds. -/
theorem patient_agrees_sequential :
    let ended := patient.process {} {} ⟨(), false⟩ [0, 0, 0, 0]
    (patient.sequential ⟨(), false⟩ [0, 0, 0, 0]).result =
        .ok [⟨0, 0⟩, ⟨1, 1⟩, ⟨2, 2⟩, ⟨3, 3⟩] ∧
      ended.result = .ok [⟨0, 0⟩, ⟨1, 1⟩, ⟨2, 2⟩, ⟨3, 3⟩] ∧
      ∃ stops : List Nat, stops.max? = some 3 ∧ stops.sum = 6 ∧
        ended.batch.report.rounds = 1 + 3 ∧ ended.batch.report.aborts = stops.sum := by
  intro ended
  have hresult : ended.result = .ok [⟨0, 0⟩, ⟨1, 1⟩, ⟨2, 2⟩, ⟨3, 3⟩] := by rfl
  have hgives : ∀ request version, (patient.executor request version).Gives
      (patience request version) := fun _ _ => .finish rfl
  have hcrashed : ∀ request version report, patience request version ≠ .crashed report := by
    intro request version report
    unfold patience
    split <;> simp
  have hceiling : ∀ limit, patient.config.maxIncarnations = some limit →
      limit.toNat < counterMax := by
    intro limit hlimit
    cases hlimit
    decide
  have hstops : patient.config.maxIncarnations = none → ∀ (index : Nat) request,
      [0, 0, 0, 0][index]? = some request →
        ∃ stop < counterMax, ∀ signal, patience request ⟨index, stop⟩ ≠ .aborted signal :=
    fun hnone => by cases hnone
  have hworld : (⟨(), false⟩ : World Unit).cancelled = false := rfl
  obtain ⟨hsame, -, -, hreport⟩ := process_agrees_sequential (s := patient) rfl rfl hgives hcrashed
    hceiling hstops {} (fun _ => rfl) {} hworld hworld
  obtain ⟨stops, -, -, hmost, -, haborts, -⟩ := hreport _ hresult
  obtain ⟨most, hmax, hrounds⟩ := hmost (by simp)
  have hfour : ended.batch.report.rounds = 4 := by rfl
  have hsix : ended.batch.report.aborts = 6 := by rfl
  obtain rfl : most = 3 := by
    rw [show ended.batch.report.rounds = _ from hrounds] at hfour
    omega
  exact ⟨(hsame _).mp hresult, hresult, stops, hmax, haborts.symm.trans hsix, hrounds, haborts⟩

end Scheduler

end TxBatch
