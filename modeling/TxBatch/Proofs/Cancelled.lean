import TxBatch.Proofs.History
import TxBatch.Proofs.Image
import TxBatch.Proofs.Phase.Refinement
import TxBatch.Proofs.Phase.Watched

/-!
# Cancelled runs

Let the calls of a run remember who cancelled it (`Scheduler.watched`); the run is the same
(`process_watched`). Between two rounds nobody is remembered and no call has been lost (`Quiet`),
so whatever goes wrong goes wrong in the last round: the run stays quiet to its end, or somebody
cancels it in front of a round (`Interrupted`), or its last phase fails (`Closing`). From the three
cases follows what a caller is told of a cancellation (`process_cancelled_iff`).
-/

namespace TxBatch

variable {S Req R : Type}

/-- The world with nobody remembered. -/
def World.watched (w : World S) : World (S × List Version) := ⟨(w.state, []), w.cancelled⟩

/-- Nobody has cancelled the batch, and no call has failed or crashed. -/
structure Quiet (w : World (S × List Version)) (log : List (List (Event Req R))) : Prop where
  world : w.cancelled = false
  nobody : w.state.2 = []
  outcome : ∀ {job result}, .ended job result ∈ log.flatten → result.outcome? ≠ none

namespace Scheduler

/-- The scheduler whose calls remember who cancelled. -/
def watched (s : Scheduler S Req R) : Scheduler (S × List Version) Req R where
  executor := Executor.watched s.executor
  validator := s.validator
  config := s.config

/-- The versions of the calls of a run that cancelled it, newest first. -/
def cancellers (s : Scheduler S Req R) (env : Environment) (metrics : Metrics) (world : World S)
    (requests : List Req) : List Version :=
  (s.watched.process env metrics world.watched requests).batch.world.state.2

theorem watched_maps (s : Scheduler S Req R) : s.watched.Maps Prod.fst s :=
  ⟨fun _ _ => Call.watched_maps _ _, rfl, rfl⟩

/-- To remember changes nothing. -/
theorem process_watched (s : Scheduler S Req R) (env : Environment) (metrics : Metrics)
    (world : World S) (requests : List Req) :
    s.process env metrics world requests =
      (s.watched.process env metrics world.watched requests).map Prod.fst :=
  process_map s.watched_maps env metrics world.watched requests

/-! ## A batch that is cancelled from outside -/

/-- The run gets to a round in front of which the batch is cancelled from outside. -/
def Interrupted (s : Scheduler S Req R) (env : Environment) (start : Batch S Req R) : Prop :=
  ∃ number < counterMax, ∃ b, s.roundEnd? env start number = some (.again b) ∧
    env.interrupts (number + 1) = true

theorem interrupted_watched {s : Scheduler S Req R} {env : Environment} {metrics : Metrics}
    {world : World S} {requests : List Req} :
    Interrupted s env (Batch.start metrics world requests) ↔
      Interrupted s.watched env (Batch.start metrics world.watched requests) := by
  have hmap := roundEnd?_map s.watched_maps env (Batch.start metrics world.watched requests)
  have hstart : (Batch.start metrics world.watched requests : Batch (S × List Version) Req R).map
      Prod.fst = Batch.start metrics world requests := rfl
  rw [hstart] at hmap
  constructor
  · rintro ⟨number, hlt, b, hb, hinterrupts⟩
    rw [hmap, Option.map_eq_some_iff] at hb
    obtain ⟨e, he, hagain⟩ := hb
    cases e with
    | again c => exact ⟨number, hlt, c, he, hinterrupts⟩
    | settled c => cases hagain
    | halted reason c => cases hagain
  · rintro ⟨number, hlt, b, hb, hinterrupts⟩
    exact ⟨number, hlt, b.map Prod.fst, by rw [hmap, hb]; rfl, hinterrupts⟩

section Interrupted

variable {s : Scheduler S Req R} {env : Environment} {metrics : Metrics} {world : World S}
  {requests : List Req} {number : Nat} {b : Batch S Req R} (hv : s.validator.Judges)
  (hne : requests ≠ [])
  (hb : s.roundEnd? env (Batch.start metrics world requests) number = some (.again b))

include hv hne hb

/-- The round that is interrupted makes no call. -/
theorem phaseAfter_of_interrupts (h : env.interrupts (number + 1) = true) :
    s.phaseAfter env b = ⟨.error .cancelled, b.tasks, ⟨b.world.state, true⟩, []⟩ := by
  have hrounds : b.report.rounds = number := (roundEnd?_counted hb).1
  rw [phaseAfter, hrounds, Environment.enter_of_interrupts h]
  exact Phase.run_of_cancelled _ _ _ _ _ _ (jobs_ne_nil_of_again hv hne hb) rfl

theorem interrupts_of_ok {summary : Summary} (hok : (s.phaseAfter env b).verdict = .ok summary) :
    env.interrupts (number + 1) = false := by
  cases h : env.interrupts (number + 1) with
  | false => rfl
  | true =>
      rw [phaseAfter_of_interrupts hv hne hb h] at hok
      cases hok

theorem not_interrupted_before {earlier : Nat} (hlt : earlier < number) :
    env.interrupts (earlier + 1) = false := by
  obtain ⟨c, hc⟩ := roundEnd?_of_lt hb (Nat.lt_of_succ_le hlt)
  have hnext : ∃ c', s.round env c = .again c' := by
    rcases Nat.lt_or_eq_of_le hlt with hlt' | rfl
    · obtain ⟨c', hc'⟩ := roundEnd?_of_lt hb hlt'
      exact ⟨c', Option.some.inj ((roundEnd?_succ_of_again hc).symm.trans hc')⟩
    · exact ⟨b, Option.some.inj ((roundEnd?_succ_of_again hc).symm.trans hb)⟩
  obtain ⟨c', hround⟩ := hnext
  obtain ⟨⟨summary, hok⟩, -⟩ := round_again hround
  exact interrupts_of_ok hv hne hc hok

/-- A run that ends in a round is interrupted in front of this one, if at all. -/
theorem interrupted_iff_of_last (hlast : ∀ b', s.round env b ≠ .again b')
    (hlt : number < counterMax) :
    Interrupted s env (Batch.start metrics world requests) ↔
      env.interrupts (number + 1) = true := by
  refine ⟨?_, fun h => ⟨number, hlt, b, hb, h⟩⟩
  rintro ⟨other, -, c, hc, h⟩
  rcases Nat.lt_trichotomy other number with hbefore | rfl | hbehind
  · cases h.symm.trans (not_interrupted_before hv hne hb hbefore)
  · exact h
  · have hnext := roundEnd?_succ_of_again hb
    rcases Nat.lt_or_eq_of_le (Nat.succ_le_of_lt hbehind) with hbehind' | rfl
    · obtain ⟨b', hb'⟩ := roundEnd?_of_lt hc hbehind'
      exact absurd (Option.some.inj (hnext.symm.trans hb')) (hlast b')
    · exact absurd (Option.some.inj (hnext.symm.trans hc)) (hlast c)

end Interrupted

/-! ## A batch that was cancelled beforehand -/

theorem process_of_cancelled {s : Scheduler S Req R} (hv : s.validator.Judges) (env : Environment)
    (metrics : Metrics) {world : World S} (hworld : world.cancelled = true) {requests : List Req}
    (hvalid : s.config.validate = .ok ()) (hne : requests ≠ []) :
    (s.process env metrics world requests).result = .error (.failed .cancelled) ∧
      (s.process env metrics world requests).batch.world = world ∧
      (s.process env metrics world requests).batch.log = [[]] := by
  have hphase : s.phaseAfter env (Batch.start metrics world requests) =
      ⟨.error .cancelled, Task.ofRequests requests, world, []⟩ := by
    have henter : env.enter ((Batch.start metrics world requests : Batch S Req R).report.rounds + 1)
        (Batch.start metrics world requests : Batch S Req R).world = world :=
      Environment.enter_of_cancelled hworld _ _
    rw [phaseAfter, henter]
    exact Phase.run_of_cancelled _ _ _ _ _ _ (jobs_ofRequests_ne_nil hne) hworld
  have hfirst : s.round env (Batch.start metrics world requests) =
      .halted (.failed .cancelled) (s.round env (Batch.start metrics world requests)).batch :=
    round_of_error (by rw [hphase])
  have honly : ∀ {number b}, s.roundEnd? env (Batch.start metrics world requests) number =
      some (.again b) → number = 0 ∧ b = Batch.start metrics world requests := by
    refine roundEnd?_again
      (I := fun number b => number = 0 ∧ b = Batch.start metrics world requests) ⟨rfl, rfl⟩ ?_
    rintro number b b' ⟨rfl, rfl⟩ hround
    cases hfirst.symm.trans hround
  obtain ⟨hworld', hlog, -⟩ := round_batch s env (Batch.start metrics world requests)
  rw [hphase] at hworld' hlog
  cases process_ending hv env metrics world hvalid hne with
  | answered hb hround =>
      obtain ⟨-, rfl⟩ := honly hb
      cases hfirst.symm.trans hround
  | halted hb hround hagrees hresult =>
      obtain ⟨-, rfl⟩ := honly hb
      cases hfirst.symm.trans hround
      exact ⟨hresult, hagrees.world.trans hworld', hagrees.log.trans hlog⟩
  | full hb =>
      obtain ⟨hfull, -⟩ := honly hb
      exact absurd hfull (by decide)

/-! ## A batch that was open -/

theorem sendBackAll_ne_cancelled {s : Scheduler S Req R} {env : Environment} {b : Batch S Req R}
    (hv : s.validator.Judges) {requests : List Req} (hseated : Seated requests b.tasks)
    {reason : Halt} (hsend : sendBackAll s.config (s.passAfter env b).1 (s.passAfter env b).2 =
      .error reason) : reason ≠ .failed .cancelled := by
  obtain ⟨_, _, _, _, -, -, -, ⟨-, rfl⟩ | ⟨_, -, rfl⟩⟩ :=
    sendBackAll_error _ hsend (hv.nodup_reported hseated) fun _ => hv.reported_lt hseated
  · exact fun h => by cases h
  · exact fun h => by cases h

/-- How a run of an open batch ends: as quiet as it began, or cancelled in front of a round, or in
a phase that fails. -/
inductive Closing (s : Scheduler (S × List Version) Req R) (env : Environment)
    (start : Batch (S × List Version) Req R) (ended : BatchEnd (S × List Version) Req R) : Prop
  | quiet (hquiet : Quiet ended.batch.world ended.batch.log)
      (hnever : ¬Interrupted s env start) (hresult : ended.result ≠ .error (.failed .cancelled))
  | interrupted {b : Batch (S × List Version) Req R} (hquiet : Quiet b.world b.log)
      (hinterrupted : Interrupted s env start)
      (hworld : ended.batch.world = ⟨b.world.state, true⟩) (hlog : ended.batch.log = [] :: b.log)
      (hresult : ended.result = .error (.failed .cancelled))
  | failed {b : Batch (S × List Version) Req R} {error : BatchError}
      (hquiet : Quiet b.world b.log) (hnever : ¬Interrupted s env start)
      (hentered : (env.enter (b.report.rounds + 1) b.world).cancelled = false)
      (hverdict : (s.phaseAfter env b).verdict = .error error)
      (hworld : ended.batch.world = (s.phaseAfter env b).world)
      (hlog : ended.batch.log = (s.phaseAfter env b).log :: b.log)
      (hresult : ended.result = .error (.failed error))

section Open

variable {s : Scheduler S Req R} {env : Environment} {b : Batch (S × List Version) Req R}

/-- The phase of a quiet batch is cancelled by its own calls, if at all. -/
theorem watching_phaseAfter (h : Quiet b.world b.log)
    (hentered : (env.enter (b.report.rounds + 1) b.world).cancelled = false) :
    ((s.watched.phaseAfter env b).world.cancelled = true ↔
      (s.watched.phaseAfter env b).world.state.2 ≠ []) ∧
    ∀ version ∈ (s.watched.phaseAfter env b).world.state.2, ∃ job,
      .started job ∈ (s.watched.phaseAfter env b).log ∧ job.version = version :=
  Phase.run_watching s.executor s.config.workers (env.schedule (b.report.rounds + 1))
    (b.report.rounds + 1) b.tasks hentered h.nobody

theorem quiet_of_ok (h : Quiet b.world b.log) (hjobs : jobs b.tasks ≠ []) {summary : Summary}
    (hok : (s.watched.phaseAfter env b).verdict = .ok summary)
    {e : RoundEnd (S × List Version) Req R} (hround : s.watched.round env b = e) :
    Quiet e.batch.world e.batch.log := by
  have hentered : (env.enter (b.report.rounds + 1) b.world).cancelled = false :=
    Phase.run_open_of_ok _ _ _ _ _ _ hok hjobs
  have hopen : (s.watched.phaseAfter env b).world.cancelled = false :=
    Phase.run_cancelled_of_ok _ _ _ _ _ _ hok hjobs
  obtain ⟨hworld, hlog, -⟩ := round_batch s.watched env b
  subst hround
  rw [hworld, hlog]
  refine ⟨hopen, ?_, ?_⟩
  · by_contra hne
    cases ((watching_phaseAfter h hentered).1.mpr hne).symm.trans hopen
  · intro job result hmem
    rw [List.flatten_cons, List.mem_append] at hmem
    rcases hmem with hmem | hmem
    · exact Option.isSome_iff_ne_none.mp (Phase.run_outcome_of_ok _ _ _ _ _ _ hok hmem)
    · exact h.outcome hmem

variable {metrics : Metrics} {world : World S} {requests : List Req}
  (hworld : world.cancelled = false) (hv : s.watched.validator.Judges) (hne : requests ≠ [])

include hworld hv hne

theorem quiet_of_again {number : Nat} : ∀ {b : Batch (S × List Version) Req R},
    s.watched.roundEnd? env (Batch.start metrics world.watched requests) number =
      some (.again b) → Quiet b.world b.log := by
  induction number with
  | zero =>
      intro b hb
      cases hb
      exact ⟨hworld, rfl, fun hmem => (List.not_mem_nil hmem).elim⟩
  | succ number ih =>
      intro b' hb'
      obtain ⟨b, hb, hround⟩ := roundEnd?_succ hb'
      obtain ⟨⟨summary, hok⟩, -⟩ := round_again hround
      exact quiet_of_ok (ih hb) (jobs_ne_nil_of_again hv hne hb) hok hround

variable {ended : BatchEnd (S × List Version) Req R} {b' : Batch (S × List Version) Req R}
  {number : Nat}
  (hb : s.watched.roundEnd? env (Batch.start metrics world.watched requests) number =
    some (.again b)) (hagrees : ended.batch.Agrees b')

include hb hagrees

/-- A run whose last phase succeeds is quiet to its end. -/
theorem closing_of_ok {summary : Summary}
    (hok : (s.watched.phaseAfter env b).verdict = .ok summary) (hlt : number < counterMax)
    {e : RoundEnd (S × List Version) Req R} (hround : s.watched.round env b = e)
    (hlast : ∀ c, e ≠ .again c) (hbatch : e.batch = b')
    (hresult : ended.result ≠ .error (.failed .cancelled)) :
    Closing s.watched env (Batch.start metrics world.watched requests) ended := by
  have hquiet := quiet_of_ok (quiet_of_again hworld hv hne hb) (jobs_ne_nil_of_again hv hne hb) hok
    hround
  rw [hbatch, ← hagrees.world, ← hagrees.log] at hquiet
  refine .quiet hquiet ?_ hresult
  rw [interrupted_iff_of_last hv hne hb (hround ▸ hlast) hlt, interrupts_of_ok hv hne hb hok]
  exact Bool.false_ne_true

/-- A run whose last phase fails was interrupted, or fails of its calls. -/
theorem closing_of_error {error : BatchError}
    (hverdict : (s.watched.phaseAfter env b).verdict = .error error) (hlt : number < counterMax)
    (hround : s.watched.round env b = .halted (.failed error) b')
    (hresult : ended.result = .error (.failed error)) :
    Closing s.watched env (Batch.start metrics world.watched requests) ended := by
  have hquiet := quiet_of_again hworld hv hne hb
  have hlast : ∀ c, s.watched.round env b ≠ .again c := by
    intro c hc
    cases hround.symm.trans hc
  have hiff := interrupted_iff_of_last hv hne hb hlast hlt
  obtain ⟨hworld', hlog, -⟩ := round_batch s.watched env b
  rw [hround] at hworld' hlog
  have hended := hagrees.world.trans hworld'
  have hendedLog := hagrees.log.trans hlog
  cases h : env.interrupts (number + 1) with
  | true =>
      have hphase := phaseAfter_of_interrupts hv hne hb h
      rw [hphase] at hverdict hended hendedLog
      cases hverdict
      exact .interrupted hquiet (hiff.mpr h) hended hendedLog hresult
  | false =>
      have hrounds : b.report.rounds = number := (roundEnd?_counted hb).1
      refine .failed hquiet ?_ ?_ hverdict hended hendedLog hresult
      · rw [hiff, h]
        exact Bool.false_ne_true
      · rw [hrounds]
        exact Environment.enter_open hquiet.world h

omit hb hagrees

theorem process_closing (env : Environment) (metrics : Metrics)
    (hvalid : s.config.validate = .ok ()) :
    Closing s.watched env (Batch.start metrics world.watched requests)
      (s.watched.process env metrics world.watched requests) := by
  cases process_ending hv env metrics world.watched hvalid hne with
  | answered hb hround hagrees _ hresult hlt =>
      obtain ⟨⟨summary, hok⟩, -⟩ := round_settled hround
      refine closing_of_ok hworld hv hne hb hagrees hok hlt hround (fun c h => by cases h) rfl ?_
      rw [hresult]
      exact fun h => by cases h
  | halted hb hround hagrees hresult hlt =>
      rcases round_halted hround with ⟨error, hverdict, rfl, -⟩ | ⟨⟨summary, hok⟩, hsend, -⟩
      · exact closing_of_error hworld hv hne hb hagrees hverdict hlt hround hresult
      · refine closing_of_ok hworld hv hne hb hagrees hok hlt hround (fun c h => by cases h) rfl ?_
        rw [hresult]
        have hseated := hv.roundEnd?_seated (seated_ofRequests requests) hb
        exact fun h => sendBackAll_ne_cancelled hv hseated hsend (Except.error.inj h)
  | full hb hagrees hresult =>
      have hquiet := quiet_of_again hworld hv hne hb
      refine .quiet (hagrees.world ▸ hagrees.log ▸ hquiet) ?_ ?_
      · rintro ⟨number, hlt, -, -, h⟩
        cases h.symm.trans (not_interrupted_before hv hne hb hlt)
      · rw [hresult]
        exact fun h => by cases h

end Open

/-! ## What the end of a run tells -/

section Closing

variable {s : Scheduler S Req R} {env : Environment} {start : Batch (S × List Version) Req R}
  {ended : BatchEnd (S × List Version) Req R}

/-- The caller is told of a cancellation exactly if the run was interrupted, or some call is to be
held to account for it. -/
theorem Closing.cancelled_iff (h : Closing s.watched env start ended) :
    (ended.result = .error (.failed .cancelled) ↔
        ended.batch.world.state.2 ≠ [] ∨ Interrupted s.watched env start) ∧
      (ended.batch.world.cancelled = true ↔
        ended.batch.world.state.2 ≠ [] ∨ Interrupted s.watched env start) := by
  cases h with
  | quiet hquiet hnever hresult => simp [hresult, hquiet.world, hquiet.nobody, hnever]
  | interrupted hquiet hinterrupted hworld hlog hresult => simp [hresult, hworld, hinterrupted]
  | @failed b error hquiet hnever hentered hverdict hworld hlog hresult =>
      obtain ⟨hrecorded, -⟩ := watching_phaseAfter (s := s) hquiet hentered
      rw [hresult, hworld, or_iff_left hnever, ← hrecorded]
      refine ⟨?_, Iff.rfl⟩
      rcases Phase.run_error _ _ _ _ _ _ hverdict with ⟨hcancelled, rfl⟩ | ⟨hopen, hblames⟩
      · exact iff_of_true rfl hcancelled
      · refine iff_of_false ?_ (by simp [phaseAfter, hopen])
        rcases hblames.cases with ⟨_, _, _, rfl⟩ | ⟨_, rfl⟩ <;> simp

theorem Closing.called (h : Closing s.watched env start ended) {version : Version}
    (hmem : version ∈ ended.batch.world.state.2) :
    ∃ round job, (round, job) ∈ calls ended.batch.log ∧ job.version = version := by
  cases h with
  | quiet hquiet _ hresult =>
      rw [hquiet.nobody] at hmem
      cases hmem
  | interrupted hquiet _ hworld _ _ =>
      rw [hworld] at hmem
      dsimp only at hmem
      rw [hquiet.nobody] at hmem
      cases hmem
  | @failed b error hquiet _ hentered hverdict hworld hlog hresult =>
      rw [hworld] at hmem
      obtain ⟨job, hstarted, hversion⟩ := (watching_phaseAfter hquiet hentered).2 version hmem
      rw [hlog, calls]
      exact ⟨_, job, List.mem_append_right _ (List.mem_map_of_mem (mem_begun.mpr hstarted)),
        hversion⟩

theorem Closing.lost (h : Closing s.watched env start ended) {job : Job Req} {result : CallEnd R}
    (hmem : .ended job result ∈ ended.batch.log.flatten) (hnone : result.outcome? = none) :
    ∃ error, ended.result = .error (.failed error) ∧
      (error = .cancelled ∨ Blames ended.batch.log.flatten error) := by
  cases h with
  | quiet hquiet _ hresult => exact absurd hnone (hquiet.outcome hmem)
  | interrupted _ _ _ _ hresult => exact ⟨_, hresult, .inl rfl⟩
  | @failed b error hquiet _ _ hverdict hworld hlog hresult =>
      refine ⟨error, hresult, ?_⟩
      rw [hlog, List.flatten_cons]
      rcases Phase.run_error _ _ _ _ _ _ hverdict with ⟨-, rfl⟩ | ⟨-, job', result', hmem', herror⟩
      · exact .inl rfl
      · exact .inr ⟨job', result', List.mem_append_left _ hmem', herror⟩

theorem getLast?_calls {phase : List (Event Req R)} {job : Job Req}
    (h : Phase.newest? phase = some job) (older : List (List (Event Req R))) :
    (calls (phase :: older)).getLast? = some (older.length + 1, job) := by
  have hlast : (begun phase).getLast? = some job := by
    rw [begun, List.getLast?_reverse]
    exact h
  rw [calls, List.getLast?_append, List.getLast?_map, hlast]
  rfl

/-- A single worker begins no call after one that cancelled, failed or crashed. -/
theorem Closing.sole (h : Closing s.watched env start ended) (hworkers : s.config.workers = 1) :
    (∀ version ∈ ended.batch.world.state.2, ∃ round job,
      (calls ended.batch.log).getLast? = some (round, job) ∧ job.version = version) ∧
    ∀ job result, .ended job result ∈ ended.batch.log.flatten → result.outcome? = none →
      ∃ round, (calls ended.batch.log).getLast? = some (round, job) := by
  cases h with
  | quiet hquiet _ hresult =>
      refine ⟨?_, ?_⟩
      · intro version hmem
        rw [hquiet.nobody] at hmem
        cases hmem
      · intro job result hmem hnone
        exact absurd hnone (hquiet.outcome hmem)
  | interrupted hquiet _ hworld hlog _ =>
      rw [hworld, hlog]
      refine ⟨?_, ?_⟩
      · intro version hmem
        dsimp only at hmem
        rw [hquiet.nobody] at hmem
        cases hmem
      · intro job result hmem hnone
        rw [List.flatten_cons, List.nil_append] at hmem
        exact absurd hnone (hquiet.outcome hmem)
  | @failed b error hquiet _ hentered hverdict hworld hlog hresult =>
      obtain ⟨hcancelled, hlost⟩ := Phase.run_sole s.executor s.config.workers
        (env.schedule (b.report.rounds + 1)) (b.report.rounds + 1) b.tasks hentered
        hquiet.nobody (hworkers ▸ Phase.effectiveWorkers_one_le _)
      rw [hworld, hlog]
      refine ⟨?_, ?_⟩
      · intro version hmem
        obtain ⟨job, hnewest, hversion⟩ := hcancelled version hmem
        exact ⟨_, job, getLast?_calls hnewest _, hversion⟩
      · intro job result hmem hnone
        rw [List.flatten_cons, List.mem_append] at hmem
        rcases hmem with hmem | hmem
        · exact ⟨_, getLast?_calls (hlost hmem hnone) _⟩
        · exact absurd hnone (hquiet.outcome hmem)

end Closing

/-! ## Whatever the parties do -/

section Parties

variable {s : Scheduler S Req R} {env : Environment} {metrics : Metrics} {world : World S}
  {requests : List Req} {number : Nat} {b : Batch S Req R}
  (hb : s.roundEnd? env (Batch.start metrics world requests) number = some (.again b))

include hb

/-- Whatever the parties of a phase do, some run has this phase. -/
theorem phaseAfter_of_finished (hv : s.validator.Judges) (hne : requests ≠ [])
    (hworld : world.cancelled = false) {p : Protocol S Req R}
    (hreachable : Protocol.Reachable s.executor
      (Protocol.start s.config.workers b.world b.tasks) p) (hfinished : p.finished) :
    ∃ env' log, s.roundEnd? env' (Batch.start metrics world requests) number = some (.again b) ∧
      s.phaseAfter env' b = ⟨p.verdict (deliverAll (number + 1) b.tasks p.arrivals).2,
        (deliverAll (number + 1) b.tasks p.arrivals).1, p.world, log⟩ := by
  have hopen := open_of_again hv hne hworld hb
  obtain ⟨schedule, log, hrun⟩ := Protocol.finished_run (jobs_ne_nil_of_again hv hne hb)
    hopen hreachable hfinished (number + 1)
  let env' : Environment := { env with
    schedule := fun n => if n = number + 1 then schedule else env.schedule n
    interrupts := fun n => if n = number + 1 then false else env.interrupts n }
  have hrounds : b.report.rounds = number := (roundEnd?_counted hb).1
  have hmicros : env'.roundMicros = env.roundMicros := rfl
  have hinterrupts : ∀ n ≤ number, env'.interrupts n = env.interrupts n :=
    fun n hle => if_neg (by omega)
  have hschedule : ∀ n ≤ number, env'.schedule n = env.schedule n :=
    fun n hle => if_neg (by omega)
  have hnext : env'.schedule (number + 1) = schedule := if_pos rfl
  have hentered : env'.enter (number + 1) b.world = b.world := by
    have hcalm : env'.interrupts (number + 1) = false := if_pos rfl
    simp [Environment.enter, World.apply, hcalm]
  refine ⟨env', log, (roundEnd?_congr hmicros hinterrupts hschedule).trans hb, ?_⟩
  rw [phaseAfter, hrounds, hnext, hentered]
  exact hrun

end Parties

/-- **A cancellation is reported exactly if it happened.** A batch that is cancelled beforehand, by
one of its calls, or from outside in front of a round, fails as cancelled whatever else went wrong,
and no other batch does or is left cancelled. A call that failed or crashed is blamed otherwise.
Nothing is called in a batch that was cancelled beforehand, and nothing by a single worker after a
call that cancelled, failed or crashed. And it does not matter what the producer, the workers and
the parent of a phase do: some run has the phase they come to. -/
theorem process_cancelled_iff {s : Scheduler S Req R} (hs : s.validator.BuiltIn)
    (env : Environment) (metrics : Metrics) (world : World S) {requests : List Req}
    (hvalid : s.config.validate = .ok ()) (hne : requests ≠ []) :
    let ended := s.process env metrics world requests
    let start := Batch.start metrics world requests
    let cancelling := s.cancellers env metrics world requests
    (ended.result = .error (.failed .cancelled) ↔
      world.cancelled = true ∨ cancelling ≠ [] ∨ Interrupted s env start) ∧
    (ended.batch.world.cancelled = true ↔
      world.cancelled = true ∨ cancelling ≠ [] ∨ Interrupted s env start) ∧
    (∀ version ∈ cancelling, ∃ round job, (round, job) ∈ calls ended.batch.log ∧
      job.version = version) ∧
    (∀ job result, .ended job result ∈ ended.batch.log.flatten → result.outcome? = none →
      ∃ error, ended.result = .error (.failed error) ∧
        (error = .cancelled ∨ Blames ended.batch.log.flatten error)) ∧
    (world.cancelled = true → calls ended.batch.log = []) ∧
    (s.config.workers = 1 →
      (∀ version ∈ cancelling, ∃ round job,
        (calls ended.batch.log).getLast? = some (round, job) ∧ job.version = version) ∧
      ∀ job result, .ended job result ∈ ended.batch.log.flatten → result.outcome? = none →
        ∃ round, (calls ended.batch.log).getLast? = some (round, job)) ∧
    (world.cancelled = false → ∀ number b, s.roundEnd? env start number = some (.again b) →
      ∀ p, Protocol.Reachable s.executor (Protocol.start s.config.workers b.world b.tasks) p →
      p.finished → ∃ env' log, s.roundEnd? env' start number = some (.again b) ∧
        s.phaseAfter env' b = ⟨p.verdict (deliverAll (number + 1) b.tasks p.arrivals).2,
          (deliverAll (number + 1) b.tasks p.arrivals).1, p.world, log⟩) := by
  have hv := hs.judges
  rw [process_watched]
  intro ended start cancelling
  have hinterrupted : Interrupted s env start ↔ _ := interrupted_watched
  cases hworld : world.cancelled with
  | true =>
      obtain ⟨hresult, hworld', hlog⟩ := process_of_cancelled (s := s.watched) hv env metrics
        (show world.watched.cancelled = true from hworld) hvalid hne
      have hclosed : ended.batch.world.cancelled = true :=
        (congrArg World.cancelled hworld').trans hworld
      have hlog' : ended.batch.log = [[]] := hlog
      have hnobody : ∀ version, version ∉ cancelling := by
        rw [show cancelling = [] from congrArg (fun w => w.state.2) hworld']
        exact fun _ => List.not_mem_nil
      have hended : ∀ job result, .ended job result ∉ ended.batch.log.flatten := by
        rw [hlog']
        exact fun _ _ => List.not_mem_nil
      refine ⟨iff_of_true hresult (.inl rfl), iff_of_true hclosed (.inl rfl),
        fun version hmem => absurd hmem (hnobody version),
        fun job result hmem => absurd hmem (hended job result), ?_, ?_, ?_⟩
      · intro _
        rw [hlog']
        rfl
      · intro _
        exact ⟨fun version hmem => absurd hmem (hnobody version),
          fun job result hmem => absurd hmem (hended job result)⟩
      · intro hopen
        cases hopen
  | false =>
      have hclosing := process_closing hworld (s := s) hv hne env metrics hvalid
      obtain ⟨hresult, hclosed⟩ := hclosing.cancelled_iff
      rw [← hinterrupted] at hresult hclosed
      refine ⟨hresult.trans (or_iff_right Bool.false_ne_true).symm,
        hclosed.trans (or_iff_right Bool.false_ne_true).symm,
        fun version hmem => hclosing.called hmem, fun job result => hclosing.lost, ?_,
        hclosing.sole, ?_⟩
      · intro hcancelled
        cases hcancelled
      · intro _ number b hb p hreachable hfinished
        exact phaseAfter_of_finished hb hv hne hworld hreachable hfinished

/-- Calls that cancel the batch and then fail, if they are told to. -/
def quitter : Scheduler Unit Bool Unit where
  executor quits _ :=
    .step (fun w => ⟨w.state, quits⟩)
      (fun _ => .finish (if quits then .failed "given up" else .returned ()))
  validator := Validator.minimal
  config := { workers := 1 }

/-- The call that cancelled is the last one, and the caller hears nothing of its failure. -/
theorem quitter_cancelled :
    let ended := quitter.process {} {} ⟨(), false⟩ [false, true, false]
    quitter.cancellers {} {} ⟨(), false⟩ [false, true, false] = [⟨1, 0⟩] ∧
      ended.result = .error (.failed .cancelled) ∧ ended.batch.world.cancelled = true ∧
      ∃ round job, (calls ended.batch.log).getLast? = some (round, job) ∧
        job.version = ⟨1, 0⟩ := by
  intro ended
  have hne : [false, true, false] ≠ [] := List.cons_ne_nil _ _
  have hwho : quitter.cancellers {} {} ⟨(), false⟩ [false, true, false] = [⟨1, 0⟩] := by rfl
  obtain ⟨hresult, hclosed, -, -, -, hsole, -⟩ :=
    process_cancelled_iff (s := quitter) .minimal {} {} ⟨(), false⟩ rfl hne
  rw [hwho] at hresult hclosed hsole
  have hsome : [(⟨1, 0⟩ : Version)] ≠ [] := List.cons_ne_nil _ _
  exact ⟨hwho, hresult.mpr (.inr (.inl hsome)), hclosed.mpr (.inr (.inl hsome)),
    (hsole rfl).1 _ List.mem_cons_self⟩

end Scheduler

end TxBatch
