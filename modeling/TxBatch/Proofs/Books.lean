import TxBatch.Proofs.Accounting
import TxBatch.Sequential

/-!
# The books of a scheduler

A scheduler keeps metrics over all the batches that it is given. Here they are compared with what
has really happened: with the calls it was used for (`Scheduler.calls`), the phases that their runs
went through (`Scheduler.phases`), and the reports that they ended with.

What a run adds to the metrics is told round by round (`Metrics.Since`): a round enters them when
its phase succeeded, so they and the report stay level, while the rounds of the report also count a
last one that failed. The counters are words, and all equations between them are equations of words;
as long as a total fits into a word it is the total itself that they give.
-/

namespace TxBatch

variable {S Req R : Type}

/-! ## One run -/

/-- What was entered into the metrics since `before`: so many rounds, and what a report says. -/
structure Metrics.Since (before : Metrics) (count : Nat) (report : Report) (m : Metrics) :
    Prop where
  batches : m.batches = before.batches
  failedBatches : m.failedBatches = before.failedBatches
  batchLatency : m.batchLatency = before.batchLatency
  rounds : m.rounds = before.rounds + count.toUInt64
  roundLatency : m.roundLatency.count = before.roundLatency.count + count.toUInt64
  executions : m.executions = before.executions + report.executions.toUInt64
  aborts : m.aborts = before.aborts + report.aborts.toUInt64
  retries : m.retries = before.retries + report.retries.toUInt64
  staleResults : m.staleResults = before.staleResults

theorem Metrics.since_start (m : Metrics) (world : World S) (requests : List Req) :
    m.Since 0 (Batch.start m world requests : Batch S Req R).report
      (Batch.start m world requests : Batch S Req R).metrics := by
  constructor <;> simp [Batch.start]

theorem Metrics.recordRetries_zero (m : Metrics) : m.recordRetries 0 = m := by
  simp [recordRetries]

def Phase.succeeded (ends : List (Phase.End S Req R)) : Nat :=
  ends.countP fun ended => ended.verdict.isOk

theorem Phase.succeeded_cons (ended : Phase.End S Req R) (ends : List (Phase.End S Req R)) :
    Phase.succeeded (ended :: ends) = Phase.succeeded [ended] + Phase.succeeded ends := by
  rw [← List.singleton_append, Phase.succeeded, List.countP_append]
  rfl

theorem Phase.succeeded_of_ok {ended : Phase.End S Req R} {summary : Summary}
    (h : ended.verdict = .ok summary) : Phase.succeeded [ended] = 1 := by
  simp [succeeded, h, Except.isOk, Except.toBool]

theorem Phase.succeeded_of_error {ended : Phase.End S Req R} {error : BatchError}
    (h : ended.verdict = .error error) : Phase.succeeded [ended] = 0 := by
  simp [succeeded, h, Except.isOk, Except.toBool]

namespace Scheduler

section Run

variable (s : Scheduler S Req R) (env : Environment)

/-- The phases of the rounds from `b` on, in order. -/
def phases : (left : Nat) → Batch S Req R → List (Phase.End S Req R)
  | 0, _ => []
  | left + 1, b =>
    s.phaseAfter env b ::
      match s.round env b with
      | .again b => phases left b
      | .settled _ => []
      | .halted _ _ => []

variable {s env} {b : Batch S Req R} {before : Metrics} {count : Nat}

theorem round_of_phase_error {error : BatchError}
    (h : (s.phaseAfter env b).verdict = .error error) :
    (s.round env b).batch.metrics = b.metrics ∧
      (s.round env b).batch.report = { b.report with rounds := b.report.rounds + 1 } := by
  unfold phaseAfter at h
  unfold round
  simp only [h]
  exact ⟨rfl, rfl⟩

/-- A phase that succeeds is entered, and then what the validation pass reported. -/
theorem round_metrics {summary : Summary} (hok : (s.phaseAfter env b).verdict = .ok summary) :
    (s.round env b).batch.metrics =
      (b.metrics.recordRound summary (env.roundMicros (b.report.rounds + 1))).recordRetries
        (s.passAfter env b).2.length := by
  unfold phaseAfter at hok
  unfold round passAfter phaseAfter
  simp only [hok]
  split
  · rename_i hnone
    rw [List.isEmpty_iff.mp hnone]
    exact (Metrics.recordRetries_zero _).symm
  · split <;> rfl

variable (s env)

theorem since_round (h : before.Since count b.report b.metrics) :
    before.Since (count + Phase.succeeded [s.phaseAfter env b]) (s.round env b).batch.report
      (s.round env b).batch.metrics := by
  cases hverdict : (s.phaseAfter env b).verdict with
  | error error =>
    obtain ⟨hmetrics, hreport⟩ := round_of_phase_error hverdict
    rw [hmetrics, hreport, Phase.succeeded_of_error hverdict]
    exact { h with }
  | ok summary =>
    obtain ⟨hexecutions, haborts, hretries⟩ := round_report hverdict
    have hstale : summary.stale = 0 := (Phase.run_tally _ _ _ _ _ _ hverdict).stale
    rw [round_metrics hverdict, Phase.succeeded_of_ok hverdict]
    constructor <;>
      simp [Metrics.recordRetries, Metrics.recordRound, Histogram.observeMicros, Histogram.observe,
        h.batches, h.failedBatches, h.batchLatency, h.rounds, h.roundLatency, h.executions,
        h.aborts, h.retries, h.staleResults, hexecutions, haborts, hretries, hstale,
        UInt64.add_assoc]

/-- The metrics and the report of a run stay level over its rounds. The phases listed are those
whose calls the log tells of. -/
theorem since_rounds (left : Nat) : ∀ {b : Batch S Req R} {count : Nat},
    before.Since count b.report b.metrics →
      before.Since (count + Phase.succeeded (s.phases env left b)) (s.rounds env left b).2.report
        (s.rounds env left b).2.metrics ∧
      (s.rounds env left b).2.log = ((s.phases env left b).map Phase.End.log).reverse ++ b.log ∧
      (s.rounds env left b).2.report.transactions = b.report.transactions := by
  induction left with
  | zero => exact fun h => ⟨h, rfl, rfl⟩
  | succ left ih =>
    intro b count h
    have hround := since_round s env h
    obtain ⟨-, hlog, -, htransactions⟩ := round_batch s env b
    rw [rounds, phases, Phase.succeeded_cons, ← Nat.add_assoc]
    cases hend : s.round env b with
    | again b' =>
      rw [hend] at hround hlog htransactions
      obtain ⟨hrest, hrestlog, hresttransactions⟩ := ih (b := b') hround
      refine ⟨hrest, hrestlog.trans ?_, hresttransactions.trans htransactions⟩
      rw [show b'.log = _ from hlog, List.map_cons, List.reverse_cons, List.append_assoc]
      rfl
    | settled b' =>
      rw [hend] at hround hlog htransactions
      exact ⟨hround, hlog, htransactions⟩
    | halted reason b' =>
      rw [hend] at hround hlog htransactions
      exact ⟨hround, hlog, htransactions⟩

theorem rounds_of_ok (left : Nat) : ∀ {b : Batch S Req R}, (s.rounds env left b).1 = .ok () →
    (s.rounds env left b).2.report.rounds =
      b.report.rounds + Phase.succeeded (s.phases env left b) := by
  induction left with
  | zero => exact fun hok => by cases hok
  | succ left ih =>
    intro b hok
    obtain ⟨-, -, hrounds, -⟩ := round_batch s env b
    rw [rounds] at hok ⊢
    rw [phases, Phase.succeeded_cons]
    cases hend : s.round env b with
    | again b' =>
      obtain ⟨⟨summary, hverdict⟩, -⟩ := round_again hend
      rw [hend] at hok hrounds
      refine (ih (b := b') hok).trans ?_
      rw [show b'.report.rounds = _ from hrounds, Phase.succeeded_of_ok hverdict, Nat.add_assoc]
    | settled b' =>
      obtain ⟨⟨summary, hverdict⟩, -⟩ := round_settled hend
      rw [hend] at hrounds
      rw [Phase.succeeded_of_ok hverdict]
      exact hrounds
    | halted reason b' =>
      rw [hend] at hok
      cases hok

/-- The phases of a whole run; there are none if the batch is refused or has nothing in it. -/
def runPhases (start : Batch S Req R) : List (Phase.End S Req R) :=
  match s.config.validate with
  | .error _ => []
  | .ok () => if start.tasks.isEmpty then [] else s.phases env counterMax start

theorem execute_since (start : Batch S Req R)
    (hstart : start.metrics.Since 0 start.report start.metrics) (hlog : start.log = []) :
    start.metrics.Since (Phase.succeeded (s.runPhases env start)) (s.execute env start).batch.report
        (s.execute env start).batch.metrics ∧
      (s.execute env start).batch.log = ((s.runPhases env start).map Phase.End.log).reverse ∧
      (s.execute env start).batch.report.transactions = start.report.transactions := by
  unfold execute runPhases
  cases s.config.validate with
  | error fault => exact ⟨hstart, hlog, rfl⟩
  | ok =>
    dsimp only
    split
    · exact ⟨hstart, hlog, rfl⟩
    · have h := since_rounds s env counterMax hstart
      rw [hlog, List.append_nil, Nat.zero_add] at h
      split <;> rename_i hrounds <;> rw [hrounds] at h <;> exact h

variable {s env}

theorem execute_of_ok {start : Batch S Req R} {rs : List R} (hstart : start.report.rounds = 0)
    (hok : (s.execute env start).result = .ok rs) :
    (s.execute env start).batch.report.rounds = Phase.succeeded (s.runPhases env start) := by
  unfold execute at hok ⊢
  unfold runPhases
  cases hvalid : s.config.validate with
  | error fault => simp only [hvalid] at hok; cases hok
  | ok =>
    simp only [hvalid] at hok ⊢
    split at hok
    · rename_i hempty
      rw [if_pos hempty, if_pos hempty]
      exact hstart
    · rename_i hempty
      rw [if_neg hempty, if_neg hempty]
      split at hok
      · cases hok
      · rename_i b hrounds
        have h := rounds_of_ok s env counterMax (b := start) (by rw [hrounds])
        rw [hstart, Nat.zero_add, hrounds] at h
        exact h

/-- A run that returns is entered among the batches as it ended. -/
theorem process_eq_record {metrics : Metrics} {world : World S} {requests : List Req}
    (hreturns : (s.process env metrics world requests).result ≠ .error .crashed) :
    let ended := s.execute env (Batch.start metrics world requests)
    s.process env metrics world requests =
      { ended with batch := { ended.batch with
          metrics := ended.batch.metrics.recordBatch ended.result.isOk env.batchMicros } } := by
  unfold process at hreturns ⊢
  simp only at hreturns ⊢
  cases hresult : (s.execute env (Batch.start metrics world requests)).result with
  | ok rs => rfl
  | error reason =>
    cases reason with
    | failed error => rfl
    | crashed => exact absurd (by simp only [hresult]) hreturns

end Run

end Scheduler

/-! ## The uses of a scheduler -/

inductive Use (S Req : Type) where
  | batch (env : Environment) (world : World S) (requests : List Req)
  | ordered (world : World S) (requests : List Req)

/-- A batch call, with the metrics that it found. -/
structure BatchCall (S Req : Type) where
  metrics : Metrics
  env : Environment
  world : World S
  requests : List Req

/-- What was entered between two states of the metrics: batches, batches among them that failed,
rounds whose phases succeeded, and what the reports of the batches add up to. -/
structure Metrics.Covers (before after : Metrics) (batchCount failedCount roundCount : Nat)
    (reports : List Report) : Prop where
  batches : after.batches = before.batches + batchCount.toUInt64
  batchLatency : after.batchLatency.count = before.batchLatency.count + batchCount.toUInt64
  failedBatches : after.failedBatches = before.failedBatches + failedCount.toUInt64
  rounds : after.rounds = before.rounds + roundCount.toUInt64
  roundLatency : after.roundLatency.count = before.roundLatency.count + roundCount.toUInt64
  executions : after.executions = before.executions + (reports.map Report.executions).sum.toUInt64
  aborts : after.aborts = before.aborts + (reports.map Report.aborts).sum.toUInt64
  retries : after.retries = before.retries + (reports.map Report.retries).sum.toUInt64
  staleResults : after.staleResults = before.staleResults

namespace Metrics.Covers

theorem refl (m : Metrics) : m.Covers m 0 0 0 [] := by
  constructor <;> simp

theorem trans {m m' m'' : Metrics} {b b' f f' r r' : Nat} {reports reports' : List Report}
    (h : m.Covers m' b f r reports) (h' : m'.Covers m'' b' f' r' reports') :
    m.Covers m'' (b + b') (f + f') (r + r') (reports ++ reports') := by
  constructor <;>
    simp [h.batches, h'.batches, h.batchLatency, h'.batchLatency, h.failedBatches,
      h'.failedBatches, h.rounds, h'.rounds, h.roundLatency, h'.roundLatency, h.executions,
      h'.executions, h.aborts, h'.aborts, h.retries, h'.retries, h.staleResults, h'.staleResults,
      UInt64.add_assoc]

end Metrics.Covers

/-- What a report says was entered between two readings of the metrics. -/
structure Metrics.Snapshot.Gained (before after : Metrics.Snapshot) (report : Report) : Prop where
  rounds : after.rounds = before.rounds + report.rounds.toUInt64
  executions : after.executions = before.executions + report.executions.toUInt64
  aborts : after.aborts = before.aborts + report.aborts.toUInt64
  retries : after.retries = before.retries + report.retries.toUInt64

def BatchEnd.hasFailed (ended : BatchEnd S Req R) : Bool := !ended.result.isOk

namespace Scheduler

variable (s : Scheduler S Req R)

/-- The answer to a use of the scheduler, and the metrics behind it. A sequential run has no
metrics to enter anything into. -/
def serve (m : Metrics) : Use S Req → Except Halt (List R) × Metrics
  | .batch env world requests =>
    let ended := s.process env m world requests
    (ended.result, ended.batch.metrics)
  | .ordered world requests => ((s.sequential world requests).result, m)

def metricsAfter (m : Metrics) (uses : List (Use S Req)) : Metrics :=
  uses.foldl (fun m use => (s.serve m use).2) m

def calls (m : Metrics) : List (Use S Req) → List (BatchCall S Req)
  | [] => []
  | .batch env world requests :: rest =>
    ⟨m, env, world, requests⟩ :: calls (s.serve m (.batch env world requests)).2 rest
  | .ordered world requests :: rest => calls (s.serve m (.ordered world requests)).2 rest

def ended (call : BatchCall S Req) : BatchEnd S Req R :=
  s.process call.env call.metrics call.world call.requests

def callPhases (call : BatchCall S Req) : List (Phase.End S Req R) :=
  s.runPhases call.env (Batch.start call.metrics call.world call.requests)

variable {s}

theorem ended_covers (call : BatchCall S Req) (hreturns : (s.ended call).result ≠ .error .crashed) :
    call.metrics.Covers (s.ended call).batch.metrics 1 (if (s.ended call).hasFailed then 1 else 0)
        (Phase.succeeded (s.callPhases call)) [(s.ended call).batch.report] ∧
      (s.ended call).batch.log = ((s.callPhases call).map Phase.End.log).reverse := by
  have hrecord := process_eq_record hreturns
  obtain ⟨hsince, hlog, -⟩ := execute_since s call.env
    (Batch.start call.metrics call.world call.requests) (Metrics.since_start ..) rfl
  rw [BatchEnd.hasFailed, ended, hrecord]
  refine ⟨⟨?_, ?_, ?_, hsince.rounds, hsince.roundLatency, hsince.executions, hsince.aborts,
    hsince.retries, hsince.staleResults⟩, hlog⟩
  · exact congrArg (· + 1) hsince.batches
  · exact congrArg (·.count + 1) hsince.batchLatency
  · refine (ite_congr rfl (fun _ => hsince.failedBatches)
      fun _ => congrArg (· + 1) hsince.failedBatches).trans ?_
    cases (s.execute call.env _).result.isOk <;> simp [Batch.start]

theorem metricsAfter_covers (uses : List (Use S Req)) : ∀ {m : Metrics},
    (∀ call ∈ s.calls m uses, (s.ended call).result ≠ .error .crashed) →
      m.Covers (s.metricsAfter m uses) (s.calls m uses).length
        ((s.calls m uses).countP fun call => (s.ended call).hasFailed)
        ((s.calls m uses).map fun call => Phase.succeeded (s.callPhases call)).sum
        ((s.calls m uses).map fun call => (s.ended call).batch.report) := by
  induction uses with
  | nil => exact fun _ => Metrics.Covers.refl _
  | cons use rest ih =>
    intro m hreturns
    cases use with
    | batch env world requests =>
      have hfirst := (ended_covers ⟨m, env, world, requests⟩ (hreturns _ List.mem_cons_self)).1
      have hrest := ih fun call hcall => hreturns call (List.mem_cons_of_mem _ hcall)
      have hboth := hfirst.trans hrest
      rw [calls, List.length_cons, List.countP_cons, List.map_cons, List.sum_cons, Nat.add_comm _ 1,
        Nat.add_comm (List.countP _ _)]
      exact hboth
    | ordered world requests => exact ih hreturns

theorem ended_gained {call : BatchCall S Req} {rs : List R} (hok : (s.ended call).result = .ok rs) :
    call.metrics.snapshot.Gained (s.ended call).batch.metrics.snapshot (s.ended call).batch.report ∧
      (s.ended call).batch.report.transactions = call.requests.length := by
  have hreturns : (s.ended call).result ≠ .error .crashed := fun hcrashed => by
    cases hok.symm.trans hcrashed
  have hrecord := process_eq_record hreturns
  obtain ⟨hsince, -, htransactions⟩ := execute_since s call.env
    (Batch.start call.metrics call.world call.requests) (Metrics.since_start ..) rfl
  rw [ended, hrecord] at hok ⊢
  have hrounds := execute_of_ok rfl hok
  refine ⟨⟨?_, hsince.executions, hsince.aborts, hsince.retries⟩, htransactions⟩
  exact hsince.rounds.trans (by rw [← hrounds]; rfl)

/-- In the report of a batch that is answered, the executions and aborts pay for the transactions
and the retries, and the retries are the incarnations that the tasks end with. -/
theorem ended_balanced (hv : s.validator.Judges) {call : BatchCall S Req} {rs : List R}
    (hok : (s.ended call).result = .ok rs) :
    let report := (s.ended call).batch.report
    report.executions + report.aborts = call.requests.length + report.retries ∧
      report.retries = incarnations (s.ended call).batch.tasks := by
  intro report
  by_cases hne : call.requests = []
  · have hagrees := process_of_no_rounds s call.env call.metrics call.world call.requests (.inr hne)
    have hnothing : report = {} := hagrees.report.trans (by rw [hne]; rfl)
    have htasks : (s.ended call).batch.tasks = [] := hagrees.tasks.trans (by rw [hne]; rfl)
    rw [hnothing, htasks, hne]
    exact ⟨rfl, rfl⟩
  · obtain ⟨last, b, hlast, hagrees, -⟩ := settled_of_process_ok hne hok
    cases last with
    | zero => cases hlast
    | succ number =>
      obtain ⟨c, hc, hround⟩ := roundEnd?_succ hlast
      obtain ⟨⟨summary, hverdict⟩, -, htasks, hretries⟩ := round_settled hround
      have hbalance := (balanced_of_again hv hc).round hverdict
      have hclimbed := (climbed_of_again hv hc).retries
      rw [hround] at hbalance
      have hreport : report = b.report := hagrees.report
      rw [hreport, show (s.ended call).batch.tasks = b.tasks from hagrees.tasks, hretries, htasks,
        incarnations_passAfter hv]
      exact ⟨hbalance, hclimbed⟩

/-- The books of a scheduler. Use it for batches and sequential runs in any order, so that each
batch call returns, with responses or an error. Then what is read off its metrics counts the batch
calls, those that gave an error, and the phases that succeeded in them, each histogram has an
observation for each of its events, the executions, aborts and retries are what the reports of all
batch calls add up to, and no result was stale. Each batch that is answered raises the rounds,
executions, aborts and retries by what its report says; there the executions and the aborts pay for
the transactions and the retries, and the retries are the incarnations that the tasks end with. A
sequential run enters nothing. -/
theorem metrics_account_for_calls (hs : s.validator.BuiltIn) (uses : List (Use S Req))
    (hreturns : ∀ call ∈ s.calls {} uses, (s.ended call).result ≠ .error .crashed) :
    let calls := s.calls {} uses
    let books := (s.metricsAfter {} uses).snapshot
    let succeeded := (calls.map fun call => Phase.succeeded (s.callPhases call)).sum
    let reports := calls.map fun call => (s.ended call).batch.report
    (books.batches = calls.length.toUInt64 ∧ books.batchLatency.count = calls.length.toUInt64 ∧
      books.failedBatches = (calls.countP fun call => (s.ended call).hasFailed).toUInt64 ∧
      books.rounds = succeeded.toUInt64 ∧ books.roundLatency.count = succeeded.toUInt64 ∧
      books.executions = (reports.map Report.executions).sum.toUInt64 ∧
      books.aborts = (reports.map Report.aborts).sum.toUInt64 ∧
      books.retries = (reports.map Report.retries).sum.toUInt64 ∧ books.staleResults = 0) ∧
    (∀ call ∈ calls,
      (s.ended call).batch.log = ((s.callPhases call).map Phase.End.log).reverse ∧
      ∀ rs, (s.ended call).result = .ok rs →
        let report := (s.ended call).batch.report
        call.metrics.snapshot.Gained (s.ended call).batch.metrics.snapshot report ∧
          report.transactions = call.requests.length ∧
          report.executions + report.aborts = report.transactions + report.retries ∧
          report.retries = incarnations (s.ended call).batch.tasks) ∧
    ∀ m world requests, (s.serve m (.ordered world requests)).2 = m := by
  intro calls books succeeded reports
  have hcovers := metricsAfter_covers uses hreturns
  refine ⟨?_, fun call hcall => ⟨(ended_covers call (hreturns call hcall)).2, fun rs hok => ?_⟩,
    fun _ _ _ => rfl⟩
  · have hzero : ∀ n : UInt64, 0 + n = n := UInt64.zero_add
    exact ⟨hcovers.batches.trans (hzero _), hcovers.batchLatency.trans (hzero _),
      hcovers.failedBatches.trans (hzero _), hcovers.rounds.trans (hzero _),
      hcovers.roundLatency.trans (hzero _), hcovers.executions.trans (hzero _),
      hcovers.aborts.trans (hzero _), hcovers.retries.trans (hzero _), hcovers.staleResults⟩
  · intro report
    obtain ⟨hgained, htransactions⟩ := ended_gained hok
    obtain ⟨hbalance, hretries⟩ := ended_balanced hs.judges hok
    exact ⟨hgained, htransactions, htransactions.symm ▸ hbalance, hretries⟩

/-- Fails for zero. Any other number is given back by the second attempt. -/
def hesitate (n : Nat) (version : Version) : CallEnd Nat :=
  if n = 0 then .failed "zero"
  else if version.incarnation = 0 then .aborted .requested
  else .returned n

def hesitant : Scheduler Unit Nat Nat where
  executor n version := .finish (hesitate n version)
  validator := Validator.minimal

/-- A batch that is answered, a sequential run, a batch that fails, and one with nothing in it. -/
def mixedUses : List (Use Unit Nat) :=
  [.batch {} ⟨(), false⟩ [1, 2], .ordered ⟨(), false⟩ [3], .batch {} ⟨(), false⟩ [0],
    .batch {} ⟨(), false⟩ []]

theorem mixedUses_accounted :
    let books := (hesitant.metricsAfter {} mixedUses).snapshot
    books.batches = 3 ∧ books.batchLatency.count = 3 ∧ books.failedBatches = 1 ∧
      books.rounds = 2 ∧ books.roundLatency.count = 2 ∧ books.executions = 2 ∧ books.aborts = 2 ∧
      books.retries = 2 ∧ books.staleResults = 0 := by
  have hreturns : ∀ call ∈ hesitant.calls {} mixedUses,
      (hesitant.ended call).result ≠ .error .crashed := by decide +kernel
  have hfailed : ((hesitant.calls {} mixedUses).countP
      fun call => (hesitant.ended call).hasFailed) = 1 := by decide +kernel
  have hsucceeded : ((hesitant.calls {} mixedUses).map
      fun call => Phase.succeeded (hesitant.callPhases call)).sum = 2 := by decide +kernel
  have hreports : ((hesitant.calls {} mixedUses).map fun call => (hesitant.ended call).batch.report) =
      [⟨2, 2, 2, 2, 2⟩, ⟨1, 1, 0, 0, 0⟩, {}] := by decide +kernel
  obtain ⟨hbatches, hbatchLatency, hfailedBatches, hrounds, hroundLatency, hexecutions, haborts,
    hretries, hstale⟩ := (metrics_account_for_calls (s := hesitant) .minimal mixedUses hreturns).1
  rw [hfailed] at hfailedBatches
  rw [hsucceeded] at hrounds hroundLatency
  rw [hreports] at hexecutions haborts hretries
  exact ⟨hbatches, hbatchLatency, hfailedBatches, hrounds, hroundLatency, hexecutions, haborts,
    hretries, hstale⟩

end Scheduler

end TxBatch
