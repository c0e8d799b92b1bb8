import TxBatch.Proofs.SerialEquivalence
import TxBatch.Runner

/-!
# The two runs match

A transfer that answers has read and written both accounts and says so, whatever it finds in them
(`Ledger.transfer_keeps`). So a batch of transfers that is answered is answered by the sequential
run as well, with the same receipts and the same balances (`Comparison.parallel_sequential`), the
summary of the two says that they match (`Runner.summarize_of_parallel`), and there is no other
summary that the program could print (`Runner.matches_of_summarize`).
-/

namespace TxBatch

namespace Ledger

/-- What a transfer keeps to, however its call goes: a receipt names the keys that were read and
those that were written, the latter are those of the two accounts, and without a receipt nothing was
written. -/
structure Keeps (t : Transfer) (entries : List (Journal.Entry UInt64)) (result : CallEnd Receipt) :
    Prop where
  reads : ∀ {receipt}, result = .returned receipt →
    ∀ key, (∃ found, .read key found ∈ entries) ↔ key ∈ receipt.access.reads
  writes : ∀ {receipt}, result = .returned receipt →
    ∀ key, Journal.Writes key entries ↔ key ∈ receipt.access.writes
  accounts : ∀ {receipt}, result = .returned receipt →
    ∀ key, key ∈ receipt.access.writes ↔ key = accountKey t.source ∨ key = accountKey t.target
  unanswered : result.outcome? = none → ∀ key, ¬Journal.Writes key entries

variable {accounts : UInt32} {overflow : String} {t : Transfer}

theorem transfer_keeps {entries : List (Journal.Entry UInt64)} {result : CallEnd Receipt}
    (h : (transfer accounts overflow t).Path entries result) : Keeps t entries result := by
  have hsettled : ∀ {receipt}, result = .returned receipt →
      receipt.access = access t ∧
        (∀ {key}, (∃ found, .read key found ∈ entries) ↔ key ∈ (access t).reads) ∧
        ∀ {key}, Journal.Writes key entries ↔ key ∈ (access t).writes := by
    rintro receipt rfl
    exact (transfer_path h).touched
  refine {
    reads := fun hresult key => ?_
    writes := fun hresult key => ?_
    accounts := fun hresult key => ?_
    unanswered := fun hnone key => ?_ }
  · obtain ⟨haccess, hreads, -⟩ := hsettled hresult
    rw [haccess, hreads]
  · obtain ⟨haccess, -, hwrites⟩ := hsettled hresult
    rw [haccess, hwrites]
  · rw [(hsettled hresult).1, mem_writes_access]
  · rintro ⟨value, hmem⟩
    cases transfer_path h with
    | unknown => cases hmem
    | overflow => simp at hmem
    | settled => cases hnone

/-- Whatever a transfer of known accounts finds, it answers if the target's balance does not
overflow. -/
theorem transfer_answers (hknown : t.source < accounts ∧ t.target < accounts)
    {source target : Reading UInt64} {settled : Settlement}
    (hsettle : settle? t (balance source) (balance target) = some settled) :
    (transfer accounts overflow t).Path
      [.read (accountKey t.source) source, .read (accountKey t.target) target,
        .write (accountKey t.target) settled.target, .write (accountKey t.source) settled.source]
      (.returned ⟨settled.success, settled.source, access t⟩) := by
  rw [transfer, if_pos hknown]
  refine .read source (.read target ?_)
  simp only [hsettle]
  exact .write (.write (.finish _))

end Ledger

namespace Comparison

theorem agree?_eq_some_true {parallel : Parallel} {sequential : Ordered} :
    agree? parallel sequential = some true ↔
      ∃ receipts, parallel.result = .ok receipts ∧ sequential.result = .ok receipts ∧
        parallel.batch.world.state.snapshot = sequential.world.state.snapshot := by
  unfold agree? balances
  cases parallel.result with
  | error reason => simp
  | ok concurrent =>
    cases sequential.result with
    | error reason => simp
    | ok ordered =>
      have hsame : concurrent = ordered ↔ ordered = concurrent := eq_comm
      simp [hsame]

variable {c : Comparison} {env : Environment} {receipts : List Receipt}

theorem parallel_sequential (h : (c.parallel env).result = .ok receipts) :
    c.sequential.result = .ok receipts ∧
      (c.parallel env).batch.world.state.snapshot = c.sequential.world.state.snapshot := by
  have hsteady : ∀ (t : Transfer) (_ : Nat), (Ledger.transfer c.accounts c.overflow t).Steady :=
    fun t _ => Ledger.transfer_steady c.accounts c.overflow t
  obtain ⟨entries, hserial, hsnapshot⟩ := Scheduler.process_serial (s := c.scheduler) rfl hsteady
    rfl (Ledger.genesis c.accounts c.initialBalance) env {} h
  obtain ⟨hresult, hworld⟩ := Scheduler.sequential_of_serial (s := c.scheduler) rfl
    (fun t index => (hsteady t index).onlyValues) (Scheduler.valid_of_process_ok h) hserial
  refine ⟨hresult, ?_⟩
  show (c.parallel env).batch.world.state.snapshot = c.sequential.world.state.snapshot
  exact hsnapshot.trans (congrArg Store.snapshot hworld).symm

theorem parallel_agrees (h : (c.parallel env).result = .ok receipts) :
    agree? (c.parallel env) c.sequential = some true :=
  agree?_eq_some_true.mpr ⟨receipts, h, parallel_sequential h⟩

end Comparison

namespace Runner

variable {env : Environment} {line : CommandLine} {c : Comparison} {receipts : List Receipt}
  {summary : Summary}

theorem summarize_of_parallel (line : CommandLine) (h : (c.parallel env).result = .ok receipts) :
    ∃ summary, summarize line c (c.parallel env) c.sequential = .ok summary ∧
      summary.matchesSequential = true ∧
      summary.successfulTransfers = receipts.countP fun receipt => receipt.success := by
  have hresult := (Comparison.parallel_sequential h).1
  refine ⟨_, by simp only [summarize, h, hresult]; rfl, ?_, rfl⟩
  simp [Comparison.parallel_agrees h]

theorem matches_of_summarize
    (h : summarize line c (c.parallel env) c.sequential = .ok summary) :
    summary.matchesSequential = true := by
  cases hparallel : (c.parallel env).result with
  | error reason =>
      simp only [summarize, hparallel] at h
      cases h
  | ok receipts =>
      obtain ⟨summary', hsummary, hmatches, -⟩ := summarize_of_parallel line hparallel
      obtain rfl := Except.ok.inj (h.symm.trans hsummary)
      exact hmatches

theorem run_of_plan {args : List String} {files : String → FileContent} {overflow : String}
    (hplan : plan args files overflow = .run line c)
    (hsummary : summarize line c (c.parallel env) c.sequential = .ok summary)
    (hmatches : summary.matchesSequential = true) :
    run env args files overflow = ⟨0, some summary⟩ := by
  simp [run, hplan, hsummary, exitCode, hmatches, Except.toOption]

/-- A summary is printed about two runs that match only, and then the program succeeds. -/
theorem matches_of_run {args : List String} {files : String → FileContent} {overflow : String}
    (h : (run env args files overflow).summary = some summary) :
    summary.matchesSequential = true ∧ (run env args files overflow).code = 0 := by
  cases hplan : plan args files overflow with
  | refused refusal =>
      simp only [run, hplan] at h
      cases h
  | misconfigured fault =>
      simp only [run, hplan] at h
      cases h
  | run line c =>
      cases hsummary : summarize line c (c.parallel env) c.sequential with
      | error reason =>
          simp only [run, hplan, hsummary] at h
          cases h
      | ok summary' =>
          have hmatches := matches_of_summarize hsummary
          have hrun := run_of_plan hplan hsummary hmatches
          rw [hrun] at h ⊢
          obtain rfl := Option.some.inj h
          exact ⟨hmatches, rfl⟩

/-- **The program never finds the two runs apart.** A transfer touches what its receipt names, and
writes its two accounts, whatever it finds in them and whether or not it moves anything. If a batch
of transfers is answered, under whatever schedule, the sequential run over a fresh ledger gives the
same receipts and leaves the same balances, which is what it takes to match. So the program reports
that the runs match and how many transfers succeed in sequence, and it succeeds; and whatever
summary it prints is one of runs that match. -/
theorem never_diverges :
    (∀ (accounts : UInt32) (overflow : String) (t : Transfer),
      (∀ {entries result}, (Ledger.transfer accounts overflow t).Path entries result →
        Ledger.Keeps t entries result) ∧
      ∀ source target : Reading UInt64, t.source < accounts ∧ t.target < accounts →
        (Ledger.settle? t (Ledger.balance source) (Ledger.balance target)).isSome →
        ∃ entries receipt, (Ledger.transfer accounts overflow t).Path entries (.returned receipt) ∧
          .read (Ledger.accountKey t.source) source ∈ entries ∧
          .read (Ledger.accountKey t.target) target ∈ entries) ∧
    (∀ (c : Comparison) (env : Environment) {receipts : List Receipt},
      (c.parallel env).result = .ok receipts →
        c.sequential.result = .ok receipts ∧
        (c.parallel env).batch.world.state.snapshot = c.sequential.world.state.snapshot ∧
        Comparison.agree? (c.parallel env) c.sequential = some true) ∧
    (∀ (parallel : Comparison.Parallel) (sequential : Comparison.Ordered),
      Comparison.agree? parallel sequential = some true ↔
        ∃ receipts, parallel.result = .ok receipts ∧ sequential.result = .ok receipts ∧
          parallel.batch.world.state.snapshot = sequential.world.state.snapshot) ∧
    ∀ (env : Environment) (args : List String) (files : String → FileContent) (overflow : String),
      (∀ {line c receipts}, plan args files overflow = .run line c →
        (c.parallel env).result = .ok receipts →
        ∃ summary ordered, run env args files overflow = ⟨0, some summary⟩ ∧
          c.sequential.result = .ok ordered ∧
          ∀ parallelMicros sequentialMicros, ∃ members,
            summary.output parallelMicros sequentialMicros = .record members ∧
            ("matches_sequential", .bool true) ∈ members ∧
            ("successful_transfers", .word (ordered.countP fun r => r.success)) ∈ members) ∧
      ∀ {summary}, (run env args files overflow).summary = some summary →
        summary.matchesSequential = true ∧ (run env args files overflow).code = 0 := by
  refine ⟨fun accounts overflow t =>
      ⟨Ledger.transfer_keeps, fun source target hknown hsettle => ?_⟩,
    fun c env receipts h => ?_, fun _ _ => Comparison.agree?_eq_some_true,
    fun env args files overflow => ⟨fun {line c receipts} hplan h => ?_, matches_of_run⟩⟩
  · obtain ⟨settled, hsettled⟩ := Option.isSome_iff_exists.mp hsettle
    exact ⟨_, _, Ledger.transfer_answers hknown hsettled, by simp, by simp⟩
  · obtain ⟨hresult, hsnapshot⟩ := Comparison.parallel_sequential h
    exact ⟨hresult, hsnapshot, Comparison.parallel_agrees h⟩
  · obtain ⟨summary, hsummary, hmatches, hsuccesses⟩ := summarize_of_parallel line h
    refine ⟨summary, receipts, run_of_plan hplan hsummary hmatches,
      (Comparison.parallel_sequential h).1, fun _ _ => ⟨_, rfl, ?_, ?_⟩⟩
    · rw [← hmatches]
      simp
    · rw [← hsuccesses]
      simp

/-- Two transfers between two accounts. -/
def rivals : List String := ["--transactions", "2", "--accounts", "2", "--workers", "2"]

/-- In the first round the second transfer is through before the first one writes. -/
def overtaking : Environment where
  schedule := fun number =>
    if number = 1 then [.take, .take, .advance 0] ++ List.replicate 5 (.advance 1) else []

theorem rivals_never_diverge :
    ∃ line c receipts summary ordered entries receipt,
      plan rivals (fun _ => .missing) "" = .run line c ∧
      (c.parallel overtaking).result = .ok receipts ∧
      c.sequential.result = .ok receipts ∧
      run overtaking rivals (fun _ => .missing) "" = ⟨0, some summary⟩ ∧
      c.sequential.result = .ok ordered ∧ summary.matchesSequential = true ∧
      (∃ members, summary.output 0 0 = .record members ∧
        ("successful_transfers", .word (ordered.countP fun r => r.success)) ∈ members) ∧
      (Ledger.transfer 2 "" ⟨0, 1, 7⟩).Path entries (.returned receipt) ∧
      Ledger.Keeps ⟨0, 1, 7⟩ entries (.returned receipt) := by
  obtain ⟨htransfers, hruns, -, hprogram⟩ := never_diverges
  let line : CommandLine := { transactions := 2, accounts := 2, workers := some 2 }
  let c : Comparison := comparison line { workers := 2 } ""
  have hplan : plan rivals (fun _ => .missing) "" = .run line c := rfl
  have hanswered : (c.parallel overtaking).result.toOption.isSome = true := by decide +kernel
  obtain ⟨receipts, hreceipts⟩ := Option.isSome_iff_exists.mp hanswered
  have hresult : (c.parallel overtaking).result = .ok receipts := by
    cases h : (c.parallel overtaking).result with
    | error reason => simp [h, Except.toOption] at hreceipts
    | ok rs => simpa [h, Except.toOption] using hreceipts
  obtain ⟨entries, receipt, hpath, -, -⟩ := (htransfers 2 "" ⟨0, 1, 7⟩).2 (.base 10) .missing
    (by decide) (by decide)
  obtain ⟨hrun, hprinted⟩ := hprogram overtaking rivals (fun _ => .missing) ""
  obtain ⟨summary, ordered, hended, hordered, hmembers⟩ := hrun hplan hresult
  obtain ⟨members, hrecord, -, hsuccessful⟩ := hmembers 0 0
  exact ⟨line, c, receipts, summary, ordered, entries, receipt, hplan, hresult,
    (hruns c overtaking hresult).1, hended, hordered, (hprinted (congrArg End.summary hended)).1,
    ⟨members, hrecord, hsuccessful⟩, hpath, (htransfers 2 "" ⟨0, 1, 7⟩).1 hpath⟩

end Runner

end TxBatch
