import TxBatch.Proofs.Phase.Image
import TxBatch.Proofs.Rounds

/-!
# A run seen through its state

Two schedulers that differ only in what their calls do to a hidden part of the state run a batch
alike: the second ends with the tasks, the report, the log and the result of the first, and with
the image of its state (`Scheduler.process_map`).
-/

namespace TxBatch

variable {S S' Req R : Type} {f : S → S'}

def Batch.map (f : S → S') (b : Batch S Req R) : Batch S' Req R :=
  ⟨b.world.map f, b.tasks, b.report, b.metrics, b.log⟩

def RoundEnd.map (f : S → S') : RoundEnd S Req R → RoundEnd S' Req R
  | .again b => .again (b.map f)
  | .settled b => .settled (b.map f)
  | .halted reason b => .halted reason (b.map f)

def BatchEnd.map (f : S → S') (ended : BatchEnd S Req R) : BatchEnd S' Req R :=
  ⟨ended.result, ended.batch.map f⟩

namespace Scheduler

/-- The second scheduler's calls are images of the first's; the rest is the same. -/
structure Maps (f : S → S') (s : Scheduler S Req R) (s' : Scheduler S' Req R) : Prop where
  executor : ∀ request version, Call.Maps f (s.executor request version)
    (s'.executor request version)
  validator : s'.validator = s.validator
  config : s'.config = s.config

variable {s : Scheduler S Req R} {s' : Scheduler S' Req R} (h : Maps f s s')

include h

theorem round_map (env : Environment) (b : Batch S Req R) :
    s'.round env (b.map f) = (s.round env b).map f := by
  have hphase := Phase.run_map h.executor s.config.workers (env.schedule (b.report.rounds + 1))
    (b.report.rounds + 1) (env.enter (b.report.rounds + 1) b.world) b.tasks
  have henter : env.enter (b.report.rounds + 1) (b.world.map f) =
    (env.enter (b.report.rounds + 1) b.world).map f := rfl
  simp only [round, Batch.map, h.validator, h.config, henter, hphase]
  cases hverdict : (Phase.run s.executor s.config.workers (env.schedule (b.report.rounds + 1))
    (b.report.rounds + 1) (env.enter (b.report.rounds + 1) b.world) b.tasks).verdict with
  | error error => rfl
  | ok summary =>
      dsimp only
      split
      · rfl
      · split <;> simp_all [RoundEnd.map, Batch.map]

theorem roundEnd?_map (env : Environment) (start : Batch S Req R) (number : Nat) :
    s'.roundEnd? env (start.map f) number =
      (s.roundEnd? env start number).map (RoundEnd.map f) := by
  induction number with
  | zero => rfl
  | succ number ih =>
      simp only [roundEnd?, ih]
      rcases s.roundEnd? env start number with _ | ⟨b⟩ | ⟨b⟩ | ⟨reason, b⟩
      · rfl
      · exact congrArg some (round_map h env b)
      · rfl
      · rfl

theorem rounds_map (env : Environment) (left : Nat) : ∀ b : Batch S Req R,
    s'.rounds env left (b.map f) = ((s.rounds env left b).1, (s.rounds env left b).2.map f) := by
  induction left with
  | zero => exact fun b => rfl
  | succ left ih =>
      intro b
      simp only [rounds, round_map h]
      cases s.round env b with
      | again b' => exact ih b'
      | settled b' => rfl
      | halted reason b' => rfl

/-- **A run over the image of the state is the image of the run.** -/
theorem process_map (env : Environment) (metrics : Metrics) (world : World S)
    (requests : List Req) :
    s'.process env metrics (world.map f) requests =
      (s.process env metrics world requests).map f := by
  have hexecute : s'.execute env (Batch.start metrics (world.map f) requests) =
      (s.execute env (Batch.start metrics world requests)).map f := by
    have hstart : (Batch.start metrics (world.map f) requests : Batch S' Req R) =
        (Batch.start metrics world requests).map f := rfl
    have htasks : ((Batch.start metrics world requests : Batch S Req R).map f).tasks =
        (Batch.start metrics world requests : Batch S Req R).tasks := rfl
    rw [hstart]
    simp only [execute, h.config, rounds_map h, htasks]
    split
    · rfl
    · split
      · rfl
      · rcases s.rounds env counterMax (Batch.start metrics world requests) with ⟨result, b⟩
        cases result <;> rfl
  simp only [process, hexecute, BatchEnd.map]
  split <;> rfl

end Scheduler

end TxBatch
