import TxBatch.Scheduler

/-! # The sequential run

The reference that a batch run must agree with: the requests one after the other, each retried on
the spot when its execution aborts, under the same ceiling. Nothing is validated and no metric
changes.
-/

namespace TxBatch

structure SequentialEnd (S Req R A : Type) where
  result : Except Halt A
  world : World S
  /-- What the calls did, newest first. -/
  log : List (Event Req R)

namespace Scheduler

variable {S Req R : Type}

/-- Execute one request at `incarnation`, and at the next ones while it aborts. `left` counts the
incarnations that the counter has still room for. -/
def attempt (s : Scheduler S Req R) (index : Nat) (request : Req) (left incarnation : Nat)
    (world : World S) (log : List (Event Req R)) : SequentialEnd S Req R R :=
  if world.cancelled then ⟨.error (.failed .cancelled), world, log⟩
  else
    let job : Job Req := ⟨index, ⟨index, incarnation⟩, request⟩
    let (result, world) := (s.executor request job.version).run world
    let log := .ended job result :: .started job :: log
    match result with
    | .returned response => ⟨.ok response, world, log⟩
    | .failed reason => ⟨.error (.failed (.executionFailed index incarnation reason)), world, log⟩
    | .crashed _ => ⟨.error .crashed, world, log⟩
    | .aborted _ =>
      match left with
      | 0 => ⟨.error .crashed, world, log⟩
      | left + 1 =>
        match s.config.exceeded? (incarnation + 1) with
        | some limit =>
          ⟨.error (.failed (.incarnationLimitExceeded index (incarnation + 1) limit)), world, log⟩
        | none => attempt s index request left (incarnation + 1) world log

def sequentialFrom (s : Scheduler S Req R) (index : Nat) (world : World S)
    (log : List (Event Req R)) : List Req → SequentialEnd S Req R (List R)
  | [] => ⟨.ok [], world, log⟩
  | request :: rest =>
    let first := s.attempt index request counterMax 0 world log
    match first.result with
    | .error reason => ⟨.error reason, first.world, first.log⟩
    | .ok response =>
      let others := sequentialFrom s (index + 1) first.world first.log rest
      { others with result := others.result.map (response :: ·) }

def sequential (s : Scheduler S Req R) (world : World S) (requests : List Req) :
    SequentialEnd S Req R (List R) :=
  match s.config.validate with
  | .error fault => ⟨.error (.failed (.invalidConfig fault)), world, []⟩
  | .ok () => s.sequentialFrom 0 world [] requests

end Scheduler

end TxBatch
