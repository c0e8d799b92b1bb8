import Mathlib.Data.List.Nodup
import TxBatch.Proofs.Lifecycle

/-!
# One outcome an incarnation

Results of a task come back late, twice, and for incarnations that it has not reached. What it makes
of them is told by the moves it accepted (`Task.accepted`): the outcomes among these carry the
incarnations 0, 1, 2 and so on, each once, up to the last one that had its outcome
(`Task.outcomes`). So an outcome that comes a second time finds its incarnation taken.

The state of a task tells that number, and how often it was aborted, without the history; that the
two agree is `Task.Logged`, which each accepted move keeps.
-/

namespace TxBatch

namespace Task

variable {Req R : Type} {t u : Task Req R} {m : Move R} {log : List (Move R)}

namespace Move

/-- The incarnation that the move reports an outcome of. -/
def outcomeOf? : Move R → Option Nat
  | .execution incarnation _ _ => some incarnation
  | .abort incarnation _ => some incarnation
  | .validate => none
  | .reject _ => none
  | .retry => none

def isExecution : Move R → Bool
  | .execution .. => true
  | _ => false

/-- Whether the move sends the task back, at its own wish or by a verdict. -/
def isAbort : Move R → Bool
  | .abort .. => true
  | .reject _ => true
  | _ => false

end Move

/-- The moves that are accepted when all are tried, in order. -/
def accepted (t : Task Req R) : List (Move R) → List (Move R)
  | [] => []
  | m :: ms =>
    if (t.move? m).isSome then m :: (t.move m).accepted ms else (t.move m).accepted ms

/-- An outcome is accepted exactly while the task is pending at the incarnation it is of. -/
theorem move?_isSome_of_outcome {n : Nat} (h : m.outcomeOf? = some n) :
    (t.move? m).isSome ↔ t.incarnation = n ∧ t.status = .pending := by
  have hawaits : t.awaits n ↔ t.incarnation = n ∧ t.status = .pending := by
    rw [awaits_eq_true, status_eq_pending, eq_comm]
  cases m with
  | execution _ _ _ =>
      cases h
      simp [move?, hawaits]
  | abort _ _ =>
      cases h
      simp [move?, hawaits]
  | validate => cases h
  | reject _ => cases h
  | retry => cases h

/-! ## What the state tells of the history -/

/-- How many incarnations had their outcome: all up to the current one, which waits for its own
while the task is pending. -/
def outcomes (t : Task Req R) : Nat :=
  if t.status = .pending then t.incarnation else t.incarnation + 1

/-- How often the task was sent back: before each retry, and once more if the next is due. -/
def aborts (t : Task Req R) : Nat :=
  if t.status = .aborted then t.incarnation + 1 else t.incarnation

theorem hasResponse_of_result? {result : R × Nat} (h : t.result? = some result) :
    t.status.hasResponse := by
  rw [← response?_isSome, response?, h]
  rfl

theorem outcomes_of_hasResponse (h : t.status.hasResponse) : t.outcomes = t.incarnation + 1 :=
  if_neg fun hpending => by simp [hpending, Status.hasResponse] at h

theorem aborts_of_hasResponse (h : t.status.hasResponse) : t.aborts = t.incarnation :=
  if_neg fun haborted => by simp [haborted, Status.hasResponse] at h

/-- An outcome is the next one due, and no other move counts as one. -/
theorem Change.outcomes (h : t.Change m u) :
    m.outcomeOf? = none ∧ u.outcomes = t.outcomes ∨
      m.outcomeOf? = some t.outcomes ∧ u.outcomes = t.outcomes + 1 := by
  cases h with
  | execution _ _ hpending =>
      have ht : t.outcomes = t.incarnation := if_pos (status_eq_pending.mpr hpending)
      exact .inr ⟨congrArg some ht.symm, by rw [ht]; rfl⟩
  | abort _ hpending =>
      have ht : t.outcomes = t.incarnation := if_pos (status_eq_pending.mpr hpending)
      exact .inr ⟨congrArg some ht.symm, by rw [ht]; rfl⟩
  | validate _ _ hresult =>
      exact .inl ⟨rfl, (outcomes_of_hasResponse (hasResponse_of_result? hresult)).symm⟩
  | reject _ hresponse => exact .inl ⟨rfl, (outcomes_of_hasResponse hresponse).symm⟩
  | retry haborted =>
      have ht : t.outcomes = t.incarnation + 1 :=
        if_neg fun hpending => by simp [status, haborted] at hpending
      exact .inl ⟨rfl, ht.symm⟩

theorem Change.aborts (h : t.Change m u) :
    u.aborts = t.aborts + if m.isAbort then 1 else 0 := by
  cases h with
  | execution _ _ hpending =>
      have ht : t.aborts = t.incarnation :=
        if_neg fun haborted => by simp [status, hpending] at haborted
      exact ht.symm
  | abort _ hpending =>
      have ht : t.aborts = t.incarnation :=
        if_neg fun haborted => by simp [status, hpending] at haborted
      rw [ht]
      rfl
  | validate _ _ hresult => exact (aborts_of_hasResponse (hasResponse_of_result? hresult)).symm
  | reject _ hresponse =>
      rw [aborts_of_hasResponse hresponse]
      rfl
  | retry haborted =>
      have ht : t.aborts = t.incarnation + 1 := if_pos (status_eq_aborted.mpr haborted)
      exact ht.symm

/-- A result is what the move itself brought, or was there and stays at its incarnation. -/
theorem Change.result? (h : t.Change m u) {response : R} {round : Nat}
    (hresult : u.result? = some (response, round)) :
    m = .execution u.incarnation round response ∨
      m.isExecution = false ∧ t.result? = some (response, round) ∧
        u.incarnation = t.incarnation := by
  cases h with
  | execution _ _ _ =>
      cases hresult
      exact .inl rfl
  | abort _ _ => cases hresult
  | validate _ _ hbefore =>
      cases hresult
      exact .inr ⟨rfl, hbefore, rfl⟩
  | reject _ _ => cases hresult
  | retry _ => cases hresult

/-! ## The history of a task -/

/-- A task and the moves that led to it tell the same. -/
structure Logged (log : List (Move R)) (t : Task Req R) : Prop where
  outcomes : log.filterMap Move.outcomeOf? = List.range t.outcomes
  aborts : log.countP Move.isAbort = t.aborts
  result : ∀ {response round}, t.result? = some (response, round) →
    (log.filter Move.isExecution).getLast? = some (.execution t.incarnation round response)

theorem logged_new (index : Nat) (request : Req) :
    Logged [] ({ index, request } : Task Req R) where
  outcomes := rfl
  aborts := rfl
  result h := by cases h

theorem Logged.change (h : Logged log t) (hu : t.Change m u) : Logged (log ++ [m]) u where
  outcomes := by
    rw [List.filterMap_append, h.outcomes]
    obtain ⟨hnone, hsame⟩ | ⟨hsome, hnext⟩ := hu.outcomes
    · rw [List.filterMap_cons_none hnone, hsame, List.filterMap_nil, List.append_nil]
    · rw [List.filterMap_cons_some hsome, hnext, List.range_succ, List.filterMap_nil]
  aborts := by rw [List.countP_append, h.aborts, hu.aborts, List.countP_singleton]
  result hresult := by
    obtain rfl | ⟨hother, hbefore, hincarnation⟩ := hu.result? hresult
    · simp [Move.isExecution]
    · rw [List.filter_append, List.filter_cons_of_neg (by simp [hother]), List.filter_nil,
        List.append_nil, h.result hbefore, hincarnation]

theorem Logged.after (h : Logged log t) (ms : List (Move R)) :
    Logged (log ++ t.accepted ms) (t.after ms) := by
  induction ms generalizing t log with
  | nil => simpa [accepted, Task.after] using h
  | cons m ms ih =>
      rw [accepted]
      obtain ⟨hrefused, hmove⟩ | ⟨haccepted, hchange⟩ := t.move_cases m
      · rw [if_neg (by simp [hrefused]), Task.after, List.foldl_cons, hmove]
        exact ih h
      · rw [if_pos haccepted, List.append_cons]
        exact ih (h.change hchange)

/-- **One outcome an incarnation.** Whatever is tried on a new task: the next outcome is accepted
exactly if the task is pending at the incarnation it is of; of all outcomes of one incarnation at
most one was accepted, and the accepted ones came in strictly increasing incarnations. The aborts
that were accepted, by the task's own signal or by a verdict, are as many as its incarnation, and
one more while it is aborted. A response and its round are those of the last execution that was
accepted, which was of the current incarnation. -/
theorem one_outcome_an_incarnation (index : Nat) (request : Req) (ms : List (Move R)) :
    let new : Task Req R := { index, request }
    let t := new.after ms
    let log := new.accepted ms
    (∀ m n, m.outcomeOf? = some n →
      ((t.move? m).isSome ↔ t.incarnation = n ∧ t.status = .pending)) ∧
    (∀ n, log.countP (fun m => m.outcomeOf? == some n) ≤ 1) ∧
    (log.filterMap Move.outcomeOf?).Pairwise (· < ·) ∧
    log.countP Move.isAbort =
      (if t.status = .aborted then t.incarnation + 1 else t.incarnation) ∧
    ∀ response, t.response? = some response → ∃ round, t.round? = some round ∧
      (log.filter Move.isExecution).getLast? = some (.execution t.incarnation round response) := by
  intro new t log
  have hlog : Logged log t := (logged_new index request).after ms
  refine ⟨fun m n h => move?_isSome_of_outcome h, fun n => ?_, ?_, hlog.aborts, ?_⟩
  · rw [← List.count_filterMap, hlog.outcomes]
    exact List.nodup_iff_count_le_one.mp List.nodup_range n
  · rw [hlog.outcomes]
    exact List.pairwise_lt_range
  · intro response hresponse
    obtain ⟨⟨_, round⟩, hresult, rfl⟩ := Option.map_eq_some_iff.mp hresponse
    exact ⟨round, by rw [round?, hresult]; rfl, hlog.result hresult⟩

/-- A second result of an incarnation, one of a superseded incarnation and one from the future are
all refused. -/
example :
    accepted (⟨3, (), 0, .pending, none⟩ : Task Unit Nat)
      [.execution 0 1 70, .execution 0 1 71, .reject .requested, .retry, .abort 0 .requested,
        .execution 2 2 90, .execution 1 2 80, .validate] =
      [.execution 0 1 70, .reject .requested, .retry, .execution 1 2 80, .validate] := by decide

end Task

end TxBatch
