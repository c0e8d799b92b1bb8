import Mathlib.Data.List.Find
import Mathlib.Order.Bounds.Basic
import TxBatch.Proofs.Validation

/-!
# Which results stand

The read/write-set validator changes the tasks it will compare later ones with. Read from its end it
is simpler: a result stands exactly if no lower one that stands spoils it (`Task.Spoils`), and one
that does not is blamed on the lowest that does. That rule speaks of the verdicts on both sides, yet
only lower ones matter to each, so it admits one list of tasks at most (`Verdicts.unique`), and what
the validator leaves is that list (`verdicts_judgeBehind`).

A validator asked a second time finds all settled, although it compares with fewer results than the
first time (`validation_idempotent`).
-/

namespace TxBatch

variable {Req R : Type} [Tracked R]

/-- The task ends validated and spoils a result that was got in `round`: its own was got in that
round or a later one, and it wrote a key that the other read or wrote. -/
def Task.Spoils (u : Task Req R) (response : R) (round : Nat) : Prop :=
  ∃ other otherRound, u.progress = .validated other otherRound ∧ round ≤ otherRound ∧
    ∃ key, key ∈ (Tracked.access other).writes ∧
      (key ∈ (Tracked.access response).reads ∨ key ∈ (Tracked.access response).writes)

namespace Validator

/-- The slots in front of `slot` whose tasks spoil such a result there. -/
def spoilers (after : List (Task Req R)) (slot : Nat) (response : R) (round : Nat) : Set Nat :=
  {lower | lower < slot ∧ ∃ u, after[lower]? = some u ∧ u.Spoils response round}

/-- The tasks of a batch as they were, and as a validator leaves them that lets a result stand
exactly if no lower one that stands spoils it. -/
structure Verdicts (tasks after : List (Task Req R)) : Prop where
  length : after.length = tasks.length
  left : ∀ {slot : Nat} {t}, tasks[slot]? = some t → t.status = .pending ∨ t.status = .aborted →
    after[slot]? = some t
  accepted : ∀ {slot : Nat} {t response round}, tasks[slot]? = some t →
    t.result? = some (response, round) →
      (after[slot]? = some { t with progress := .validated response round } ↔
        spoilers after slot response round = ∅)
  rejected : ∀ {slot : Nat} {t response round}, tasks[slot]? = some t →
    t.result? = some (response, round) → spoilers after slot response round ≠ ∅ →
      ∃ lowest u, IsLeast (spoilers after slot response round) lowest ∧
        after[lowest]? = some u ∧ after[slot]? = some (t.discard (.dependency u.index))

/-! ## The rule admits one list -/

theorem spoilers_congr {after after' : List (Task Req R)} {slot : Nat}
    (h : ∀ lower < slot, after[lower]? = after'[lower]?) (response : R) (round : Nat) :
    spoilers after slot response round = spoilers after' slot response round := by
  ext lower
  refine and_congr_right fun hlt => ?_
  rw [h lower hlt]

theorem Verdicts.unique {tasks after after' : List (Task Req R)} (h : Verdicts tasks after)
    (h' : Verdicts tasks after') : after = after' := by
  refine List.ext_getElem? fun slot => ?_
  induction slot using Nat.strong_induction_on with
  | _ slot ih =>
      cases ht : tasks[slot]? with
      | none =>
          have hle := List.getElem?_eq_none_iff.mp ht
          rw [List.getElem?_eq_none (h.length ▸ hle), List.getElem?_eq_none (h'.length ▸ hle)]
      | some t =>
          cases hresult : t.result? with
          | none =>
              have hstatus := Task.result?_eq_none.mp hresult
              rw [h.left ht hstatus, h'.left ht hstatus]
          | some result =>
              obtain ⟨response, round⟩ := result
              have hsame := spoilers_congr ih response round
              by_cases hnone : spoilers after slot response round = ∅
              · rw [(h.accepted ht hresult).mpr hnone,
                  (h'.accepted ht hresult).mpr (hsame ▸ hnone)]
              · obtain ⟨lowest, u, hlowest, hu, hslot⟩ := h.rejected ht hresult hnone
                obtain ⟨lowest', u', hlowest', hu', hslot'⟩ :=
                  h'.rejected ht hresult (hsame ▸ hnone)
                obtain rfl : lowest = lowest' := hlowest.unique (hsame ▸ hlowest')
                rw [ih lowest hlowest.1.1, hu'] at hu
                rw [hslot, hslot', Option.some.inj hu]

/-! ## What follows from it -/

section Verdicts

variable {tasks after : List (Task Req R)} (h : Verdicts tasks after)

include h

theorem Verdicts.exists_spoiler {slot : Nat} {t t' : Task Req R} {response : R} {round : Nat}
    (ht : tasks[slot]? = some t) (hresult : t.result? = some (response, round))
    (ht' : after[slot]? = some t') (hstatus : t'.status = .aborted) :
    ∃ lower < slot, ∃ u, after[lower]? = some u ∧ u.Spoils response round := by
  have hspoiled : spoilers after slot response round ≠ ∅ := by
    intro hfree
    rw [(h.accepted ht hresult).mpr hfree] at ht'
    cases ht'
    cases hstatus
  obtain ⟨lowest, u, hlowest, -, -⟩ := h.rejected ht hresult hspoiled
  obtain ⟨hlt, hu⟩ := hlowest.1
  exact ⟨lowest, hlt, hu⟩

theorem Verdicts.not_spoils {slot lower : Nat} {t' u : Task Req R} {response : R} {round : Nat}
    (hlt : lower < slot) (ht' : after[slot]? = some t')
    (hprogress : t'.progress = .validated response round) (hu : after[lower]? = some u) :
    ¬u.Spoils response round := by
  intro hspoils
  obtain ⟨t, ht⟩ : ∃ t, tasks[slot]? = some t :=
    ⟨_, List.getElem?_eq_getElem (h.length ▸ (List.getElem?_eq_some_iff.mp ht').1)⟩
  cases hresult : t.result? with
  | none =>
      rw [h.left ht (Task.result?_eq_none.mp hresult)] at ht'
      cases ht'
      rw [Task.result?, hprogress] at hresult
      cases hresult
  | some result =>
      by_cases hfree : spoilers after slot result.1 result.2 = ∅
      · rw [(h.accepted ht hresult).mpr hfree] at ht'
        cases ht'
        cases hprogress
        exact Set.eq_empty_iff_forall_notMem.mp hfree lower ⟨hlt, u, hu, hspoils⟩
      · obtain ⟨_, _, -, -, hslot⟩ := h.rejected ht hresult hfree
        rw [hslot] at ht'
        cases ht'
        cases hprogress

end Verdicts

/-! ## The validator follows it -/

/-- Where no result waits for its verdict any more, to spoil is to hold a result that does. -/
theorem spoils_iff {u : Task Req R} (hjudged : u.result? ≠ none → u.status = .validated)
    {response : R} {round : Nat} :
    u.Spoils response round ↔ ∃ other otherRound, u.result? = some (other, otherRound) ∧
      round ≤ otherRound ∧ (Tracked.access response).dependsOn (Tracked.access other) = true := by
  simp only [Task.Spoils, Access.dependsOn_iff]
  refine exists₂_congr fun other otherRound => and_congr_left fun _ => ?_
  constructor
  · intro hprogress
    simp [Task.result?, hprogress]
  · intro hresult
    obtain ⟨_, _, hresult', hprogress⟩ := Task.result?_of_validated (hjudged (by simp [hresult]))
    cases hresult.symm.trans hresult'
    exact hprogress

section Judged

variable {after : List (Task Req R)}
  (hjudged : ∀ u ∈ after, u.result? ≠ none → u.status = .validated)
  {slot : Nat} {response : R} {round : Nat}

include hjudged

open Classical in
theorem conflict?_eq_find? :
    conflict? (after.take slot) response round =
      (after.take slot).find? fun u => u.Spoils response round := by
  refine List.find?_congr fun u hmem => Bool.eq_iff_iff.mpr ?_
  rw [decide_eq_true_iff, spoils_iff (hjudged u (List.mem_of_mem_take hmem))]
  cases u.result? with
  | none => simp
  | some result =>
      obtain ⟨other, otherRound⟩ := result
      simp

theorem conflict?_take_eq_none :
    conflict? (after.take slot) response round = none ↔
      spoilers after slot response round = ∅ := by
  classical
  rw [conflict?_eq_find? hjudged, List.find?_eq_none, Set.eq_empty_iff_forall_notMem]
  constructor
  · rintro hfree lower ⟨hlt, u, hu, hspoils⟩
    have hmem := List.mem_of_getElem? ((List.getElem?_take_of_lt hlt).trans hu)
    exact hfree u hmem (decide_eq_true hspoils)
  · intro hfree u hmem hspoils
    obtain ⟨lower, hu⟩ := List.mem_iff_getElem?.mp hmem
    rw [List.getElem?_take, Option.ite_none_right_eq_some] at hu
    exact hfree lower ⟨hu.1, u, hu.2, of_decide_eq_true hspoils⟩

theorem conflict?_take_eq_some {earlier : Task Req R}
    (h : conflict? (after.take slot) response round = some earlier) :
    ∃ lowest, IsLeast (spoilers after slot response round) lowest ∧
      after[lowest]? = some earlier := by
  classical
  rw [conflict?_eq_find? hjudged] at h
  obtain ⟨hspoils, lowest, hlt, rfl, hbelow⟩ := List.find?_eq_some_iff_getElem.mp h
  have hslot : lowest < slot := Nat.lt_of_lt_of_le hlt (List.length_take_le _ _)
  have hearlier : after[lowest]? = some (after.take slot)[lowest] :=
    (List.getElem?_take_of_lt hslot).symm.trans (List.getElem?_eq_getElem hlt)
  refine ⟨lowest, ⟨⟨hslot, _, hearlier, of_decide_eq_true hspoils⟩, ?_⟩, hearlier⟩
  rintro lower ⟨hlower, u, hu, hspoils'⟩
  by_contra hbefore
  have hnot := hbelow lower (Nat.not_le.mp hbefore)
  rw [← List.getElem?_take_of_lt hlower] at hu
  rw [(List.getElem?_eq_some_iff.mp hu).2, decide_eq_true hspoils'] at hnot
  cases hnot

end Judged

theorem judged_judgeBehind (tasks : List (Task Req R)) :
    ∀ u ∈ judgeBehind [] tasks, u.result? ≠ none → u.status = .validated := by
  intro u hmem hresult
  obtain ⟨slot, hu⟩ := List.mem_iff_getElem?.mp hmem
  rw [getElem?_judgeBehind, Option.map_eq_some_iff] at hu
  obtain ⟨t, -, rfl⟩ := hu
  obtain ⟨result, hresult⟩ := Option.ne_none_iff_exists'.mp hresult
  exact (judge_result? hresult).2.1

theorem verdicts_judgeBehind (tasks : List (Task Req R)) :
    Verdicts tasks (judgeBehind [] tasks) := by
  have hjudged := judged_judgeBehind tasks
  have hslot : ∀ {slot : Nat} {t}, tasks[slot]? = some t → (judgeBehind [] tasks)[slot]? =
      some (judge ((judgeBehind [] tasks).take slot) t) := by
    intro slot t ht
    rw [getElem?_judgeBehind, ht]
    rfl
  refine ⟨length_judgeBehind tasks [], fun ht hstatus => ?_, fun ht hresult => ?_,
    fun ht hresult hspoiled => ?_⟩
  · rw [hslot ht, judge_of_result?_eq_none (Task.result?_eq_none.mpr hstatus)]
  · rw [hslot ht, ← conflict?_take_eq_none hjudged]
    constructor
    · intro haccepted
      exact (judge_result? (congrArg Task.result? (Option.some.inj haccepted))).2.2
    · intro hfree
      rw [judge_of_conflict?_eq_none hresult hfree]
  · rw [Ne, ← conflict?_take_eq_none hjudged] at hspoiled
    obtain ⟨earlier, hearlier⟩ := Option.ne_none_iff_exists'.mp hspoiled
    obtain ⟨lowest, hlowest, hu⟩ := conflict?_take_eq_some hjudged hearlier
    refine ⟨lowest, earlier, hlowest, hu, ?_⟩
    rw [hslot ht, judge_of_conflict?_eq_some hresult hearlier]

/-- **Which results stand.** The validator leaves alone what holds no result. It accepts a result,
changing nothing else, exactly if no lower task that ends validated, with a result of the same round
or a later one, wrote a key that it read or wrote; else it discards the result and blames the lowest
such task. No other list of tasks obeys that rule. The positions of the tasks that end aborted are
reported, in slot order. So no two results that stand conflict, and each one discarded conflicts
with one that stands. -/
theorem readWrite_verdicts (round : Nat) (tasks : List (Task Req R)) :
    let after := (readWrite round tasks).1
    Verdicts tasks after ∧
    (∀ other, Verdicts tasks other → other = after) ∧
    (readWrite round tasks).2 = (after.filter fun t => t.status = .aborted).map Task.index ∧
    (∀ (lower slot : Nat) (u t : Task Req R) response ran, lower < slot →
      after[lower]? = some u → after[slot]? = some t → t.progress = .validated response ran →
      ¬u.Spoils response ran) ∧
    (∀ (slot : Nat) (t t' : Task Req R) response ran, tasks[slot]? = some t →
      t.result? = some (response, ran) → after[slot]? = some t' → t'.status = .aborted →
      ∃ lower < slot, ∃ u, after[lower]? = some u ∧ u.Spoils response ran) := by
  intro after
  have hverdicts : Verdicts tasks after := verdicts_judgeBehind tasks
  exact ⟨hverdicts, fun other h => h.unique hverdicts, rfl,
    fun _ _ _ _ _ _ hlt hu ht hprogress => hverdicts.not_spoils hlt ht hprogress hu,
    fun _ _ _ _ _ => hverdicts.exists_spoiler⟩

/-- What a discarded result wrote spoils nothing: the last of three stands, although the one in the
middle wrote what it read. -/
example :
    let wrote (key : Key) : Access := { writes := .ofList [key] }
    let copied (source target : Key) : Access :=
      { reads := .ofList [source], writes := .ofList [target] }
    let tasks : List (Task Unit Access) := [
      ⟨0, (), 0, .executed (wrote ⟨[97]⟩) 1, none⟩,
      ⟨1, (), 0, .executed (copied ⟨[97]⟩ ⟨[98]⟩) 1, none⟩,
      ⟨2, (), 0, .executed (copied ⟨[98]⟩ ⟨[99]⟩) 1, none⟩]
    (readWrite 1 tasks).1.map Task.status = [.validated, .aborted, .validated] ∧
      (readWrite 1 tasks).2 = [1] := by decide

/-! ## A second pass -/

omit [Tracked R] in
theorem minimal_of_ne_executed {tasks : List (Task Req R)}
    (h : ∀ t ∈ tasks, t.status ≠ .executed) (round : Nat) : (minimal round tasks).1 = tasks := by
  calc tasks.map (fun t => t.move .validate)
      = tasks.map id := List.map_congr_left fun t hmem =>
        Task.move_validate_of_ne_executed (h t hmem)
    _ = tasks := List.map_id tasks

omit [Tracked R] in
/-- The minimal validator finds no result left to accept. The other one judges each task against the
verdicts in front of it, which by induction over the batch are those of the first pass; and a
verdict against the same tasks is the same again. -/
theorem BuiltIn.tasks_again {v : Validator Req R} (hv : v.BuiltIn) (round round' : Nat)
    (tasks : List (Task Req R)) : (v round' (v round tasks).1).1 = (v round tasks).1 := by
  cases hv with
  | minimal =>
      exact minimal_of_ne_executed (fun _ hmem => judges_minimal.status_ne_executed hmem) round'
  | readWrite => exact judgeBehind_judgeBehind tasks []

omit [Tracked R] in
/-- **A second validation changes nothing.** Whatever tasks a validator is given, it leaves no result
waiting for its verdict; and asked again about the tasks that it left, in the same round or another,
it leaves every field of every one as it is and reports the same positions. -/
theorem validation_idempotent {v : Validator Req R} (hv : v.BuiltIn) (round round' : Nat)
    (tasks : List (Task Req R)) :
    v round' (v round tasks).1 = v round tasks ∧
      ∀ t ∈ (v round tasks).1, t.status ≠ .executed := by
  have htasks := hv.tasks_again round round' tasks
  refine ⟨Prod.ext htasks ?_, fun t hmem => hv.judges.status_ne_executed hmem⟩
  rw [hv.judges.reported, hv.judges.reported, htasks]

/-- Task 0 was executed again in round 2, which spoils the validated result of task 1; task 2 rests
on that one, and stands. -/
theorem spoiled_chain_idempotent :
    let a : Key := ⟨[97]⟩
    let b : Key := ⟨[98]⟩
    let tasks : List (Task Unit Access) := [
      ⟨0, (), 1, .executed { writes := .ofList [a] } 2, some .requested⟩,
      ⟨1, (), 0, .validated { reads := .ofList [a], writes := .ofList [b] } 1, none⟩,
      ⟨2, (), 0, .validated { reads := .ofList [b] } 1, none⟩,
      ⟨3, (), 4, .aborted, some (.dependency 1)⟩,
      ⟨4, (), 0, .pending, none⟩]
    (readWrite : Validator Unit Access).BuiltIn ∧
      (readWrite 2 tasks).1.map Task.status =
        [.validated, .aborted, .validated, .aborted, .pending] ∧
      (readWrite 2 tasks).2 = [1, 3] ∧
      readWrite 7 (readWrite 2 tasks).1 = readWrite 2 tasks :=
  ⟨.readWrite, by decide, by decide, (validation_idempotent .readWrite 2 7 _).1⟩

end Validator

end TxBatch
