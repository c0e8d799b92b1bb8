import TxBatch.Validator

/-!
# What validation leaves behind

The read/write-set validator goes through the batch once and compares each task with the tasks in
front of it as it has left them. So its verdict on a task is a function of the verdicts below
(`getElem?_judgeBehind`), a prefix is judged whatever stands behind it (`take_judgeBehind`), and
what has been judged is judged the same again (`judgeBehind_judgeBehind`).

No accepted result rests on a key that a lower result of the same round or a later one wrote
(`not_dependsOn_of_validated`).

What a round needs to know of a validator is less: it accepts or discards each result as it is, and
reports the tasks that end aborted (`Validator.Judges`). Both validators do that.
-/

namespace TxBatch

variable {Req R : Type}

namespace Task

theorem result?_eq_none {t : Task Req R} :
    t.result? = none ↔ t.status = .pending ∨ t.status = .aborted := by
  obtain ⟨index, request, incarnation, progress, lastAbort⟩ := t
  cases progress <;> simp [result?, status]

theorem result?_of_validated {t : Task Req R} (h : t.status = .validated) :
    ∃ response round, t.result? = some (response, round) ∧
      t.progress = .validated response round := by
  obtain ⟨index, request, incarnation, progress, lastAbort⟩ := t
  cases progress <;> simp_all [result?, status]

theorem move_validate {t : Task Req R} {response : R} {round : Nat}
    (h : t.result? = some (response, round)) :
    t.move .validate = { t with progress := .validated response round } := by
  simp [move, move?, h]

theorem move_reject {t : Task Req R} {result : R × Nat} (h : t.result? = some result)
    (signal : AbortSignal) : t.move (.reject signal) = t.discard signal := by
  obtain ⟨index, request, incarnation, progress, lastAbort⟩ := t
  cases progress <;> simp_all [move, move?, result?, status, Status.hasResponse]

theorem move_validate_of_none {t : Task Req R} (h : t.result? = none) : t.move .validate = t := by
  simp [move, move?, h]

theorem move_validate_of_ne_executed {t : Task Req R} (h : t.status ≠ .executed) :
    t.move .validate = t := by
  obtain ⟨index, request, incarnation, progress, lastAbort⟩ := t
  cases progress <;> simp_all [move, move?, result?, status]

@[simp] theorem status_discard (t : Task Req R) (signal : AbortSignal) :
    (t.discard signal).status = .aborted := rfl

@[simp] theorem result?_discard (t : Task Req R) (signal : AbortSignal) :
    (t.discard signal).result? = none := rfl

/-- What validation can make of a task. -/
inductive Verdict (t : Task Req R) : Task Req R → Prop
  | left (h : t.result? = none) : Verdict t t
  | accepted {response : R} {round : Nat} (h : t.result? = some (response, round)) :
      Verdict t { t with progress := .validated response round }
  | rejected {result : R × Nat} (h : t.result? = some result) (signal : AbortSignal) :
      Verdict t (t.discard signal)

theorem verdict_validate (t : Task Req R) : t.Verdict (t.move .validate) := by
  cases h : t.result? with
  | none =>
      rw [move_validate_of_none h]
      exact .left h
  | some result =>
      rw [move_validate h]
      exact .accepted h

namespace Verdict

variable {t t' : Task Req R} (h : t.Verdict t')

include h

theorem identity :
    t'.index = t.index ∧ t'.request = t.request ∧ t'.incarnation = t.incarnation := by
  cases h <;> exact ⟨rfl, rfl, rfl⟩

theorem version : t'.version = t.version := by
  cases h <;> rfl

theorem status_of_ne_pending (hstatus : t.status ≠ .pending) :
    t'.status = .validated ∨ t'.status = .aborted := by
  cases h with
  | left hresult => exact .inr ((result?_eq_none.mp hresult).resolve_left hstatus)
  | accepted => exact .inl rfl
  | rejected => exact .inr rfl

theorem status_ne_executed : t'.status ≠ .executed := by
  cases h with
  | left hresult => rcases result?_eq_none.mp hresult with hstatus | hstatus <;> simp [hstatus]
  | accepted => simp [status]
  | rejected => simp

/-- A result that survives is accepted, and is the one that was there. -/
theorem result? {result : R × Nat} (hresult : t'.result? = some result) :
    t.result? = some result ∧ t'.status = .validated := by
  cases h with
  | left hnone =>
      rw [hnone] at hresult
      cases hresult
  | accepted hsome =>
      cases hresult
      exact ⟨hsome, rfl⟩
  | rejected => cases hresult

end Verdict

end Task

namespace Validator

theorem mem_abortedIndices {tasks : List (Task Req R)} {index : Nat} :
    index ∈ abortedIndices tasks ↔ ∃ t ∈ tasks, t.status = .aborted ∧ t.index = index := by
  simp [abortedIndices, and_assoc]

section ReadWrite

variable [Tracked R]

/-! ## The verdict on one task -/

theorem conflict?_eq_none {lower : List (Task Req R)} {response : R} {round : Nat} :
    conflict? lower response round = none ↔ ∀ earlier ∈ lower, ∀ other otherRound,
      earlier.result? = some (other, otherRound) → round ≤ otherRound →
        (Tracked.access response).dependsOn (Tracked.access other) = false := by
  simp only [conflict?, List.find?_eq_none]
  refine forall₂_congr fun earlier hmem => ?_
  cases hresult : earlier.result? with
  | none => simp
  | some result =>
      obtain ⟨other, otherRound⟩ := result
      simp

/-- The three verdicts on a task: it holds no result to judge, its result is accepted, or a task in
front of it spoils the result. -/
theorem judge_cases (lower : List (Task Req R)) (t : Task Req R) :
    (t.result? = none ∧ judge lower t = t) ∨
    (∃ response round, t.result? = some (response, round) ∧
      conflict? lower response round = none ∧
      judge lower t = { t with progress := .validated response round }) ∨
    (∃ response round earlier, t.result? = some (response, round) ∧
      conflict? lower response round = some earlier ∧
      judge lower t = t.discard (.dependency earlier.index)) := by
  unfold judge
  split
  · exact .inl ⟨‹_›, rfl⟩
  · rename_i response round hresult
    split
    · exact .inr (.inr ⟨response, round, _, hresult, ‹_›, Task.move_reject hresult _⟩)
    · exact .inr (.inl ⟨response, round, hresult, ‹_›, Task.move_validate hresult⟩)

theorem judge_of_result?_eq_none {lower : List (Task Req R)} {t : Task Req R}
    (h : t.result? = none) : judge lower t = t := by
  simp [judge, h]

theorem judge_of_conflict?_eq_none {lower : List (Task Req R)} {t : Task Req R} {response : R}
    {round : Nat} (hresult : t.result? = some (response, round))
    (hconflict : conflict? lower response round = none) :
    judge lower t = { t with progress := .validated response round } := by
  simp [judge, hresult, hconflict, Task.move_validate hresult]

theorem judge_of_conflict?_eq_some {lower : List (Task Req R)} {t earlier : Task Req R}
    {response : R} {round : Nat} (hresult : t.result? = some (response, round))
    (hconflict : conflict? lower response round = some earlier) :
    judge lower t = t.discard (.dependency earlier.index) := by
  simp [judge, hresult, hconflict, Task.move_reject hresult]

theorem judge_judge (lower : List (Task Req R)) (t : Task Req R) :
    judge lower (judge lower t) = judge lower t := by
  rcases judge_cases lower t with ⟨-, h⟩ | ⟨response, round, -, hconflict, h⟩ | ⟨_, _, _, -, -, h⟩
  · rw [h, h]
  · rw [h]
    exact judge_of_conflict?_eq_none rfl hconflict
  · rw [h]
    exact judge_of_result?_eq_none rfl

theorem verdict_judge (lower : List (Task Req R)) (t : Task Req R) :
    t.Verdict (judge lower t) := by
  rcases judge_cases lower t with
    ⟨hresult, hj⟩ | ⟨_, _, hresult, -, hj⟩ | ⟨_, _, _, hresult, -, hj⟩ <;> rw [hj]
  · exact .left hresult
  · exact .accepted hresult
  · exact .rejected hresult _

@[simp] theorem judge_index (lower : List (Task Req R)) (t : Task Req R) :
    (judge lower t).index = t.index := (verdict_judge lower t).identity.1

@[simp] theorem judge_request (lower : List (Task Req R)) (t : Task Req R) :
    (judge lower t).request = t.request := (verdict_judge lower t).identity.2.1

@[simp] theorem judge_incarnation (lower : List (Task Req R)) (t : Task Req R) :
    (judge lower t).incarnation = t.incarnation := (verdict_judge lower t).identity.2.2

theorem judge_result? {lower : List (Task Req R)} {t : Task Req R} {response : R} {round : Nat}
    (h : (judge lower t).result? = some (response, round)) :
    t.result? = some (response, round) ∧ (judge lower t).status = .validated ∧
      conflict? lower response round = none := by
  rcases judge_cases lower t with ⟨hresult, hj⟩ | ⟨_, _, hresult, hconflict, hj⟩ | ⟨_, _, _, -, -, hj⟩
  · rw [hj, hresult] at h
    cases h
  · rw [hj] at h ⊢
    cases h
    exact ⟨hresult, rfl, hconflict⟩
  · rw [hj] at h
    cases h

/-! ## The verdicts on a batch -/

/-- A prefix is judged whatever stands behind it. -/
theorem take_judgeBehind (ts : List (Task Req R)) :
    ∀ lower (count : Nat),
      (judgeBehind lower ts).take count = judgeBehind lower (ts.take count) := by
  induction ts with
  | nil => intro lower count; simp [judgeBehind]
  | cons t rest ih =>
      intro lower count
      cases count with
      | zero => rfl
      | succ count => simp only [judgeBehind, List.take_succ_cons, ih]

theorem judgeBehind_judgeBehind (ts : List (Task Req R)) :
    ∀ lower, judgeBehind lower (judgeBehind lower ts) = judgeBehind lower ts := by
  induction ts with
  | nil => exact fun _ => rfl
  | cons t rest ih => exact fun lower => by simp only [judgeBehind, judge_judge, ih]

@[simp] theorem length_judgeBehind (ts : List (Task Req R)) :
    ∀ lower, (judgeBehind lower ts).length = ts.length := by
  induction ts with
  | nil => exact fun _ => rfl
  | cons t rest ih => exact fun lower => by simp only [judgeBehind, List.length_cons, ih]

theorem getElem?_judgeBehind (ts : List (Task Req R)) :
    ∀ lower (i : Nat), (judgeBehind lower ts)[i]? =
      ts[i]?.map (judge (lower ++ (judgeBehind lower ts).take i)) := by
  induction ts with
  | nil => exact fun _ _ => rfl
  | cons t rest ih =>
      intro lower i
      cases i with
      | zero => simp [judgeBehind]
      | succ i => simp [judgeBehind, ih]

/-- An accepted result does not depend on any lower result of its round or a later one. -/
theorem not_dependsOn_of_validated {ts : List (Task Req R)} {i j : Nat} {t u : Task Req R}
    (hji : j < i) (ht : (judgeBehind [] ts)[i]? = some t) (hu : (judgeBehind [] ts)[j]? = some u)
    {response other : R} {round otherRound : Nat} (hresult : t.result? = some (response, round))
    (hother : u.result? = some (other, otherRound)) (hround : round ≤ otherRound) :
    (Tracked.access response).dependsOn (Tracked.access other) = false := by
  rw [getElem?_judgeBehind, Option.map_eq_some_iff] at ht
  obtain ⟨t₀, -, rfl⟩ := ht
  have hmem : u ∈ (judgeBehind [] ts).take i :=
    List.mem_of_getElem? ((List.getElem?_take_of_lt hji).trans hu)
  exact conflict?_eq_none.mp (judge_result? hresult).2.2 u hmem other otherRound hother hround

end ReadWrite

/-! ## What both validators do -/

/-- The validator judges each task where it is, and reports the aborted ones. -/
structure Judges (v : Validator Req R) : Prop where
  length : ∀ round tasks, (v round tasks).1.length = tasks.length
  verdict : ∀ {round tasks} {slot : Nat} {t'}, (v round tasks).1[slot]? = some t' →
    ∃ t, tasks[slot]? = some t ∧ t.Verdict t'
  reported : ∀ round tasks, (v round tasks).2 = abortedIndices (v round tasks).1

theorem Judges.status_ne_executed {v : Validator Req R} (hv : v.Judges) {round : Nat}
    {tasks : List (Task Req R)} {t : Task Req R} (hmem : t ∈ (v round tasks).1) :
    t.status ≠ .executed := by
  obtain ⟨slot, hslot⟩ := List.mem_iff_getElem?.mp hmem
  obtain ⟨_, -, hverdict⟩ := hv.verdict hslot
  exact hverdict.status_ne_executed

theorem judges_minimal : (minimal : Validator Req R).Judges where
  length := fun round tasks => by simp [minimal]
  verdict := fun {round tasks slot t'} ht' => by
    simp only [minimal, List.getElem?_map, Option.map_eq_some_iff] at ht'
    obtain ⟨t, ht, rfl⟩ := ht'
    exact ⟨t, ht, t.verdict_validate⟩
  reported := fun _ _ => rfl

theorem judges_readWrite [Tracked R] : (readWrite : Validator Req R).Judges where
  length := fun round tasks => length_judgeBehind tasks []
  verdict := fun {round tasks slot t'} ht' => by
    rw [readWrite, getElem?_judgeBehind, Option.map_eq_some_iff] at ht'
    obtain ⟨t, ht, rfl⟩ := ht'
    exact ⟨t, ht, verdict_judge _ t⟩
  reported := fun _ _ => rfl

inductive BuiltIn : Validator Req R → Prop
  | minimal : BuiltIn Validator.minimal
  | readWrite [Tracked R] : BuiltIn Validator.readWrite

theorem BuiltIn.judges {v : Validator Req R} (h : v.BuiltIn) : v.Judges := by
  cases h with
  | minimal => exact judges_minimal
  | readWrite => exact judges_readWrite

end Validator

end TxBatch
