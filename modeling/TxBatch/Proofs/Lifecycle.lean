import TxBatch.Task

/-! # The life of a task

What holds of a task after any moves whatever, in any order and with any arguments: fitting ones,
late ones, and ones that nobody should have made. `Task.Change` says once what an accepted move
does; everything else is a case analysis over it, carried along whole runs by
`Task.after_induction`.

A task keeps its response and the round of it inside `Progress`, so that no move can leave one
behind. A record that holds every field by itself has to take care of that in each of its updates.
`Task.Fields` is that record, and `Task.fields_after` shows that the two never part.
-/

namespace TxBatch

/-- The statuses that one move can lead to, other than the one it starts from. -/
def Status.next : Status → List Status
  | .pending => [.executed, .aborted]
  | .executed => [.validated, .aborted]
  | .validated => [.aborted]
  | .aborted => [.pending]

namespace Task

variable {Req R : Type} {t u : Task Req R} {m : Move R}

/-! ## One move -/

inductive Change (t : Task Req R) : Move R → Task Req R → Prop where
  | execution (round : Nat) (response : R) (hpending : t.progress = .pending) :
    Change t (.execution t.incarnation round response)
      { t with progress := .executed response round }
  | abort (signal : AbortSignal) (hpending : t.progress = .pending) :
    Change t (.abort t.incarnation signal) (t.discard signal)
  | validate (response : R) (round : Nat) (hresult : t.result? = some (response, round)) :
    Change t .validate { t with progress := .validated response round }
  | reject (signal : AbortSignal) (hresponse : t.status.hasResponse) :
    Change t (.reject signal) (t.discard signal)
  | retry (haborted : t.progress = .aborted) :
    Change t .retry { t with incarnation := t.incarnation + 1, progress := .pending }

theorem status_eq_pending : t.status = .pending ↔ t.progress = .pending := by
  cases h : t.progress <;> simp [status, h]

theorem status_eq_aborted : t.status = .aborted ↔ t.progress = .aborted := by
  cases h : t.progress <;> simp [status, h]

theorem awaits_eq_true {incarnation : Nat} :
    t.awaits incarnation ↔ incarnation = t.incarnation ∧ t.progress = .pending := by
  simp [awaits, status_eq_pending]

theorem move?_eq_some_iff : t.move? m = some u ↔ t.Change m u := by
  constructor
  · intro h
    cases m with
    | execution incarnation round response =>
      obtain ⟨hwaits, hu⟩ := Option.ite_none_right_eq_some.mp h
      obtain ⟨rfl, hpending⟩ := awaits_eq_true.mp hwaits
      cases hu
      exact .execution round response hpending
    | abort incarnation signal =>
      obtain ⟨hwaits, hu⟩ := Option.ite_none_right_eq_some.mp h
      obtain ⟨rfl, hpending⟩ := awaits_eq_true.mp hwaits
      cases hu
      exact .abort signal hpending
    | validate =>
      obtain ⟨⟨response, round⟩, hresult, rfl⟩ := Option.map_eq_some_iff.mp h
      exact .validate response round hresult
    | reject signal =>
      obtain ⟨hresponse, hu⟩ := Option.ite_none_right_eq_some.mp h
      cases hu
      exact .reject signal hresponse
    | retry =>
      obtain ⟨haborted, hu⟩ := Option.ite_none_right_eq_some.mp h
      cases hu
      exact .retry (status_eq_aborted.mp haborted)
  · rintro (⟨round, response, hpending⟩ | ⟨signal, hpending⟩ | ⟨response, round, hresult⟩ |
      ⟨signal, hresponse⟩ | haborted)
    · exact if_pos (awaits_eq_true.mpr ⟨rfl, hpending⟩)
    · exact if_pos (awaits_eq_true.mpr ⟨rfl, hpending⟩)
    · simp [move?, hresult]
    · exact if_pos hresponse
    · exact if_pos (status_eq_aborted.mpr haborted)

theorem move_cases (t : Task Req R) (m : Move R) :
    t.move? m = none ∧ t.move m = t ∨ (t.move? m).isSome ∧ t.Change m (t.move m) := by
  cases h : t.move? m with
  | none => exact .inl ⟨rfl, by simp [move, h]⟩
  | some u => exact .inr ⟨rfl, move?_eq_some_iff.mp (by simp [move, h])⟩

namespace Change

theorem index_eq (h : t.Change m u) : u.index = t.index := by
  cases h <;> rfl

theorem request_eq (h : t.Change m u) : u.request = t.request := by
  cases h <;> rfl

/-- Only a retry counts. -/
theorem incarnation (h : t.Change m u) :
    u.incarnation = t.incarnation ∨ m = .retry ∧ u.incarnation = t.incarnation + 1 := by
  cases h with
  | retry => exact .inr ⟨rfl, rfl⟩
  | _ => exact .inl rfl

theorem status_mem (h : t.Change m u) : u.status = t.status ∨ u.status ∈ t.status.next := by
  cases h with
  | execution _ _ hpending => simp [status, hpending, Status.next]
  | abort _ hpending => simp [status, hpending, Status.next, discard]
  | validate _ _ hresult =>
    cases hprogress : t.progress <;> simp_all [status, result?, Status.next]
  | reject _ hresponse =>
    cases hprogress : t.progress <;>
      simp_all [status, Status.hasResponse, Status.next, discard]
  | retry haborted => simp [status, haborted, Status.next]

end Change

/-! ## Runs of moves -/

def after (t : Task Req R) (ms : List (Move R)) : Task Req R := ms.foldl move t

/-- What holds of a task and is kept by every change holds after any moves. -/
theorem after_induction {P : Task Req R → Prop} (ht : P t)
    (hchange : ∀ {t u m}, P t → t.Change m u → P u) (ms : List (Move R)) : P (t.after ms) := by
  induction ms generalizing t with
  | nil => exact ht
  | cons m ms ih =>
    refine ih ?_
    obtain ⟨_, hmove⟩ | ⟨_, hmove⟩ := t.move_cases m
    · rwa [hmove]
    · exact hchange ht hmove

theorem index_after (t : Task Req R) (ms : List (Move R)) : (t.after ms).index = t.index :=
  after_induction (P := fun u => u.index = t.index) rfl (fun h hu => hu.index_eq.trans h) ms

theorem request_after (t : Task Req R) (ms : List (Move R)) : (t.after ms).request = t.request :=
  after_induction (P := fun u => u.request = t.request) rfl (fun h hu => hu.request_eq.trans h) ms

theorem incarnation_le_after (t : Task Req R) (ms : List (Move R)) :
    t.incarnation ≤ (t.after ms).incarnation := by
  refine after_induction (P := fun u => t.incarnation ≤ u.incarnation) (Nat.le_refl _) ?_ ms
  intro u v m h hv
  obtain hv | ⟨_, hv⟩ := hv.incarnation <;> omega

/-- An abort that is not over, or that was retried, left its signal. -/
def Marked (t : Task Req R) : Prop :=
  t.status = .aborted ∨ 0 < t.incarnation → t.lastAbort.isSome

theorem Marked.change (h : t.Marked) (hu : t.Change m u) : u.Marked := by
  intro hcause
  cases hu with
  | execution _ _ _ => exact h (.inr (hcause.resolve_left (by simp [status])))
  | validate _ _ _ => exact h (.inr (hcause.resolve_left (by simp [status])))
  | abort _ _ => rfl
  | reject _ _ => rfl
  | retry haborted => exact h (.inl (status_eq_aborted.mpr haborted))

/-! ## The fields by themselves -/

theorem response?_isSome (t : Task Req R) : t.response?.isSome = t.status.hasResponse := by
  cases h : t.progress <;> simp [response?, result?, status, Status.hasResponse, h]

theorem round?_isSome (t : Task Req R) : t.round?.isSome = t.status.hasResponse := by
  cases h : t.progress <;> simp [round?, result?, status, Status.hasResponse, h]

/-- The scheduling record with each field by itself. Nothing in the type ties them together. -/
structure Fields (Req R : Type) where
  index : Nat
  request : Req
  incarnation : Nat := 0
  status : Status := .pending
  response : Option R := none
  round : Option Nat := none
  lastAbort : Option AbortSignal := none
deriving Repr, DecidableEq

namespace Fields

def discard (r : Fields Req R) (signal : AbortSignal) : Fields Req R :=
  { r with status := .aborted, response := none, round := none, lastAbort := some signal }

/-- A move as an update in place, with whether it was accepted. -/
def move (r : Fields Req R) : Move R → Fields Req R × Bool
  | .execution incarnation round response =>
    if incarnation ≠ r.incarnation ∨ r.status ≠ .pending then (r, false)
    else ({ r with status := .executed, response := some response, round := some round }, true)
  | .abort incarnation signal =>
    if incarnation ≠ r.incarnation ∨ r.status ≠ .pending then (r, false)
    else (r.discard signal, true)
  | .validate =>
    match r.status with
    | .executed | .validated => ({ r with status := .validated }, true)
    | .pending | .aborted => (r, false)
  | .reject signal => if r.status.hasResponse then (r.discard signal, true) else (r, false)
  | .retry =>
    if r.status ≠ .aborted then (r, false)
    else
      ({ r with
          incarnation := r.incarnation + 1
          status := .pending
          response := none
          round := none }, true)

def after (r : Fields Req R) (ms : List (Move R)) : Fields Req R :=
  ms.foldl (fun r m => (r.move m).1) r

end Fields

def fields (t : Task Req R) : Fields Req R where
  index := t.index
  request := t.request
  incarnation := t.incarnation
  status := t.status
  response := t.response?
  round := t.round?
  lastAbort := t.lastAbort

/-- The two records make the same moves, accept the same ones and end with the same fields. -/
theorem fields_move (t : Task Req R) (m : Move R) :
    t.fields.move m = ((t.move m).fields, (t.move? m).isSome) := by
  obtain ⟨index, request, incarnation, progress, lastAbort⟩ := t
  cases m with
  | execution i round response =>
    by_cases hi : i = incarnation <;> cases progress <;>
      simp [Fields.move, fields, move, move?, awaits, status, response?, round?, result?, hi]
  | abort i signal =>
    by_cases hi : i = incarnation <;> cases progress <;>
      simp [Fields.move, Fields.discard, fields, move, move?, awaits, discard, status, response?,
        round?, result?, hi]
  | validate => cases progress <;> rfl
  | reject signal => cases progress <;> rfl
  | retry => cases progress <;> rfl

theorem fields_after (t : Task Req R) (ms : List (Move R)) :
    t.fields.after ms = (t.after ms).fields := by
  induction ms generalizing t with
  | nil => rfl
  | cons m ms ih =>
    rw [Fields.after, List.foldl_cons, fields_move]
    exact ih (t.move m)

/-- Whatever is tried on a new task, the record of separate fields that goes through the same moves
stays equal to it; a response and its round are there exactly while it is executed or validated; an
abort leaves its signal, also behind a retry; index and request stay. From there, a next move
raises the incarnation only as an accepted retry, by one, and changes the status only along
`Status.next`, and one that is refused changes no field at all. -/
theorem sound_after (index : Nat) (request : Req) (ms : List (Move R)) :
    let t : Task Req R := after { index, request } ms
    t.fields = Fields.after { index, request } ms ∧
    (t.response?.isSome ↔ t.round?.isSome) ∧
    (t.round?.isSome ↔ t.status = .executed ∨ t.status = .validated) ∧
    (t.status = .aborted ∨ 0 < t.incarnation → t.lastAbort.isSome) ∧
    t.index = index ∧ t.request = request ∧
    (∀ ns, t.incarnation ≤ (t.after ns).incarnation) ∧
    ∀ m, t.fields.move m = ((t.move m).fields, (t.move? m).isSome) ∧
      ((t.move m).incarnation = t.incarnation ∨
        m = .retry ∧ (t.move? m).isSome ∧ (t.move m).incarnation = t.incarnation + 1) ∧
      ((t.move m).status = t.status ∨ (t.move m).status ∈ t.status.next) ∧
      (t.move? m = none → (t.move m).fields = t.fields) := by
  intro t
  refine ⟨(fields_after _ ms).symm, ?_, ?_, ?_, index_after _ ms, request_after _ ms,
    t.incarnation_le_after, fun m => ⟨t.fields_move m, ?_⟩⟩
  · rw [response?_isSome, round?_isSome]
  · rw [round?_isSome]
    cases t.status <;> simp [Status.hasResponse]
  · have hnew : Marked ({ index, request } : Task Req R) := by simp [Marked, status]
    exact after_induction hnew Marked.change ms
  obtain ⟨hnone, hmove⟩ | ⟨hsome, hchange⟩ := t.move_cases m
  · rw [hmove]
    exact ⟨.inl rfl, .inl rfl, fun _ => rfl⟩
  · refine ⟨?_, hchange.status_mem, fun hnone => by simp [hnone] at hsome⟩
    obtain hsame | ⟨hretry, hnext⟩ := hchange.incarnation
    · exact .inl hsame
    · exact .inr ⟨hretry, hsome, hnext⟩

end Task

end TxBatch
