import TxBatch.Proofs.Phase.Parties

/-!
# Courses of a phase

All that can happen while the parties of a phase are at work, one event after the other: a party
moves, the producer finds that nobody is left to receive its jobs, or somebody outside cancels the
batch (`Protocol.Happens`). What has happened so far is a course, and it remembers whose calls have
begun (`Protocol.Course`).

Two things hold all along. Nothing gets lost and the queues are wide enough (`Stocked`); and whoever
is gone has a reason, which is a disturbance of the batch or that no work is left (`Orderly`). A
reason stays one whatever happens later (`Moved.later`), so only the party that goes has to give it.
-/

namespace TxBatch

variable {S Req R : Type}

namespace Protocol

/-- The job whose call begins when a party moves: that of an idle worker that finds one. -/
def begins (p : Protocol S Req R) : Party → Option (Job Req)
  | .worker place =>
    match p.workers[place]? with
    | some .idle => if p.scopeCancelled then none else p.queue.head?
    | _ => none
  | .producer => none
  | .joinProducer => none
  | .joinWorker _ => none

def cancel (p : Protocol S Req R) : Protocol S Req R :=
  { p with world := { p.world with cancelled := true } }

/-- What can happen next, with the job whose call begins by it. -/
inductive Happens (executor : Executor S Req R) (p : Protocol S Req R) :
    Option (Job Req) → Protocol S Req R → Prop
  | move {q : Protocol S Req R} (party : Party) (h : p.move? executor party = some q) :
      Happens executor p (p.begins party) q
  /-- Every worker is gone, so the producer cannot get rid of its next job. It ends, and that is no
  error. -/
  | desert (hproducer : p.producer = .sending) (hunsent : p.unsent ≠ [])
      (hgone : ∀ w ∈ p.workers, w.present = false) :
      Happens executor p none { p with producer := .ended none }
  | cancel (h : p.world.cancelled = false) : Happens executor p none p.cancel

/-- What can come after a start, with the jobs whose calls have begun, oldest first. -/
inductive Course (executor : Executor S Req R) (first : Protocol S Req R) :
    List (Job Req) → Protocol S Req R → Prop
  | start : Course executor first [] first
  | happens {started : List (Job Req)} {p q : Protocol S Req R} {job? : Option (Job Req)} :
      Course executor first started p → Happens executor p job? q →
        Course executor first (started ++ job?.toList) q

variable {executor : Executor S Req R} {first p q : Protocol S Req R} {started : List (Job Req)}

theorem Course.invariant {I : Protocol S Req R → Prop}
    (hmoved : ∀ {p q}, Moved executor p q → I p → I q)
    (hdesert : ∀ {p : Protocol S Req R}, p.producer = .sending →
      (∀ w ∈ p.workers, w.present = false) → I p → I { p with producer := .ended none })
    (hcancel : ∀ {p}, I p → I p.cancel) (hfirst : I first)
    (h : Course executor first started p) : I p := by
  induction h with
  | start => exact hfirst
  | happens _ hhappens ih =>
      cases hhappens with
      | move party hmove => exact hmoved (moved_of_move? hmove) ih
      | desert hproducer _ hgone => exact hdesert hproducer hgone ih
      | cancel _ => exact hcancel ih

/-! ## Calls begin in the order of the jobs -/

theorem waiting_of_produce? (h : p.produce? = some q) :
    q.queue ++ q.unsent = p.queue ++ p.unsent := by
  unfold produce? at h
  split at h
  · split at h
    · cases h
      rfl
    · rename_i job rest hunsent
      split at h
      · cases h
        rfl
      · split at h
        · cases h
          rw [hunsent]
          exact List.append_assoc p.queue [job] rest
        · cases h
  · cases h
  · cases h

theorem waiting_of_work? {place : Nat} (h : p.work? executor place = some q) :
    (p.begins (.worker place)).toList ++ (q.queue ++ q.unsent) = p.queue ++ p.unsent := by
  unfold work? at h
  unfold begins
  split at h
  · rename_i hworker
    simp only [hworker]
    split at h
    · rename_i hscope
      cases h
      rw [if_pos hscope]
      rfl
    · rename_i hscope
      rw [if_neg hscope]
      split at h
      · rename_i hqueue
        cases h
        rw [hqueue]
        rfl
      · rename_i hqueue
        rw [hqueue]
        split at h
        · cases h
        · cases h
          exact congrArg (· ++ p.unsent) hqueue
  · rename_i job result hworker
    cases h
    simp only [hworker]
    cases result <;> rfl
  · rename_i hworker
    cases h
    simp only [hworker]
    rfl
  · rename_i hworker
    split at h
    · cases h
      simp only [hworker]
      rfl
    · cases h
  · cases h
  · cases h
  · cases h

/-- The jobs that wait for their calls to begin lose their first one when it begins, and none
otherwise. -/
theorem Happens.waiting {job? : Option (Job Req)} (h : Happens executor p job? q) :
    job?.toList ++ (q.queue ++ q.unsent) = p.queue ++ p.unsent := by
  cases h with
  | desert => rfl
  | cancel => rfl
  | move party hmove =>
      cases party with
      | producer => exact waiting_of_produce? hmove
      | worker place => exact waiting_of_work? hmove
      | joinProducer =>
          simp only [move?, joinProducer?] at hmove
          split at hmove <;> cases hmove
          rfl
      | joinWorker place =>
          simp only [move?, joinWorker?] at hmove
          split at hmove <;> cases hmove
          rfl

/-- **Calls begin in the order of the jobs**, and no job begins twice. -/
theorem Course.waiting (h : Course executor first started p) :
    started ++ (p.queue ++ p.unsent) = first.queue ++ first.unsent := by
  induction h with
  | start => rfl
  | happens _ hhappens ih => rw [List.append_assoc, hhappens.waiting, ih]

/-! ## Nothing gets lost -/

/-- Every job is somewhere, the queue of jobs has room for one job a worker, and that of outcomes
for all. -/
structure Stocked (all : List (Job Req)) (staff : Nat) (p : Protocol S Req R) : Prop where
  places : p.places.Perm all
  workers : p.workers.length = staff
  queueRoom : p.queueRoom = staff
  outcomeRoom : p.outcomeRoom = all.length
  queue : p.queue.length ≤ p.queueRoom

theorem stocked_start (workers : Int64) (world : World S) (tasks : List (Task Req R)) :
    Stocked (jobs tasks) (effectiveWorkers workers (jobs tasks).length)
      (start workers world tasks) where
  places := by rw [places_start]
  workers := List.length_replicate
  queueRoom := rfl
  outcomeRoom := rfl
  queue := Nat.zero_le _

variable {all : List (Job Req)} {staff : Nat}

theorem perm_middle_append {α : Type} (a : α) (xs ys zs : List α) :
    (xs ++ (ys ++ a :: zs)).Perm (a :: (xs ++ (ys ++ zs))) :=
  (List.perm_middle.append_left xs).trans List.perm_middle

theorem Stocked.worker {place : Nat} {w w' : Worker S Req R} (h : Stocked all staff p)
    (hworker : p.workers[place]? = some w) (hworkers : q.workers = p.workers.set place w')
    (hunsent : q.unsent = p.unsent) (hqueueRoom : q.queueRoom = p.queueRoom)
    (houtcomeRoom : q.outcomeRoom = p.outcomeRoom) (hqueue : q.queue.length ≤ p.queue.length)
    (hheld : ∀ others, (q.queue ++ (w'.held ++ others ++ (q.outcomes.map (·.1) ++ q.spent))).Perm
      (p.queue ++ (w.held ++ others ++ (p.outcomes.map (·.1) ++ p.spent)))) :
    Stocked all staff q := by
  obtain ⟨rest, hperm, hperm'⟩ := perm_set hworker w'
  rw [← hworkers] at hperm'
  have hsplit : ∀ {workers : List (Worker S Req R)} {w : Worker S Req R} (behind),
      workers.Perm (w :: rest) → (workers.flatMap Worker.held ++ behind).Perm
        (w.held ++ rest.flatMap Worker.held ++ behind) := fun behind h =>
    (h.flatMap_right Worker.held).append_right behind
  refine ⟨List.Perm.trans ?_ h.places, ?_, hqueueRoom.trans h.queueRoom,
    houtcomeRoom.trans h.outcomeRoom, ?_⟩
  · rw [Protocol.places, Protocol.places, hunsent]
    refine List.Perm.append_left _ ?_
    exact (((hsplit _ hperm').append_left _).trans (hheld _)).trans
      ((hsplit _ hperm).symm.append_left _)
  · rw [hworkers, List.length_set, h.workers]
  · rw [hqueueRoom]
    exact Nat.le_trans hqueue h.queue

theorem Stocked.moved (h : Moved executor p q) (hp : Stocked all staff p) :
    Stocked all staff q := by
  cases h with
  | @send job rest hproducer hscope hunsent hroom =>
      refine ⟨List.Perm.trans ?_ hp.places, hp.workers, hp.queueRoom, hp.outcomeRoom, ?_⟩
      · simpa [Protocol.places, hunsent] using perm_middle_append job rest p.queue
          (p.workers.flatMap Worker.held ++ (p.outcomes.map (·.1) ++ p.spent))
      · rw [List.length_append]
        exact hroom
  | close hproducer hends => exact { hp with }
  | @take place job rest hworker hscope hqueue =>
      refine hp.worker hworker rfl rfl rfl rfl ?_ fun others => ?_
      · rw [hqueue]
        exact Nat.le_succ _
      · rw [hqueue]
        exact List.perm_middle
  | leave hworker hends =>
      exact hp.worker hworker rfl rfl rfl rfl (Nat.le_refl _) fun others => .refl _
  | step hworker =>
      exact hp.worker hworker rfl rfl rfl rfl (Nat.le_refl _) fun others => .refl _
  | finish hworker houtcome =>
      exact hp.worker hworker rfl rfl rfl rfl (Nat.le_refl _) fun others => .refl _
  | @lose place job result error hworker herror =>
      refine hp.worker hworker rfl rfl rfl rfl (Nat.le_refl _) fun others =>
        List.Perm.append_left _ ?_
      simpa [Worker.held, setWorker] using
        perm_middle_append job others (p.outcomes.map (·.1) ++ p.spent) []
  | @report place job outcome hworker hroom =>
      refine hp.worker hworker rfl rfl rfl rfl (Nat.le_refl _) fun others =>
        List.Perm.append_left _ ?_
      simpa [Worker.held, setWorker] using
        perm_middle_append job others (p.outcomes.map (·.1)) p.spent
  | joinProducer hproducer => exact { hp with }
  | joinWorker hworker =>
      exact hp.worker hworker rfl rfl rfl rfl (Nat.le_refl _) fun others => .refl _

/-! ## Whoever is gone has a reason -/

/-- Something has gone wrong: the batch was cancelled, or a call has come to no outcome. -/
def Disturbed (p : Protocol S Req R) : Prop := p.world.cancelled = true ∨ p.spent ≠ []

/-- No worker will take a job any more: the parent has closed the scope, or no job is left. -/
def Over (p : Protocol S Req R) : Prop :=
  p.closed = true ∨ p.producer ≠ .sending ∧ p.queue = []

/-- The reason that a worker is gone, if it is. -/
def Excused (p : Protocol S Req R) : Worker S Req R → Prop
  | .ended (some _) => p.Disturbed
  | .ended none => p.Over
  | .joined => p.Over
  | .idle => True
  | .calling _ _ => True
  | .reporting _ _ => True

/-- What the parties of a phase have met with. -/
structure Orderly (p : Protocol S Req R) : Prop where
  failure : p.closed = p.failure.isSome
  closed : p.closed = true → p.Disturbed
  producer : ∀ {error}, p.producer = .ended (some error) → p.Disturbed
  unsent : p.producer ≠ .sending → p.unsent = [] ∨ p.Disturbed
  workers : ∀ w ∈ p.workers, p.Excused w

theorem orderly_start (workers : Int64) (world : World S) (tasks : List (Task Req R)) :
    Orderly (start workers world tasks) where
  failure := rfl
  closed := fun h => by cases h
  producer := fun h => by cases h
  unsent := fun h => absurd rfl h
  workers := fun w hw => by
    rw [List.eq_of_mem_replicate hw]
    trivial

theorem Orderly.disturbed_of_scopeCancelled (h : Orderly p) (hscope : p.scopeCancelled = true) :
    p.Disturbed := by
  rcases scopeCancelled_iff.mp hscope with hcancelled | hclosed
  · exact .inl hcancelled
  · exact h.closed hclosed

/-- What was a reason stays one. -/
structure Later (p q : Protocol S Req R) : Prop where
  disturbed : p.Disturbed → q.Disturbed
  isOver : p.Over → q.Over

theorem Later.excused (h : Later p q) {w : Worker S Req R} (hw : p.Excused w) : q.Excused w := by
  cases w with
  | idle => trivial
  | calling job call => trivial
  | reporting job outcome => trivial
  | ended error =>
      cases error with
      | none => exact h.isOver hw
      | some error => exact h.disturbed hw
  | joined => exact h.isOver hw

theorem Moved.later (h : Moved executor p q) : Later p q := by
  -- Only the producer and the queue can spoil a reason, and it speaks of a producer that has ended.
  cases h with
  | send hproducer hscope hunsent hroom =>
      exact ⟨id, fun hover => hover.imp_right fun ⟨hsent, _⟩ => absurd hproducer hsent⟩
  | close hproducer hends =>
      exact ⟨id, fun hover => hover.imp_right fun ⟨hsent, _⟩ => absurd hproducer hsent⟩
  | take hworker hscope hqueue =>
      refine ⟨id, fun hover => hover.imp_right fun ⟨_, hempty⟩ => ?_⟩
      cases hqueue.symm.trans hempty
  | leave hworker hends => exact ⟨id, id⟩
  | step hworker =>
      exact ⟨fun h => h.imp_left fun hcancelled => by simp [World.apply, hcancelled], id⟩
  | finish hworker houtcome => exact ⟨id, id⟩
  | lose hworker herror => exact ⟨fun h => h.imp_right fun _ => by simp, id⟩
  | report hworker hroom => exact ⟨id, id⟩
  | joinProducer hproducer =>
      refine ⟨id, fun hover => ?_⟩
      rcases hover with hclosed | ⟨-, hempty⟩
      · exact .inl (by simp [hear, hclosed])
      · exact .inr ⟨fun h => (by cases h), hempty⟩
  | joinWorker hworker =>
      exact ⟨id, fun hover => hover.imp_left fun hclosed => by simp [hear, setWorker, hclosed]⟩

theorem Orderly.excused (h : Orderly p) (hlater : Later p q) : ∀ w ∈ p.workers, q.Excused w :=
  fun w hw => hlater.excused (h.workers w hw)

/-- The parent hears of no error without a disturbance. -/
theorem Orderly.disturbed_of_hear (h : Orderly p) {error : Option BatchError}
    (herror : ∀ {e}, error = some e → p.Disturbed) (hclosed : (p.hear error).closed = true) :
    p.Disturbed := by
  cases error with
  | none => exact h.closed (by simpa [hear] using hclosed)
  | some error => exact herror rfl

/-- A worker moves, and if it goes it has a reason. -/
theorem Orderly.worker {place : Nat} {w' : Worker S Req R} (h : Orderly p) (hlater : Later p q)
    (hworkers : q.workers = p.workers.set place w') (hproducer : q.producer = p.producer)
    (hunsent : q.unsent = p.unsent) (hfailure : q.closed = q.failure.isSome)
    (hclosed : q.closed = true → q.Disturbed) (hexcused : q.Excused w') : Orderly q where
  failure := hfailure
  closed := hclosed
  producer := fun hended => hlater.disturbed (h.producer (hproducer ▸ hended))
  unsent := fun hsent => by
    rw [hunsent]
    exact (h.unsent (hproducer ▸ hsent)).imp_right hlater.disturbed
  workers := fun w hw => by
    rw [hworkers] at hw
    rcases List.mem_or_eq_of_mem_set hw with hold | rfl
    · exact h.excused hlater w hold
    · exact hexcused

theorem Orderly.moved (h : Moved executor p q) (hp : Orderly p) : Orderly q := by
  have hlater := h.later
  have hsame : q.closed = p.closed → q.closed = true → q.Disturbed := fun hclosed hq =>
    hlater.disturbed (hp.closed (hclosed ▸ hq))
  cases h with
  | send hproducer hscope hunsent hroom =>
      exact ⟨hp.failure, hp.closed, hp.producer, fun hsent => absurd hproducer hsent,
        hp.excused hlater⟩
  | close hproducer hends =>
      refine ⟨hp.failure, hp.closed, fun hended => ?_, fun _ => ?_, hp.excused hlater⟩
      · cases hended
        rcases hends with ⟨hnone, -⟩ | ⟨-, hscope⟩
        · cases hnone
        · exact hp.disturbed_of_scopeCancelled hscope
      · rcases hends with ⟨-, hunsent⟩ | ⟨-, hscope⟩
        · exact .inl hunsent
        · exact .inr (hp.disturbed_of_scopeCancelled hscope)
  | take hworker hscope hqueue =>
      exact hp.worker hlater rfl rfl rfl hp.failure hp.closed trivial
  | leave hworker hends =>
      refine hp.worker hlater rfl rfl rfl hp.failure hp.closed ?_
      rcases hends with ⟨rfl, -, hqueue, hproducer⟩ | ⟨rfl, hscope⟩
      · exact .inr ⟨hproducer, hqueue⟩
      · exact hp.disturbed_of_scopeCancelled hscope
  | step hworker => exact hp.worker hlater rfl rfl rfl hp.failure (hsame rfl) trivial
  | finish hworker houtcome => exact hp.worker hlater rfl rfl rfl hp.failure hp.closed trivial
  | lose hworker herror =>
      exact hp.worker hlater rfl rfl rfl hp.failure (hsame rfl) (.inr (by simp))
  | report hworker hroom => exact hp.worker hlater rfl rfl rfl hp.failure hp.closed trivial
  | @joinProducer error hproducer =>
      refine ⟨closed_hear hp.failure error, fun hclosed => ?_, fun hended => (by cases hended),
        fun _ => ?_, hp.excused hlater⟩
      · exact hp.disturbed_of_hear (fun herror => hp.producer (herror ▸ hproducer)) hclosed
      · exact hp.unsent (by rw [hproducer]; exact fun h => by cases h)
  | @joinWorker place error hworker =>
      have hexcused : p.Excused (.ended error) := hp.workers _ (List.mem_of_getElem? hworker)
      refine hp.worker hlater rfl rfl rfl (closed_hear hp.failure error) (fun hclosed => ?_) ?_
      · refine hp.disturbed_of_hear (fun herror => ?_) hclosed
        rw [herror] at hexcused
        exact hexcused
      · cases error with
        | none => exact hlater.isOver hexcused
        | some error => exact .inl (by simp [hear, setWorker])

/-! ## What holds all along -/

/-- Nobody is gone before the producer has ended, unless something has gone wrong. -/
theorem Orderly.disturbed_of_gone (h : Orderly p) (hproducer : p.producer = .sending)
    {w : Worker S Req R} (hw : w ∈ p.workers) (hgone : w.present = false) : p.Disturbed := by
  have hover : p.Over → p.Disturbed := fun hover =>
    h.closed (hover.resolve_right fun hsent => hsent.1 hproducer)
  have hexcused : p.Excused w := h.workers w hw
  cases w with
  | idle => cases hgone
  | calling job call => cases hgone
  | reporting job outcome => cases hgone
  | ended error =>
      cases error with
      | none => exact hover hexcused
      | some error => exact hexcused
  | joined => exact hover hexcused

theorem Orderly.desert (h : Orderly p) (hproducer : p.producer = .sending)
    (hdisturbed : p.Disturbed) : Orderly { p with producer := .ended none } where
  failure := h.failure
  closed := h.closed
  producer := fun hended => by cases hended
  unsent := fun _ => .inr hdisturbed
  workers := h.excused
    ⟨id, fun hover => hover.imp_right fun hsent => absurd hproducer hsent.1⟩

theorem Orderly.cancel (h : Orderly p) : Orderly p.cancel where
  failure := h.failure
  closed := fun _ => .inl rfl
  producer := fun _ => .inl rfl
  unsent := fun _ => .inr (.inl rfl)
  workers := h.excused ⟨fun _ => .inl rfl, id⟩

variable {workers : Int64} {world : World S} {tasks : List (Task Req R)}

theorem effectiveWorkers_jobs_pos (workers : Int64) (hjobs : jobs tasks ≠ []) :
    0 < effectiveWorkers workers (jobs tasks).length :=
  effectiveWorkers_pos (List.length_pos_of_ne_nil hjobs)

theorem Course.orderly (hjobs : jobs tasks ≠ [])
    (h : Course executor (Protocol.start workers world tasks) started p) :
    Stocked (jobs tasks) (effectiveWorkers workers (jobs tasks).length) p ∧ Orderly p := by
  have hstaff := effectiveWorkers_jobs_pos workers hjobs
  refine h.invariant (I := fun p =>
      Stocked (jobs tasks) (effectiveWorkers workers (jobs tasks).length) p ∧ Orderly p)
    (fun hmoved hp => ⟨hp.1.moved hmoved, hp.2.moved hmoved⟩) (fun hproducer hgone hp => ?_)
    (fun hp => ⟨{ hp.1 with }, hp.2.cancel⟩) ⟨stocked_start .., orderly_start ..⟩
  obtain ⟨hstocked, horderly⟩ := hp
  obtain ⟨w, hw⟩ := List.exists_mem_of_length_pos (hstocked.workers ▸ hstaff)
  have hdisturbed := horderly.disturbed_of_gone hproducer hw (hgone w hw)
  exact ⟨{ hstocked with }, horderly.desert hproducer hdisturbed⟩

end Protocol

end TxBatch
