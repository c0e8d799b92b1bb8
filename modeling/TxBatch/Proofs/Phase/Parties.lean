import TxBatch.Proofs.Phase.Blame

/-!
# How the parties of a phase move

Every way in which one party can move (`Protocol.Moved`), and what holds of the parties at any time
(`Protocol.Sound`). A party gives up only under a cancelled scope. Whoever ends without an error has
nothing left to do. And a cancellation does not go unheard: from the call that makes it on there is
a worker that has yet to look at the scope, or a party that ended with an error, or an error that
the parent has met.
-/

namespace TxBatch

variable {S Req R : Type}

theorem perm_set {α : Type} {l : List α} {place : Nat} {a : α} (h : l[place]? = some a) (a' : α) :
    ∃ rest, l.Perm (a :: rest) ∧ (l.set place a').Perm (a' :: rest) :=
  ⟨l.eraseIdx place, Phase.perm_cons_eraseIdx h,
    List.set_perm_cons_eraseIdx (List.getElem?_eq_some_iff.mp h).1 a'⟩

/-- The worker is not gone. -/
def Worker.present : Worker S Req R → Bool
  | .idle => true
  | .calling _ _ => true
  | .reporting _ _ => true
  | .ended _ => false
  | .joined => false

namespace Protocol

/-- The moves of the parties, one at a time. -/
inductive Moved (executor : Executor S Req R) (p : Protocol S Req R) : Protocol S Req R → Prop
  | send {job : Job Req} {rest : List (Job Req)} (hproducer : p.producer = .sending)
      (hscope : p.scopeCancelled = false) (hunsent : p.unsent = job :: rest)
      (hroom : p.queue.length < p.queueRoom) :
      Moved executor p { p with unsent := rest, queue := p.queue ++ [job] }
  | close {error : Option BatchError} (hproducer : p.producer = .sending)
      (hends : error = none ∧ p.unsent = [] ∨
        error = some .cancelled ∧ p.scopeCancelled = true) :
      Moved executor p { p with producer := .ended error }
  | take {place : Nat} {job : Job Req} {rest : List (Job Req)}
      (hworker : p.workers[place]? = some .idle) (hscope : p.scopeCancelled = false)
      (hqueue : p.queue = job :: rest) :
      Moved executor p { p.setWorker place (.calling job (executor job.request job.version)) with
        queue := rest }
  | leave {place : Nat} {error : Option BatchError} (hworker : p.workers[place]? = some .idle)
      (hends : error = none ∧ p.scopeCancelled = false ∧ p.queue = [] ∧ p.producer ≠ .sending ∨
        error = some .cancelled ∧ p.scopeCancelled = true) :
      Moved executor p (p.setWorker place (.ended error))
  | step {place : Nat} {job : Job Req} {effect : World S → Effect S} {next : World S → Call S R}
      (hworker : p.workers[place]? = some (.calling job (.step effect next))) :
      Moved executor p { p.setWorker place (.calling job (next p.world)) with
        world := p.world.apply (effect p.world) }
  | finish {place : Nat} {job : Job Req} {result : CallEnd R} {outcome : Outcome R}
      (hworker : p.workers[place]? = some (.calling job (.finish result)))
      (houtcome : result.outcome? = some outcome) :
      Moved executor p (p.setWorker place (.reporting job outcome))
  | lose {place : Nat} {job : Job Req} {result : CallEnd R} {error : BatchError}
      (hworker : p.workers[place]? = some (.calling job (.finish result)))
      (herror : result.error? job = some error) :
      Moved executor p { p.setWorker place (.ended (some error)) with spent := p.spent ++ [job] }
  | report {place : Nat} {job : Job Req} {outcome : Outcome R}
      (hworker : p.workers[place]? = some (.reporting job outcome))
      (hroom : p.outcomes.length < p.outcomeRoom) :
      Moved executor p { p.setWorker place .idle with
        outcomes := p.outcomes ++ [(job, outcome)] }
  | joinProducer {error : Option BatchError} (hproducer : p.producer = .ended error) :
      Moved executor p { p.hear error with producer := .joined }
  | joinWorker {place : Nat} {error : Option BatchError}
      (hworker : p.workers[place]? = some (.ended error)) :
      Moved executor p ((p.hear error).setWorker place .joined)

variable {executor : Executor S Req R} {p q : Protocol S Req R}

theorem moved_of_produce? (h : p.produce? = some q) : Moved executor p q := by
  unfold produce? at h
  split at h
  · rename_i hproducer
    split at h
    · rename_i hunsent
      cases h
      exact .close hproducer (.inl ⟨rfl, hunsent⟩)
    · rename_i job rest hunsent
      split at h
      · rename_i hscope
        cases h
        exact .close hproducer (.inr ⟨rfl, hscope⟩)
      · rename_i hscope
        split at h
        · rename_i hroom
          cases h
          exact .send hproducer (by simpa using hscope) hunsent hroom
        · cases h
  · cases h
  · cases h

theorem moved_of_work? {place : Nat} (h : p.work? executor place = some q) :
    Moved executor p q := by
  unfold work? at h
  split at h
  · rename_i hworker
    split at h
    · rename_i hscope
      cases h
      exact .leave hworker (.inr ⟨rfl, hscope⟩)
    · rename_i hscope
      have hopen : p.scopeCancelled = false := by simpa using hscope
      split at h
      · rename_i job rest hqueue
        cases h
        exact .take hworker hopen hqueue
      · rename_i hqueue
        split at h
        · cases h
        · rename_i hproducer
          cases h
          exact .leave hworker (.inl ⟨rfl, hopen, hqueue, hproducer⟩)
  · rename_i job result hworker
    cases h
    cases result with
    | returned response => exact .finish hworker rfl
    | aborted signal => exact .finish hworker rfl
    | failed reason => exact .lose hworker rfl
    | crashed report => exact .lose hworker rfl
  · rename_i hworker
    cases h
    exact .step hworker
  · rename_i hworker
    split at h
    · rename_i hroom
      cases h
      exact .report hworker hroom
    · cases h
  · cases h
  · cases h
  · cases h

theorem moved_of_move? {party : Party} (h : p.move? executor party = some q) :
    Moved executor p q := by
  cases party with
  | producer => exact moved_of_produce? h
  | worker place => exact moved_of_work? h
  | joinProducer =>
      simp only [move?, joinProducer?] at h
      split at h
      · rename_i hproducer
        cases h
        exact .joinProducer hproducer
      · cases h
      · cases h
  | joinWorker place =>
      simp only [move?, joinWorker?] at h
      split at h
      · rename_i hworker
        cases h
        exact .joinWorker hworker
      · cases h

theorem Reachable.invariant {I : Protocol S Req R → Prop} {first : Protocol S Req R}
    (hstep : ∀ {p q}, Moved executor p q → I p → I q) (hfirst : I first)
    (h : Reachable executor first p) : I p := by
  induction h with
  | start => exact hfirst
  | move party _ hmove ih => exact hstep (moved_of_move? hmove) ih

/-! ## What holds at any time -/

structure Sound (p : Protocol S Req R) : Prop where
  staffed : p.workers ≠ []
  closed : p.closed = p.failure.isSome
  producer : ∀ {error}, p.producer = .ended (some error) →
    error = .cancelled ∧ p.scopeCancelled = true
  unsent : p.producer = .sending ∨ (∃ error, p.producer = .ended (some error)) ∨
    p.failure.isSome ∨ p.unsent = []
  gaveUp : .ended (some .cancelled) ∈ p.workers → p.scopeCancelled = true
  left : .ended none ∈ p.workers ∨ .joined ∈ p.workers →
    p.failure.isSome ∨ p.producer ≠ .sending ∧ p.queue = []
  heard : p.world.cancelled = true → p.failure.isSome ∨
    ∃ w ∈ p.workers, w.present = true ∨ ∃ error, w = .ended (some error)

theorem sound_start {workers : Int64} {world : World S} {tasks : List (Task Req R)}
    (hjobs : jobs tasks ≠ []) (hworld : world.cancelled = false) :
    Sound (start workers world tasks) where
  staffed := by
    have hpos := @effectiveWorkers_pos workers _ (List.length_pos_of_ne_nil hjobs)
    exact List.ne_nil_of_length_pos (by simpa [start] using hpos)
  closed := rfl
  producer := fun h => by cases h
  unsent := .inl rfl
  gaveUp := fun h => by cases List.eq_of_mem_replicate h
  left := fun h => by
    rcases h with h | h <;> cases List.eq_of_mem_replicate h
  heard := fun h => by cases hworld.symm.trans h

theorem scopeCancelled_hear (p : Protocol S Req R) (error : Option BatchError) :
    (p.hear error).scopeCancelled = (p.scopeCancelled || error.isSome) := by
  rw [scopeCancelled_eq, scopeCancelled_eq]
  exact (Bool.or_assoc ..).symm

theorem failure_hear (p : Protocol S Req R) (error : Option BatchError) :
    (p.hear error).failure.isSome = (p.failure.isSome || error.isSome) :=
  Option.isSome_or

/-- The parent closes the scope for each error that it hears of, as it keeps the first one. -/
theorem closed_hear (hclosed : p.closed = p.failure.isSome) (error : Option BatchError) :
    (p.hear error).closed = (p.hear error).failure.isSome := by
  rw [failure_hear, ← hclosed]
  rfl

/-- The move of a worker that is not joined keeps the parties sound if the worker gives up under a
cancelled scope only, leaves with nothing left to do only, and lets no cancellation go unheard. -/
theorem Sound.worker {place : Nat} {w w' : Worker S Req R} (hp : Sound p)
    (hworker : p.workers[place]? = some w) (hworkers : q.workers = p.workers.set place w')
    (hproducer : q.producer = p.producer) (hunsent : q.unsent = p.unsent)
    (hclosed : q.closed = p.closed) (hfailure : q.failure = p.failure)
    (hworld : p.world.cancelled = true → q.world.cancelled = true)
    (hqueue : p.queue = [] → q.queue = [])
    (hgaveUp : w' = .ended (some .cancelled) → q.scopeCancelled = true)
    (hleft : w' = .ended none → q.producer ≠ .sending ∧ q.queue = []) (hjoined : w' ≠ .joined)
    (hheard : q.world.cancelled = true → w'.present = true ∨ ∃ error, w' = .ended (some error)) :
    Sound q := by
  obtain ⟨rest, hperm, hperm'⟩ := perm_set hworker w'
  rw [← hworkers] at hperm'
  have hscope : p.scopeCancelled = true → q.scopeCancelled = true := by
    rw [scopeCancelled_iff, scopeCancelled_iff, hclosed]
    exact Or.imp_left hworld
  have hold : ∀ w₀ ∈ rest, w₀ ∈ p.workers := fun w₀ hmem =>
    hperm.mem_iff.mpr (List.mem_cons_of_mem _ hmem)
  refine ⟨fun hnil => ?_, by rw [hclosed, hfailure, hp.closed], fun {error} hended => ?_, ?_,
    fun hmem => ?_, fun hmem => ?_, fun hcancelled => ?_⟩
  · rw [hnil] at hperm'
    cases hperm'.length_eq
  · obtain ⟨hcancelled, hgone⟩ := hp.producer (hproducer ▸ hended)
    exact ⟨hcancelled, hscope hgone⟩
  · rw [hproducer, hunsent, hfailure]
    exact hp.unsent
  · rcases List.mem_cons.mp (hperm'.mem_iff.mp hmem) with heq | hmem
    · exact hgaveUp heq.symm
    · exact hscope (hp.gaveUp (hold _ hmem))
  · rw [hproducer] at hleft ⊢
    rw [hfailure]
    have hrest : Worker.ended none ∈ p.workers ∨ Worker.joined ∈ p.workers →
        p.failure.isSome = true ∨ p.producer ≠ .sending ∧ q.queue = [] := fun h =>
      (hp.left h).imp_right fun ⟨hsent, hempty⟩ => ⟨hsent, hqueue hempty⟩
    rcases hmem with hmem | hmem
    · rcases List.mem_cons.mp (hperm'.mem_iff.mp hmem) with heq | hmem
      · exact .inr (hleft heq.symm)
      · exact hrest (.inl (hold _ hmem))
    · rcases List.mem_cons.mp (hperm'.mem_iff.mp hmem) with heq | hmem
      · exact absurd heq.symm hjoined
      · exact hrest (.inr (hold _ hmem))
  · exact .inr ⟨w', hperm'.mem_iff.mpr List.mem_cons_self, hheard hcancelled⟩

theorem Sound.joinProducer {error : Option BatchError} (hp : Sound p)
    (hproducer : p.producer = .ended error) : Sound { p.hear error with producer := .joined } where
  staffed := hp.staffed
  closed := closed_hear hp.closed error
  producer := fun hended => by cases hended
  unsent := by
    rcases hp.unsent with hsent | ⟨_, hended⟩ | hfailure | hunsent
    · cases hproducer.symm.trans hsent
    · cases hproducer.symm.trans hended
      exact .inr (.inr (.inl (by rw [failure_hear, Option.isSome_some, Bool.or_true])))
    · exact .inr (.inr (.inl (by rw [failure_hear, hfailure, Bool.true_or])))
    · exact .inr (.inr (.inr hunsent))
  gaveUp := fun hmem => by
    show (p.hear error).scopeCancelled = true
    rw [scopeCancelled_hear, hp.gaveUp hmem, Bool.true_or]
  left := fun hmem =>
    (hp.left hmem).imp (fun hfailure => by rw [failure_hear, hfailure, Bool.true_or])
      fun hempty => ⟨fun h => (by cases h), hempty.2⟩
  heard := fun hcancelled =>
    (hp.heard hcancelled).imp_left fun hfailure => by rw [failure_hear, hfailure, Bool.true_or]

/-- Of a worker that left without an error the parent learns nothing; of another one it learns the
error. -/
theorem Sound.joinWorker {place : Nat} {error : Option BatchError} (hp : Sound p)
    (hworker : p.workers[place]? = some (.ended error)) :
    Sound ((p.hear error).setWorker place .joined) := by
  obtain ⟨rest, hperm, hperm'⟩ := perm_set hworker .joined
  have hold : ∀ w₀ ∈ rest, w₀ ∈ p.workers := fun w₀ hmem =>
    hperm.mem_iff.mpr (List.mem_cons_of_mem _ hmem)
  have hfailed : p.failure.isSome = true → (p.hear error).failure.isSome = true := fun h => by
    rw [failure_hear, h, Bool.true_or]
  have hmet : ∀ {e}, error = some e → (p.hear error).failure.isSome = true := fun h => by
    rw [failure_hear, h, Option.isSome_some, Bool.or_true]
  have hscope : p.scopeCancelled = true → (p.hear error).scopeCancelled = true := fun h => by
    rw [scopeCancelled_hear, h, Bool.true_or]
  refine {
    staffed := fun hnil => ?_
    closed := closed_hear hp.closed error
    producer := fun hended => (hp.producer hended).imp_right hscope
    unsent := hp.unsent.imp_right (Or.imp_right (Or.imp_left hfailed))
    gaveUp := fun hmem => ?_
    left := fun _ => ?_
    heard := fun hcancelled => ?_ }
  · rw [show p.workers.set place .joined = [] from hnil] at hperm'
    cases hperm'.length_eq
  · rcases List.mem_cons.mp (hperm'.mem_iff.mp hmem) with heq | hmem
    · cases heq
    · exact hscope (hp.gaveUp (hold _ hmem))
  · cases error with
    | none => exact (hp.left (.inl (List.mem_of_getElem? hworker))).imp_left hfailed
    | some error => exact .inl (hmet rfl)
  · cases error with
    | some error => exact .inl (hmet rfl)
    | none =>
        refine (hp.heard hcancelled).imp hfailed ?_
        rintro ⟨w, hmem, hw⟩
        rcases List.mem_cons.mp (hperm.mem_iff.mp hmem) with rfl | hmem
        · rcases hw with hpresent | ⟨error, heq⟩
          · cases hpresent
          · cases heq
        · exact ⟨w, hperm'.mem_iff.mpr (List.mem_cons_of_mem _ hmem), hw⟩

theorem Sound.moved (h : Moved executor p q) (hp : Sound p) : Sound q := by
  have hsending : p.producer = .sending → .ended none ∈ p.workers ∨ .joined ∈ p.workers →
      p.failure.isSome = true := fun hproducer hmem =>
    (hp.left hmem).resolve_right fun hsent => hsent.1 hproducer
  cases h with
  | send hproducer hscope hunsent hroom =>
      exact { hp with
        producer := fun hended => by cases hproducer.symm.trans hended
        unsent := .inl hproducer
        left := fun hmem => .inl (hsending hproducer hmem) }
  | close hproducer hends =>
      refine { hp with
        producer := fun hended => ?_
        unsent := ?_
        left := fun hmem => .inl (hsending hproducer hmem) }
      · cases hended
        rcases hends with ⟨hnone, -⟩ | ⟨hsome, hscope⟩
        · cases hnone
        · exact ⟨Option.some.inj hsome, hscope⟩
      · rcases hends with ⟨rfl, hunsent⟩ | ⟨rfl, -⟩
        · exact .inr (.inr (.inr hunsent))
        · exact .inr (.inl ⟨_, rfl⟩)
  | take hworker hscope hqueue =>
      refine hp.worker hworker rfl rfl rfl rfl rfl id (fun hempty => ?_) (fun h => by cases h)
        (fun h => by cases h) (fun h => by cases h) fun _ => .inl rfl
      cases hqueue.symm.trans hempty
  | leave hworker hends =>
      rcases hends with ⟨rfl, hscope, hqueue, hproducer⟩ | ⟨rfl, hscope⟩
      · refine hp.worker hworker rfl rfl rfl rfl rfl id id (fun h => by cases h)
          (fun _ => ⟨hproducer, hqueue⟩) (fun h => by cases h) fun hcancelled => ?_
        have hopen : p.world.cancelled = false := (scopeCancelled_eq_false_iff.mp hscope).1
        cases hopen.symm.trans hcancelled
      · exact hp.worker hworker rfl rfl rfl rfl rfl id id (fun _ => hscope) (fun h => by cases h)
          (fun h => by cases h) fun _ => .inr ⟨_, rfl⟩
  | step hworker =>
      refine hp.worker hworker rfl rfl rfl rfl rfl (fun hcancelled => ?_) id (fun h => by cases h)
        (fun h => by cases h) (fun h => by cases h) fun _ => .inl rfl
      simp [World.apply, hcancelled]
  | finish hworker houtcome =>
      exact hp.worker hworker rfl rfl rfl rfl rfl id id (fun h => by cases h)
        (fun h => by cases h) (fun h => by cases h) fun _ => .inl rfl
  | lose hworker herror =>
      refine hp.worker hworker rfl rfl rfl rfl rfl id id (fun h => ?_) (fun h => by cases h)
        (fun h => by cases h) fun _ => .inr ⟨_, rfl⟩
      cases h
      exact absurd herror CallEnd.error?_ne_cancelled
  | report hworker hroom =>
      exact hp.worker hworker rfl rfl rfl rfl rfl id id (fun h => by cases h)
        (fun h => by cases h) (fun h => by cases h) fun _ => .inl rfl
  | joinProducer hproducer => exact hp.joinProducer hproducer
  | joinWorker hworker => exact hp.joinWorker hworker

end Protocol

end TxBatch
