import TxBatch.Proofs.Phase.Parties

/-!
# What the parties do is a schedule

A phase as `Phase.run` has it leaves out who holds a job, who has yet to look at the scope, and what
is on its way. Here is why nothing is lost by that: each move of a party is a choice of a schedule
or makes no difference (`Mirrors.moved`), and when all parties are joined nothing is left to drain.
So a phase whose parties come to their ends, in whatever order they move, ends as some schedule
does (`Protocol.finished_run`).

The verdicts agree though they look at different things: the parent prefers a cancellation to the
error it met first, and needs one to look at all; and a party that ends under a cancelled batch
always brings one.
-/

namespace TxBatch

variable {S Req R : Type}

def Outcome.result : Outcome R → CallEnd R
  | .executed response => .returned response
  | .aborted signal => .aborted signal

theorem Outcome.result_of_outcome? {result : CallEnd R} {outcome : Outcome R}
    (h : result.outcome? = some outcome) : outcome.result = result := by
  cases outcome with
  | executed response => exact (CallEnd.eq_returned h).symm
  | aborted signal => exact (CallEnd.eq_aborted h).symm

@[simp] theorem Outcome.outcome?_result (outcome : Outcome R) :
    outcome.result.outcome? = some outcome := by
  cases outcome <;> rfl

namespace Worker

/-- What a worker has under way. An outcome in hand is that of a call about to end. -/
def running? : Worker S Req R → Option (Job Req × Call S R)
  | .calling job call => some (job, call)
  | .reporting job outcome => some (job, .finish outcome.result)
  | .idle => none
  | .ended _ => none
  | .joined => none

/-- The error of a call that the worker died of, if the parent has not heard of it. -/
def lost? : Worker S Req R → Option BatchError
  | .ended (some error) => if error = .cancelled then none else some error
  | .ended none => none
  | .calling _ _ => none
  | .reporting _ _ => none
  | .idle => none
  | .joined => none

theorem length_running?_le (workers : List (Worker S Req R)) :
    (workers.filterMap running?).length ≤ workers.countP present := by
  induction workers with
  | nil => exact Nat.le_refl _
  | cons w rest ih =>
      rw [List.countP_cons]
      cases w with
      | calling job call => exact Nat.succ_le_succ ih
      | reporting job outcome => exact Nat.succ_le_succ ih
      | idle => exact Nat.le_succ_of_le ih
      | ended error => exact ih
      | joined => exact ih

end Worker

namespace Phase

theorem conclude_of_outcome {p : Phase S Req R} {job : Job Req} {result : CallEnd R}
    {outcome : Outcome R} (h : result.outcome? = some outcome) :
    p.conclude job result = { p with log := .ended job result :: p.log }.arrive job outcome := by
  cases result <;> cases h <;> rfl

theorem conclude_of_error {p : Phase S Req R} {job : Job Req} {result : CallEnd R}
    {error : BatchError} (h : result.error? job = some error) :
    p.conclude job result = { p with log := .ended job result :: p.log }.lose error := by
  cases result <;> cases h <;> rfl

theorem drain_of_done {executor : Executor S Req R} {p : Phase S Req R} (hrunning : p.running = [])
    (hunnoticed : p.unnoticed = []) (hqueue : p.queue = [] ∨ p.canTake = false) :
    p.drain executor = p := by
  have hstill : p.finishRunning.noticeAll = p := by
    obtain ⟨world, queue, running, workers, arrivals, unnoticed, failure, log⟩ := p
    cases hrunning
    cases hunnoticed
    simp [finishRunning, noticeAll]
  simp only [drain, hstill]
  cases hcount : p.queue.length with
  | zero => rfl
  | succ count =>
      have htake : p.canTake = false := hqueue.resolve_left fun hnil => by
        rw [hnil] at hcount
        cases hcount
      simp only [drainQueue, htake, Bool.false_eq_true, if_false]

end Phase

namespace Protocol

/-- The phase as its parties see it, and as a schedule has it. -/
structure Mirrors (p : Protocol S Req R) (q : Phase S Req R) : Prop where
  world : q.world = p.world
  queue : q.queue = p.queue ++ p.unsent
  running : q.running.Perm (p.workers.filterMap Worker.running?)
  workers : p.workers.countP Worker.present ≤ q.workers
  arrivals : q.arrivals.reverse = p.arrivals
  unnoticed : q.unnoticed.Perm (p.workers.filterMap Worker.lost?)
  failure : p.world.cancelled = false → q.failure = p.failure

theorem mirrors_start (workers : Int64) (world : World S) (tasks : List (Task Req R)) :
    Mirrors (start workers world tasks) (Phase.start workers world tasks) where
  world := rfl
  queue := rfl
  running := by simp [start, Phase.start, Worker.running?]
  workers := Nat.le_trans List.countP_le_length (Nat.le_of_eq List.length_replicate)
  arrivals := rfl
  unnoticed := by simp [start, Phase.start, Worker.lost?]
  failure := fun _ => rfl

section Move

variable {executor : Executor S Req R} {p p' : Protocol S Req R} {q q' : Phase S Req R}

theorem Mirrors.worker {place : Nat} {w w' : Worker S Req R} (h : Mirrors p q)
    (hworker : p.workers[place]? = some w) (hworkers : p'.workers = p.workers.set place w')
    (hworld : q'.world = p'.world) (hqueue : q'.queue = p'.queue ++ p'.unsent)
    (hrunning : ∀ others, q.running.Perm (w.running?.toList ++ others) →
      q'.running.Perm (w'.running?.toList ++ others))
    (hpresent : ∀ others, others + w.present.toNat ≤ q.workers →
      others + w'.present.toNat ≤ q'.workers)
    (harrivals : q'.arrivals.reverse = p'.arrivals)
    (hunnoticed : ∀ others, q.unnoticed.Perm (w.lost?.toList ++ others) →
      q'.unnoticed.Perm (w'.lost?.toList ++ others))
    (hfailure : p'.world.cancelled = false → q'.failure = p'.failure) : Mirrors p' q' := by
  obtain ⟨rest, hperm, hperm'⟩ := perm_set hworker w'
  rw [← hworkers] at hperm'
  have hfilter : ∀ {α : Type} (f : Worker S Req R → Option α) (w : Worker S Req R),
      (w :: rest).filterMap f = (f w).toList ++ rest.filterMap f := by
    intro α f w
    rw [List.filterMap_cons]
    cases f w <;> rfl
  refine ⟨hworld, hqueue, ?_, ?_, harrivals, ?_, hfailure⟩
  · have hold := h.running.trans (hperm.filterMap Worker.running?)
    rw [hfilter] at hold
    have hnew := hrunning _ hold
    rw [← hfilter] at hnew
    exact hnew.trans (hperm'.filterMap _).symm
  · have hold := h.workers
    rw [hperm.countP_eq, List.countP_cons] at hold
    rw [hperm'.countP_eq, List.countP_cons]
    have hnew := hpresent (rest.countP Worker.present)
    cases hw : w.present <;> cases hw' : w'.present <;> simp_all
  · have hold := h.unnoticed.trans (hperm.filterMap Worker.lost?)
    rw [hfilter] at hold
    have hnew := hunnoticed _ hold
    rw [← hfilter] at hnew
    exact hnew.trans (hperm'.filterMap _).symm

theorem Mirrors.running_place {place : Nat} {w : Worker S Req R} {entry : Job Req × Call S R}
    (h : Mirrors p q) (hworker : p.workers[place]? = some w) (hentry : w.running? = some entry) :
    ∃ place' : Nat, q.running[place']? = some entry :=
  List.getElem?_of_mem (h.running.mem_iff.mpr
    (List.mem_filterMap.mpr ⟨w, List.mem_of_getElem? hworker, hentry⟩))

theorem Mirrors.lost_place {place : Nat} {w : Worker S Req R} {error : BatchError}
    (h : Mirrors p q) (hworker : p.workers[place]? = some w) (hlost : w.lost? = some error) :
    ∃ place' : Nat, q.unnoticed[place']? = some error :=
  List.getElem?_of_mem (h.unnoticed.mem_iff.mpr
    (List.mem_filterMap.mpr ⟨w, List.mem_of_getElem? hworker, hlost⟩))

/-- A worker that looks for a job under an open scope is one that may take one. -/
theorem Mirrors.canTake {place : Nat} (h : Mirrors p q) (hp : Sound p)
    (hworker : p.workers[place]? = some .idle) (hscope : p.scopeCancelled = false) :
    q.canTake = true := by
  obtain ⟨hopen, hclosed⟩ := scopeCancelled_eq_false_iff.mp hscope
  have hfailure : q.failure.isSome = false := by
    rw [h.failure hopen, ← hp.closed]
    exact hclosed
  obtain ⟨rest, hperm, -⟩ := perm_set hworker .idle
  have hlength := (h.running.trans (hperm.filterMap Worker.running?)).length_eq
  have hpresent := h.workers
  have hle := Worker.length_running?_le rest
  rw [hperm.countP_eq, List.countP_cons] at hpresent
  simp only [List.filterMap_cons, Worker.running?, Worker.present, if_true] at hlength hpresent
  have hroom : q.running.length < q.workers := by omega
  simp [Phase.canTake, Phase.stopped_eq, h.world, hopen, hfailure, hroom]

/-- Whoever gives up in an open batch does so because the parent has met an error already. -/
theorem Mirrors.hear_cancelled (h : Mirrors p q) (hp : Sound p) (hscope : p.scopeCancelled = true)
    (hopen : p.world.cancelled = false) :
    q.failure = (p.hear (some .cancelled)).failure := by
  have hfailed : p.failure.isSome = true := by
    rw [scopeCancelled_eq, hopen, Bool.false_or, hp.closed] at hscope
    exact hscope
  obtain ⟨error, herror⟩ := Option.isSome_iff_exists.mp hfailed
  rw [h.failure hopen]
  simp [hear, herror]

/-- The producer has met nothing that the phase does not know. -/
theorem Mirrors.joinProducer {error : Option BatchError} (h : Mirrors p q) (hp : Sound p)
    (hproducer : p.producer = .ended error) :
    Mirrors { p.hear error with producer := .joined } q := by
  refine { h with failure := fun hopen => ?_ }
  cases error with
  | none => exact (h.failure hopen).trans Option.or_none.symm
  | some error =>
      obtain ⟨rfl, hscope⟩ := hp.producer hproducer
      exact h.hear_cancelled hp hscope hopen

/-- A worker that left or gave up is joined and forgotten. -/
theorem Mirrors.joinQuiet {place : Nat} {error : Option BatchError} (h : Mirrors p q)
    (hworker : p.workers[place]? = some (.ended error))
    (hnone : (Worker.ended error : Worker S Req R).lost? = none)
    (hfailure : p.world.cancelled = false → q.failure = (p.hear error).failure) :
    Mirrors ((p.hear error).setWorker place .joined) q := by
  refine h.worker hworker rfl h.world h.queue (fun _ hold => hold) (fun _ hle => hle)
    h.arrivals (fun others hold => ?_) hfailure
  rw [hnone] at hold
  exact hold

/-- Of a worker that died of its call the phase takes notice. -/
theorem Mirrors.joinDead {place : Nat} {error : BatchError} (h : Mirrors p q)
    (hworker : p.workers[place]? = some (.ended (some error)))
    (hlost : (Worker.ended (some error) : Worker S Req R).lost? = some error) :
    ∃ place', Mirrors ((p.hear (some error)).setWorker place .joined) (q.notice place') := by
  obtain ⟨place', hplace⟩ := h.lost_place hworker hlost
  refine ⟨place', ?_⟩
  simp only [Phase.notice, hplace]
  refine h.worker hworker rfl h.world h.queue (fun _ hold => hold) (fun _ hle => hle)
    h.arrivals (fun others hold => ?_) fun hopen => ?_
  · rw [hlost] at hold
    exact ((Phase.perm_cons_eraseIdx hplace).symm.trans hold).cons_inv
  · rw [h.failure hopen]
    rfl

theorem Mirrors.joinWorker {place : Nat} {error : Option BatchError} (h : Mirrors p q)
    (hp : Sound p) (hworker : p.workers[place]? = some (.ended error)) :
    Mirrors ((p.hear error).setWorker place .joined) q ∨
      ∃ place', Mirrors ((p.hear error).setWorker place .joined) (q.notice place') := by
  cases error with
  | none =>
      exact .inl (h.joinQuiet hworker rfl fun hopen => (h.failure hopen).trans Option.or_none.symm)
  | some error =>
      by_cases hcancelled : error = .cancelled
      · subst hcancelled
        have hscope : p.scopeCancelled = true := hp.gaveUp (List.mem_of_getElem? hworker)
        exact .inl (h.joinQuiet hworker rfl (h.hear_cancelled hp hscope))
      · exact .inr (h.joinDead hworker (if_neg hcancelled))

/-- **Each move of a party is a choice, or makes no difference.** -/
theorem Mirrors.moved (h : Mirrors p q) (hp : Sound p) (hmove : Moved executor p p') :
    Mirrors p' q ∨ ∃ choice, Mirrors p' (q.act executor choice) := by
  cases hmove with
  | send hproducer hscope hunsent hroom =>
      refine .inl { h with queue := ?_ }
      rw [h.queue, hunsent]
      simp
  | close hproducer hends => exact .inl { h with }
  | @take place job rest hworker hscope hqueue =>
      have hwaiting : q.queue = job :: (rest ++ p.unsent) := by rw [h.queue, hqueue]; rfl
      refine .inr ⟨.take, ?_⟩
      simp only [Phase.act, Phase.take, hwaiting, h.canTake hp hworker hscope, if_true]
      exact h.worker hworker rfl h.world rfl
        (fun others hold => (List.perm_append_singleton _ _).trans (hold.cons _))
        (fun _ hle => hle) h.arrivals (fun _ hold => hold) h.failure
  | @leave place error hworker hends =>
      have hnone : (Worker.ended error : Worker S Req R).lost? = none := by
        rcases hends with ⟨rfl, -⟩ | ⟨rfl, -⟩ <;> rfl
      refine .inl (h.worker hworker rfl h.world h.queue (fun _ hold => hold)
        (fun others hle => Nat.le_of_succ_le hle) h.arrivals (fun others hold => ?_) h.failure)
      rw [hnone]
      exact hold
  | @step place job effect next hworker =>
      obtain ⟨place', hplace⟩ := h.running_place hworker rfl
      refine .inr ⟨.advance place', ?_⟩
      simp only [Phase.act, Phase.advance, hplace]
      refine h.worker hworker rfl (by rw [h.world]) h.queue (fun others hold => ?_)
        (fun _ hle => hle) h.arrivals (fun _ hold => hold) fun hopen => h.failure ?_
      · obtain ⟨rest, hperm, hperm'⟩ := perm_set hplace (job, next q.world)
        rw [h.world] at hperm' ⊢
        exact hperm'.trans ((hperm.symm.trans hold).cons_inv.cons _)
      · exact (Bool.or_eq_false_iff.mp hopen).1
  | @finish place job result outcome hworker houtcome =>
      have hsame : (Worker.reporting job outcome : Worker S Req R).running? =
          (Worker.calling job (.finish result) : Worker S Req R).running? := by
        rw [Worker.running?, Worker.running?, Outcome.result_of_outcome? houtcome]
      refine .inl (h.worker hworker rfl h.world h.queue (fun others hold => ?_)
        (fun _ hle => hle) h.arrivals (fun _ hold => hold) h.failure)
      rw [hsame]
      exact hold
  | @lose place job result error hworker herror =>
      obtain ⟨place', hplace⟩ := h.running_place hworker rfl
      have hlost : (Worker.ended (some error) : Worker S Req R).lost? = some error :=
        if_neg fun heq => CallEnd.error?_ne_cancelled (heq ▸ herror)
      refine .inr ⟨.advance place', ?_⟩
      simp only [Phase.act, Phase.advance, hplace, Phase.conclude_of_error herror, Phase.lose]
      refine h.worker hworker rfl h.world h.queue (fun others hold => ?_)
        (fun others hle => Nat.le_sub_of_add_le hle) h.arrivals (fun others hold => ?_) h.failure
      · exact ((Phase.perm_cons_eraseIdx hplace).symm.trans hold).cons_inv
      · rw [hlost]
        exact (List.perm_append_singleton _ _).trans (hold.cons _)
  | @report place job outcome hworker hroom =>
      obtain ⟨place', hplace⟩ := h.running_place hworker rfl
      refine .inr ⟨.advance place', ?_⟩
      simp only [Phase.act, Phase.advance, hplace,
        Phase.conclude_of_outcome outcome.outcome?_result, Phase.arrive]
      refine h.worker hworker rfl h.world h.queue (fun others hold => ?_) (fun _ hle => hle) ?_
        (fun _ hold => hold) h.failure
      · exact ((Phase.perm_cons_eraseIdx hplace).symm.trans hold).cons_inv
      · rw [List.reverse_cons, h.arrivals]
        simp [Protocol.arrivals]
  | joinProducer hproducer => exact .inl (h.joinProducer hp hproducer)
  | joinWorker hworker =>
      rcases h.joinWorker hp hworker with hquiet | ⟨place', hnoticed⟩
      · exact .inl hquiet
      · exact .inr ⟨.notice place', hnoticed⟩

/-! ## The end of a phase -/

/-- When all parties are joined, nothing is left to drain. -/
theorem Mirrors.done (h : Mirrors p q) (hp : Sound p) (hfinished : p.finished) :
    q.drain executor = q := by
  obtain ⟨hproducer, hjoined⟩ := hfinished
  have hnone : ∀ {α : Type} (f : Worker S Req R → Option α), f .joined = none →
      p.workers.filterMap f = [] := fun f hf =>
    List.filterMap_eq_nil_iff.mpr fun w hw => hjoined w hw ▸ hf
  have hrunning := h.running
  have hunnoticed := h.unnoticed
  rw [hnone Worker.running? rfl] at hrunning
  rw [hnone Worker.lost? rfl] at hunnoticed
  refine Phase.drain_of_done hrunning.eq_nil hunnoticed.eq_nil ?_
  cases hworld : p.world.cancelled with
  | true => exact .inr (by simp [Phase.canTake, Phase.stopped_eq, h.world, hworld])
  | false =>
      cases hfailure : p.failure with
      | some error =>
          exact .inr (by simp [Phase.canTake, Phase.stopped_eq, h.failure hworld, hfailure])
      | none =>
          obtain ⟨w, hw⟩ := List.exists_mem_of_ne_nil _ hp.staffed
          have hleft := hp.left (.inr (hjoined w hw ▸ hw))
          have hunsent := hp.unsent
          rw [hfailure] at hleft hunsent
          have hqueue : p.queue = [] := (hleft.resolve_left (by simp)).2
          have hsent : p.unsent = [] := by
            rcases hunsent with h' | ⟨_, h'⟩ | h' | h'
            · cases hproducer.symm.trans h'
            · cases hproducer.symm.trans h'
            · cases h'
            · exact h'
          exact .inl (by rw [h.queue, hqueue, hsent]; rfl)

/-- The parent comes to the verdict of the phase: a cancellation has reached it. -/
theorem Mirrors.verdict (h : Mirrors p q) (hp : Sound p) (hfinished : p.finished)
    (summary : Summary) : q.verdict summary = p.verdict summary := by
  unfold Phase.verdict Protocol.verdict
  rw [h.world]
  cases hworld : p.world.cancelled with
  | false =>
      rw [h.failure hworld]
      cases p.failure <;> rfl
  | true =>
      rcases hp.heard hworld with hfailed | ⟨w, hw, hpresent | ⟨error, hended⟩⟩
      · obtain ⟨error, herror⟩ := Option.isSome_iff_exists.mp hfailed
        rw [herror]
        rfl
      · rw [hfinished.2 w hw] at hpresent
        cases hpresent
      · rw [hfinished.2 w hw] at hended
        cases hended

end Move

section Reachable

variable {executor : Executor S Req R} {workers : Int64} {world : World S}
  {tasks : List (Task Req R)} {p : Protocol S Req R}

theorem reachable_mirrors (hjobs : jobs tasks ≠ []) (hworld : world.cancelled = false)
    (h : Reachable executor (start workers world tasks) p) :
    Sound p ∧ ∃ schedule : List Choice,
      Mirrors p (schedule.foldl (Phase.act executor) (Phase.start workers world tasks)) := by
  refine h.invariant (I := fun p => Sound p ∧ ∃ schedule : List Choice,
      Mirrors p (schedule.foldl (Phase.act executor) (Phase.start workers world tasks)))
    (fun {p q} hmove ⟨hp, schedule, hmirrors⟩ => ⟨hp.moved hmove, ?_⟩)
    ⟨sound_start hjobs hworld, [], mirrors_start workers world tasks⟩
  rcases hmirrors.moved hp hmove with hsame | ⟨choice, hchoice⟩
  · exact ⟨schedule, hsame⟩
  · refine ⟨schedule ++ [choice], ?_⟩
    rw [List.foldl_append]
    exact hchoice

/-- **What the parties do is a schedule.** A phase whose parties have all been joined ends as
`Phase.run` does under some schedule. -/
theorem finished_run (hjobs : jobs tasks ≠ []) (hworld : world.cancelled = false)
    (h : Reachable executor (start workers world tasks) p) (hfinished : p.finished) (round : Nat) :
    ∃ schedule log, Phase.run executor workers schedule round world tasks =
      ⟨p.verdict (deliverAll round tasks p.arrivals).2, (deliverAll round tasks p.arrivals).1,
        p.world, log⟩ := by
  obtain ⟨hp, schedule, hmirrors⟩ := reachable_mirrors hjobs hworld h
  refine ⟨schedule,
    (schedule.foldl (Phase.act executor) (Phase.start workers world tasks)).log, ?_⟩
  rw [Phase.run_eq_last _ _ _ _ _ _ hjobs hworld, Phase.last, hmirrors.done hp hfinished]
  simp only [hmirrors.verdict hp hfinished, hmirrors.arrivals, hmirrors.world]

end Reachable

end Protocol

end TxBatch
