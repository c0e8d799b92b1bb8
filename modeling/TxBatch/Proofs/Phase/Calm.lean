import TxBatch.Proofs.Phase.Blame

/-!
# Phases that nothing disturbs

A call that cancels nothing, whatever the others do meanwhile, and ends in one of the ways it may
(`Call.Ends`) leaves the others undisturbed. So in a phase of such calls nothing is cancelled and
each of them ends as it may (`run_ends`); if they all return, the phase succeeds (`run_calm`).

A call may need the others to keep to something, and keep to it itself (`Call.Keeps`). It is kept
then from the beginning of a phase to its end (`run_keeps`).
-/

namespace TxBatch

variable {S Req R : Type}

/-- The call cancels nothing and ends as `P` allows, in every order with the steps of others. -/
inductive Call.Ends (P : CallEnd R → Prop) : Call S R → Prop
  | finish {result : CallEnd R} (h : P result) : Ends P (.finish result)
  | step {effect : World S → Effect S} {next : World S → Call S R}
      (hcancels : ∀ w, w.cancelled = false → (effect w).cancels = false)
      (hnext : ∀ w, w.cancelled = false → Ends P (next w)) : Ends P (.step effect next)

/-- The call cancels nothing and ends with the same result in every order. -/
abbrev Call.Gives (result : CallEnd R) : Call S R → Prop := Call.Ends (· = result)

/-- The call ends with a response and cancels nothing, in every order with the steps of others. -/
inductive Call.Returns : Call S R → Prop
  | finish (response : R) : Returns (.finish (.returned response))
  | step {effect : World S → Effect S} {next : World S → Call S R}
      (hcancels : ∀ w, w.cancelled = false → (effect w).cancels = false)
      (hnext : ∀ w, w.cancelled = false → Returns (next w)) : Returns (.step effect next)

theorem Call.Returns.ends {call : Call S R} (h : call.Returns) :
    call.Ends fun result => ∃ response, result = .returned response := by
  induction h with
  | finish response => exact .finish ⟨response, rfl⟩
  | step hcancels _ ih => exact .step hcancels ih

theorem Call.Ends.run {P : CallEnd R → Prop} {call : Call S R} (h : call.Ends P) :
    ∀ {w : World S}, w.cancelled = false → P (call.run w).1 ∧ (call.run w).2.cancelled = false := by
  induction h with
  | finish h => exact fun hw => ⟨h, hw⟩
  | @step effect next hcancels _ ih =>
      intro w hw
      exact ih w hw (by simp [World.apply, hw, hcancels w hw])

/-- As long as the others keep `inv`, so does the call; it cancels nothing and ends as `P` allows. -/
inductive Call.Keeps (inv : S → Prop) (P : CallEnd R → Prop) : Call S R → Prop
  | finish {result : CallEnd R} (h : P result) : Keeps inv P (.finish result)
  | step {effect : World S → Effect S} {next : World S → Call S R}
      (heffect : ∀ w, w.cancelled = false → inv w.state →
        inv (effect w).state ∧ (effect w).cancels = false)
      (hnext : ∀ w, w.cancelled = false → inv w.state → Keeps inv P (next w)) :
      Keeps inv P (.step effect next)

theorem Call.Ends.keeps {P : CallEnd R → Prop} {call : Call S R} (h : call.Ends P) :
    call.Keeps (fun _ => True) P := by
  induction h with
  | finish h => exact .finish h
  | step hcancels _ ih => exact .step (fun w hw _ => ⟨trivial, hcancels w hw⟩) fun w hw _ => ih w hw

namespace Phase

variable {executor : Executor S Req R} {inv : S → Prop} {P : Req → Version → CallEnd R → Prop}

/-- So far nothing was cancelled and `inv` was kept, and each call ended as it may or still will. -/
structure Calm (executor : Executor S Req R) (inv : S → Prop)
    (P : Req → Version → CallEnd R → Prop) (p : Phase S Req R) : Prop where
  world : p.world.cancelled = false
  state : inv p.world.state
  waiting : ∀ {job}, job ∈ p.queue →
    (executor job.request job.version).Keeps inv (P job.request job.version)
  running : ∀ {job call}, (job, call) ∈ p.running → call.Keeps inv (P job.request job.version)
  ended : ∀ {job result}, .ended job result ∈ p.log → P job.request job.version result

theorem Calm.step {p q : Phase S Req R} (h : Step executor p q) (hp : Calm executor inv P p) :
    Calm executor inv P q := by
  cases h with
  | @take job rest hqueue htake =>
      refine { hp with waiting := ?_, running := ?_, ended := ?_ }
      · exact fun hmem => hp.waiting (hqueue ▸ List.mem_cons_of_mem _ hmem)
      · intro job' call hmem
        rcases List.mem_append.mp hmem with hmem | hmem
        · exact hp.running hmem
        · obtain ⟨rfl, rfl⟩ := Prod.mk.inj (List.mem_singleton.mp hmem)
          exact hp.waiting (hqueue ▸ List.mem_cons_self)
      · intro job' result hmem
        exact hp.ended (by simpa using hmem)
  | @advance place job effect next hplace =>
      obtain ⟨⟨hstate, hcancels⟩, hnext⟩ :
          (inv (effect p.world).state ∧ (effect p.world).cancels = false) ∧
            (next p.world).Keeps inv (P job.request job.version) := by
        cases hp.running (List.mem_of_getElem? hplace) with
        | step heffect hnext => exact ⟨heffect _ hp.world hp.state, hnext _ hp.world hp.state⟩
      refine { hp with world := ?_, state := hstate, running := fun {job' call} hmem => ?_ }
      · simp [World.apply, hp.world, hcancels]
      · rcases List.mem_or_eq_of_mem_set hmem with hmem | heq
        · exact hp.running hmem
        · obtain ⟨rfl, rfl⟩ := Prod.mk.inj heq
          exact hnext
  | @finish place job result hplace =>
      have hresult : P job.request job.version result := by
        cases hp.running (List.mem_of_getElem? hplace) with
        | finish h => exact h
      refine ⟨?_, ?_, fun {job'} hmem => ?_, fun {job' call} hmem => ?_,
        fun {job' result'} hmem => ?_⟩
      · rw [world_conclude]
        exact hp.world
      · rw [world_conclude]
        exact hp.state
      · rw [queue_conclude] at hmem
        exact hp.waiting hmem
      · rw [running_conclude] at hmem
        exact hp.running (List.mem_of_mem_eraseIdx hmem)
      · rw [log_conclude] at hmem
        rcases List.mem_cons.mp hmem with heq | hmem
        · cases heq
          exact hresult
        · exact hp.ended hmem
  | notice place hplace => exact { hp with }

/-- Calls that keep `inv` as long as the others do keep it together, and end as they may. They
cancel nothing. -/
theorem run_keeps (workers : Int64) (schedule : List Choice) (round : Nat) (world : World S)
    (hstate : inv world.state) (tasks : List (Task Req R))
    (hkeeps : ∀ job ∈ jobs tasks,
      (executor job.request job.version).Keeps inv (P job.request job.version)) :
    (world.cancelled = false →
        (run executor workers schedule round world tasks).world.cancelled = false) ∧
      inv (run executor workers schedule round world tasks).world.state ∧
      ∀ {job result}, .ended job result ∈ (run executor workers schedule round world tasks).log →
        P job.request job.version result := by
  refine run_induct executor workers schedule round world tasks
    (P := fun e => (world.cancelled = false → e.world.cancelled = false) ∧ inv e.world.state ∧
      ∀ {job result}, .ended job result ∈ e.log → P job.request job.version result)
    (fun _ => ⟨id, hstate, fun hmem => (List.not_mem_nil hmem).elim⟩) fun _ hworld => ?_
  have hcalm : Calm executor inv P (last executor workers schedule world tasks) :=
    (steps_last ..).invariant Calm.step
      ⟨hworld, hstate, fun hmem => hkeeps _ hmem, fun hmem => (List.not_mem_nil hmem).elim,
        fun hmem => (List.not_mem_nil hmem).elim⟩
  exact ⟨fun _ => hcalm.world, hcalm.state, hcalm.ended⟩

theorem run_ends (hends : ∀ request version, (executor request version).Ends (P request version))
    (workers : Int64) (schedule : List Choice) (round : Nat) {world : World S}
    (hworld : world.cancelled = false) (tasks : List (Task Req R)) :
    (run executor workers schedule round world tasks).world.cancelled = false ∧
      ∀ {job result}, .ended job result ∈ (run executor workers schedule round world tasks).log →
        P job.request job.version result := by
  obtain ⟨hcalm, -, hended⟩ := run_keeps workers schedule round world trivial tasks
    fun job _ => (hends job.request job.version).keeps
  exact ⟨hcalm hworld, hended⟩

theorem run_calm {executor : Executor S Req R}
    (hreturns : ∀ request version, (executor request version).Returns) (workers : Int64)
    (schedule : List Choice) (round : Nat) {world : World S} (hworld : world.cancelled = false)
    (tasks : List (Task Req R)) :
    (∃ summary, (run executor workers schedule round world tasks).verdict = .ok summary) ∧
      (run executor workers schedule round world tasks).world.cancelled = false ∧
      ∀ {job result}, .ended job result ∈ (run executor workers schedule round world tasks).log →
        ∃ response, result = .returned response := by
  obtain ⟨hcalm, hended⟩ := run_ends (fun request version => (hreturns request version).ends)
    workers schedule round hworld tasks
  refine ⟨run_succeeds _ _ _ _ _ _ hcalm fun {job result} hmem => ?_, hcalm, hended⟩
  obtain ⟨response, rfl⟩ := hended hmem
  rfl

end Phase

end TxBatch
