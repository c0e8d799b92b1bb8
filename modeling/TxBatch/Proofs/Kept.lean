import TxBatch.Proofs.History
import TxBatch.Proofs.Progress

/-!
# What the calls of a run keep

Let each call keep something as long as the others do (`Call.Keeps`). Then a whole run keeps it,
and every call in its log ended as it may (`process_kept`). Such calls cancel nothing, so if nobody
else does, only two things can become of the batch: a call gave no outcome, and then the batch fails
of such a call (`process_blames`); or all of them returned, and then the batch is answered, unless
the round counter is full before the front has come to the end of it (`process_answers`).
-/

namespace TxBatch

variable {S Req R : Type}

/-- `I` holds of the state, and each call ended as `P` allows. -/
structure Kept (I : S → Prop) (P : Req → Version → CallEnd R → Prop) (b : Batch S Req R) :
    Prop where
  state : I b.world.state
  ended : ∀ {job result}, .ended job result ∈ b.log.flatten → P job.request job.version result

namespace Scheduler

variable {s : Scheduler S Req R} {env : Environment} {metrics : Metrics} {world : World S}
  {requests : List Req} {I : S → Prop} {P : Req → Version → CallEnd R → Prop}
  {number : Nat} {b : Batch S Req R}

section Calls

variable (hcalls : ∀ {slot : Nat} {request}, requests[slot]? = some request → ∀ incarnation,
  (s.executor request ⟨slot, incarnation⟩).Keeps I (P request ⟨slot, incarnation⟩))

include hcalls

/-- However the phase of a round ends, its calls have kept what they found. They cancel nothing. -/
theorem phaseAfter_kept (env : Environment) (hstate : I b.world.state)
    (hseated : Seated requests b.tasks) :
    ((env.enter (b.report.rounds + 1) b.world).cancelled = false →
        (s.phaseAfter env b).world.cancelled = false) ∧
      I (s.phaseAfter env b).world.state ∧
      ∀ {job result}, .ended job result ∈ (s.phaseAfter env b).log →
        P job.request job.version result := by
  refine Phase.run_keeps s.config.workers (env.schedule (b.report.rounds + 1))
    (b.report.rounds + 1) (env.enter (b.report.rounds + 1) b.world) hstate b.tasks fun job hjob => ?_
  obtain ⟨t, ht, -, hversion, hrequest⟩ := Phase.mem_jobs.mp hjob
  have hkeeps := hcalls (hseated.request ht) t.incarnation
  rw [hversion, hrequest, Task.version, hseated.index ht]
  exact hkeeps

theorem kept_round (env : Environment) (h : Kept I P b) (hseated : Seated requests b.tasks) :
    Kept I P (s.round env b).batch := by
  obtain ⟨hworld, hlog, -⟩ := round_batch s env b
  obtain ⟨-, hstate, hended⟩ := phaseAfter_kept hcalls env h.state hseated
  refine ⟨hworld ▸ hstate, fun {job result} hmem => ?_⟩
  rw [hlog, List.flatten_cons, List.mem_append] at hmem
  exact hmem.elim hended h.ended

variable (hv : s.validator.Judges) (hstate : I world.state)

include hv hstate

theorem kept_of_again
    (hb : s.roundEnd? env (Batch.start metrics world requests) number = some (.again b)) :
    Kept I P b := by
  refine (roundEnd?_again (I := fun _ b => Kept I P b ∧ Seated requests b.tasks)
    ⟨⟨hstate, fun hmem => (List.not_mem_nil hmem).elim⟩, seated_ofRequests requests⟩
    (fun {number b b'} h hround => ?_) hb).1
  have hkept := kept_round hcalls env h.1 h.2
  rw [hround] at hkept
  exact ⟨hkept, hv.again_seated h.2 hround⟩

theorem kept_of_roundEnd? {e : RoundEnd S Req R}
    (he : s.roundEnd? env (Batch.start metrics world requests) number = some e) :
    Kept I P e.batch := by
  cases number with
  | zero =>
      cases he
      exact ⟨hstate, fun hmem => (List.not_mem_nil hmem).elim⟩
  | succ number =>
      obtain ⟨b, hb, rfl⟩ := roundEnd?_succ he
      exact kept_round hcalls env (kept_of_again hcalls hv hstate hb)
        (hv.roundEnd?_seated (seated_ofRequests requests) hb)

theorem phaseAfter_uncancelled
    (hb : s.roundEnd? env (Batch.start metrics world requests) number = some (.again b))
    (hopen : (env.enter (b.report.rounds + 1) b.world).cancelled = false) :
    (s.phaseAfter env b).world.cancelled = false :=
  (phaseAfter_kept hcalls env (kept_of_again hcalls hv hstate hb).state
    (hv.roundEnd?_seated (seated_ofRequests requests) hb)).1 hopen

theorem process_kept (env : Environment) (metrics : Metrics) :
    Kept I P (s.process env metrics world requests).batch := by
  obtain ⟨last, e, -, he, hagrees⟩ := process_last s env metrics world requests
  have hkept := kept_of_roundEnd? hcalls hv hstate he
  exact ⟨hagrees.world ▸ hkept.state, hagrees.log ▸ hkept.ended⟩

theorem process_uncancelled (hworld : world.cancelled = false)
    (huninterrupted : ∀ round, env.interrupts round = false) :
    (s.process env metrics world requests).batch.world.cancelled = false := by
  by_cases hne : requests = []
  · rw [(process_of_no_rounds s env metrics world requests (.inr hne)).world]
    exact hworld
  obtain ⟨last, e, -, he, hagrees⟩ := process_last s env metrics world requests
  rw [hagrees.world]
  cases last with
  | zero =>
      cases he
      exact hworld
  | succ number =>
      obtain ⟨b, hb, rfl⟩ := roundEnd?_succ he
      rw [(round_batch s env b).1]
      exact phaseAfter_uncancelled hcalls hv hstate hb
        (Environment.enter_open (open_of_again hv hne hworld hb) (huninterrupted _))

end Calls

/-! ## Calls without an outcome -/

theorem outcome_round {summary : Summary} (hok : (s.phaseAfter env b).verdict = .ok summary)
    (h : ∀ {job result}, .ended job result ∈ b.log.flatten → result.outcome?.isSome)
    {job : Job Req} {result : CallEnd R}
    (hmem : .ended job result ∈ (s.round env b).batch.log.flatten) : result.outcome?.isSome := by
  rw [(round_batch s env b).2.1, List.flatten_cons, List.mem_append] at hmem
  exact hmem.elim (Phase.run_outcome_of_ok _ _ _ _ _ _ hok) h

theorem outcome_of_again
    (hb : s.roundEnd? env (Batch.start metrics world requests) number = some (.again b)) :
    ∀ {job result}, .ended job result ∈ b.log.flatten → result.outcome?.isSome := by
  refine roundEnd?_again (I := fun _ b => ∀ {job result},
    .ended job result ∈ b.log.flatten → result.outcome?.isSome)
    (fun hmem => (List.not_mem_nil hmem).elim) (fun {number b b'} h hround => ?_) hb
  obtain ⟨⟨summary, hok⟩, -⟩ := round_again hround
  intro job result hmem
  have hmem' : .ended job result ∈ (s.round env b).batch.log.flatten := by
    rw [hround]
    exact hmem
  exact outcome_round hok h hmem'

/-- Where a call gave no outcome, it is of the last round, which ended with its phase. -/
theorem phase_fails_of_lost {e : RoundEnd S Req R}
    (he : s.roundEnd? env (Batch.start metrics world requests) number = some e)
    {job : Job Req} {result : CallEnd R} (hmem : .ended job result ∈ e.batch.log.flatten)
    (hlost : result.outcome? = none) :
    ∃ earlier b error,
      s.roundEnd? env (Batch.start metrics world requests) earlier = some (.again b) ∧
        e = s.round env b ∧ (s.phaseAfter env b).verdict = .error error ∧
        .ended job result ∈ (s.phaseAfter env b).log := by
  cases number with
  | zero =>
      cases he
      cases hmem
  | succ earlier =>
      obtain ⟨b, hb, rfl⟩ := roundEnd?_succ he
      cases hverdict : (s.phaseAfter env b).verdict with
      | error error =>
          refine ⟨earlier, b, error, hb, rfl, hverdict, ?_⟩
          rw [(round_batch s env b).2.1, List.flatten_cons, List.mem_append] at hmem
          refine hmem.resolve_right fun hold => ?_
          have hsome := outcome_of_again hb hold
          simp [hlost] at hsome
      | ok summary =>
          have hsome := outcome_round hverdict (outcome_of_again hb) hmem
          simp [hlost] at hsome

section Calls

variable (hcalls : ∀ {slot : Nat} {request}, requests[slot]? = some request → ∀ incarnation,
  (s.executor request ⟨slot, incarnation⟩).Keeps I (P request ⟨slot, incarnation⟩))
  (hstate : I world.state)

include hcalls hstate

theorem process_blames (hv : s.validator.Judges) {job : Job Req} {result : CallEnd R}
    (hmem : .ended job result ∈ (s.process env metrics world requests).batch.log.flatten)
    (hlost : result.outcome? = none) :
    ∃ error, (s.process env metrics world requests).result = .error (.failed error) ∧
      Blames (s.process env metrics world requests).batch.log.flatten error := by
  by_cases h : s.config.validate ≠ .ok () ∨ requests = []
  · rw [(process_of_no_rounds s env metrics world requests h).log] at hmem
    cases hmem
  rw [not_or, not_not] at h
  obtain ⟨finished, hfinished, hagrees, hresult⟩ :=
    process_finished s env metrics world requests h.1 h.2
  rw [hagrees.log] at hmem ⊢
  cases hfinished with
  | settled _ hlast =>
      obtain ⟨-, c, error, -, hround, herror, -⟩ := phase_fails_of_lost hlast hmem hlost
      cases hround.trans (round_of_error herror)
  | full hfull =>
      obtain ⟨-, c, error, -, hround, herror, -⟩ := phase_fails_of_lost hfull hmem hlost
      cases hround.trans (round_of_error herror)
  | halted _ hlast =>
      obtain ⟨earlier, c, error, hc, hround, herror, hphase⟩ :=
        phase_fails_of_lost hlast hmem hlost
      obtain ⟨rfl, rfl⟩ := RoundEnd.halted.inj (hround.trans (round_of_error herror))
      have hcalm := phaseAfter_uncancelled hcalls hv hstate hc
        (Phase.run_open_of_mem_log _ _ _ _ _ _ hphase)
      rcases Phase.run_error _ _ _ _ _ _ herror with ⟨hcancelled, -⟩ | ⟨-, hblames⟩
      · exact absurd (hcalm.symm.trans hcancelled) Bool.false_ne_true
      · obtain ⟨job', result', hmem', herror'⟩ := hblames
        refine ⟨error, hresult, job', result', ?_, herror'⟩
        rw [(round_batch s env c).2.1, List.flatten_cons]
        exact List.mem_append_left _ hmem'

section Uninterrupted

variable (huninterrupted : ∀ round, env.interrupts round = false)

include huninterrupted

/-- A round in front of the last one is smooth if all calls returned. -/
theorem smooth_of_returned [Tracked R] (hv : s.validator.Judges) {last : Nat} {e : RoundEnd S Req R}
    (he : s.roundEnd? env (Batch.start metrics world requests) last = some e)
    (hreturned : ∀ {job result}, .ended job result ∈ e.batch.log.flatten →
      ∃ response, result = .returned response)
    (hlt : number < last)
    (hb : s.roundEnd? env (Batch.start metrics world requests) number = some (.again b))
    (hopen : b.world.cancelled = false) : Smooth s env b := by
  obtain ⟨newer, hlog⟩ := roundEnd?_log hb hlt he
  have hreturned' : ∀ {job result}, .ended job result ∈ (s.phaseAfter env b).log →
      ∃ response, result = .returned response := by
    intro job result hmem
    refine @hreturned job result ?_
    rw [hlog, List.flatten_append, List.flatten_cons]
    exact List.mem_append_right _ (List.mem_append_left _ hmem)
  have hcalm := phaseAfter_uncancelled hcalls hv hstate hb
    (Environment.enter_open hopen (huninterrupted _))
  refine ⟨Phase.run_succeeds _ _ _ _ _ _ hcalm fun {job result} hmem => ?_, hcalm, hreturned'⟩
  obtain ⟨response, rfl⟩ := hreturned' hmem
  rfl

/-- If all calls return, the batch is answered, or the round counter is full. -/
theorem process_answers [Tracked R] (hs : s.validator = Validator.readWrite)
    (hworld : world.cancelled = false)
    (hceiling : ∀ limit, s.config.maxIncarnations = some limit →
      max 1 (requests.length - 1) ≤ limit.toNat)
    (hreturned : ∀ {job result},
      .ended job result ∈ (s.process env metrics world requests).batch.log.flatten →
        ∃ response, result = .returned response) :
    (∃ rs, (s.process env metrics world requests).result = .ok rs) ∨
      counterMax < requests.length ∧
        (s.process env metrics world requests).result = .error .crashed := by
  have hvalid := validate_of_ceiling hceiling
  by_cases hne : requests = []
  · subst hne
    exact .inl ⟨[], process_empty s env metrics world hvalid⟩
  have hpos : 1 ≤ requests.length := List.length_pos_of_ne_nil hne
  obtain ⟨finished, hfinished, hagrees, hresult⟩ :=
    process_finished s env metrics world requests hvalid hne
  rw [hagrees.log] at hreturned
  have hsmooth : ∀ {last e}, s.roundEnd? env (Batch.start metrics world requests) last = some e →
      e.batch = finished.2 → ∀ {number b}, number < last →
        s.roundEnd? env (Batch.start metrics world requests) number = some (.again b) →
        b.world.cancelled = false → Smooth s env b := by
    intro last e he hbatch number b hlt hb hopen
    exact smooth_of_returned hcalls hstate huninterrupted (judges hs) he (hbatch ▸ hreturned) hlt hb
      hopen
  cases hfinished with
  | @settled last b hle hlast =>
      obtain ⟨-, hresult⟩ := process_of_settled hvalid hne hle hlast
      cases last with
      | zero => cases hlast
      | succ number =>
          obtain ⟨c, hc, hround⟩ := roundEnd?_succ hlast
          obtain ⟨rs, hrs⟩ := responses_of_validated fun t ht =>
            settled_status hs (roundEnd?_seated hs (seated_ofRequests _) hc) hround ht
          exact .inl ⟨rs, by rw [hresult, hrs]; rfl⟩
  | halted hle hlast =>
      exact absurd hlast (not_halted_of_smooth hs (hsmooth hlast rfl) hpos hworld hceiling hle
        (Nat.le_refl _))
  | full hfull =>
      have hadvanced := advanced_of_smooth hs (hsmooth hfull rfl) hpos hworld (Nat.le_refl _) hfull
      exact .inr ⟨hadvanced.lt_length, hresult⟩

end Uninterrupted

end Calls

end Scheduler

end TxBatch
