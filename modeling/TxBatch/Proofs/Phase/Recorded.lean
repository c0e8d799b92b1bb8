import Mathlib.Data.List.Nodup
import TxBatch.Proofs.Journal
import TxBatch.Proofs.Phase.Delivery

/-!
# A phase that keeps a journal

The calls of a phase write one journal, each its own entries in its own order, however they are
interleaved. At every step the entries of a call lead from the beginning of its program to what is
left of it (`Recorded`). So when the phase is over the entries of each call are a way through its
program, and what its reads found is what the journal in front of them makes of the store
(`run_recorded`).
-/

namespace TxBatch

variable {V Req R : Type}

namespace Program

/-- What one step of a journaled call does: it adds an entry, and goes on as the program does. -/
theorem journaled_step {base : KeyMap V} {version : Version} {program : Program V R}
    {effect : World (Journal V) → Effect (Journal V)}
    {next : World (Journal V) → Call (Journal V) R}
    (h : program.journaled base version = .step effect next) (w : World (Journal V)) :
    ∃ (entry : Journal.Entry V) (rest : Program V R), (effect w).state = (version, entry) :: w.state ∧
      (entry = .cancel → (effect w).cancels = true) ∧
      (∀ key found, entry = .read key found →
        found = (Journal.replay base w.state).read key version.index) ∧
      next w = rest.journaled base version ∧
      ∀ {entries result}, rest.Path entries result → program.Path (entry :: entries) result := by
  cases program with
  | finish result => cases h
  | read key next =>
      cases h
      exact ⟨.read key ((Journal.replay base w.state).read key version.index), _, rfl,
        (fun hentry => by cases hentry), (fun _ _ hentry => by cases hentry; rfl), rfl,
        (fun hpath => .read _ hpath)⟩
  | write key value next =>
      cases h
      exact ⟨.write key value, next, rfl, (fun hentry => by cases hentry),
        (fun _ _ hentry => by cases hentry), rfl, (fun hpath => .write hpath)⟩
  | clear next =>
      cases h
      exact ⟨.clear, next, rfl, (fun hentry => by cases hentry),
        (fun _ _ hentry => by cases hentry), rfl, (fun hpath => .clear hpath)⟩
  | cancel next =>
      cases h
      exact ⟨.cancel, next, rfl, (fun _ => rfl), (fun _ _ hentry => by cases hentry), rfl,
        (fun hpath => .cancel hpath)⟩

theorem journaled_finish {base : KeyMap V} {version : Version} {program : Program V R}
    {result : CallEnd R} (h : program.journaled base version = .finish result) :
    program = .finish result := by
  cases program <;> cases h
  rfl

end Program

namespace Phase

/-! ## Versions of jobs -/

/-- The tasks stand in the slots of their positions. -/
def InPlace (tasks : List (Task Req R)) : Prop :=
  ∀ {slot : Nat} {t}, tasks[slot]? = some t → t.index = slot

theorem InPlace.index_eq_slot {tasks : List (Task Req R)} (h : InPlace tasks) {job : Job Req}
    (hjob : job ∈ jobs tasks) : job.version.index = job.slot := by
  obtain ⟨t, ht, -, hversion, -⟩ := mem_jobs.mp hjob
  rw [hversion]
  exact h ht

theorem InPlace.job_eq {tasks : List (Task Req R)} (h : InPlace tasks) {job other : Job Req}
    (hjob : job ∈ jobs tasks) (hother : other ∈ jobs tasks)
    (hindex : other.version.index = job.version.index) : other = job := by
  have hslot : other.slot = job.slot := by
    rw [← h.index_eq_slot hjob, ← h.index_eq_slot hother, hindex]
  obtain ⟨t, ht, -, hversion, hrequest⟩ := mem_jobs.mp hjob
  obtain ⟨u, hu, -, hversion', hrequest'⟩ := mem_jobs.mp hother
  rw [hslot] at hu
  obtain rfl := Option.some.inj (ht.symm.trans hu)
  obtain ⟨slot, version, request⟩ := job
  obtain ⟨slot', version', request'⟩ := other
  simp_all

/-! ## The journal under way -/

section Journal

variable (base : KeyMap V) (program : Req → Version → Program V R)

/-- Every request run as a program that keeps the journal. -/
def journaling : Executor (Journal V) Req R := fun request version =>
  (program request version).journaled base version

/-- The journal so far, of a phase for `tasks` that began with the journal `before`: new entries
come from calls that were begun, they are true to the store, and those of a call lead through its
program to what is left of it. -/
structure Recorded (tasks : List (Task Req R)) (before : Journal V)
    (p : Phase (Journal V) Req R) : Prop where
  accounted : Accounted (jobs tasks) p
  extends_before : ∃ new, p.world.state = new ++ before ∧
    ∀ head ∈ new, ∃ job, .started job ∈ p.log ∧ job.version = head.1
  ordered : Journal.Ordered p.world.state
  faithful : Journal.Faithful base p.world.state
  cancelled : ∀ {version}, (version, .cancel) ∈ p.world.state → p.world.cancelled = true
  running : ∀ {job call}, (job, call) ∈ p.running →
    ∃ rest : Program V R, call = rest.journaled base job.version ∧
      ∀ {entries result}, rest.Path entries result →
        (program job.request job.version).Path
          (Journal.entriesOf job.version p.world.state ++ entries) result
  ended : ∀ {job result}, .ended job result ∈ p.log →
    (program job.request job.version).Path (Journal.entriesOf job.version p.world.state) result

variable {base program} {tasks : List (Task Req R)} {before : Journal V}
  (hplace : InPlace tasks)
  (hfresh : ∀ head ∈ before, ∀ t, tasks[head.1.index]? = some t → t.status = .pending →
    head.1.incarnation < t.incarnation)

include hplace hfresh

/-- What the journal holds of the position of a begun job is of its attempt or of earlier ones. -/
theorem Recorded.incarnation_le {p : Phase (Journal V) Req R}
    (hp : Recorded base program tasks before p) {job : Job Req} (hjob : .started job ∈ p.log)
    {head : Version × Journal.Entry V} (hmem : head ∈ p.world.state)
    (hindex : head.1.index = job.version.index) :
    head.1.incarnation ≤ job.version.incarnation := by
  have hjob' := hp.accounted.started_mem_jobs hjob
  obtain ⟨new, hstate, hnew⟩ := hp.extends_before
  rw [hstate] at hmem
  rcases List.mem_append.mp hmem with hmem | hmem
  · obtain ⟨other, hother, hversion⟩ := hnew head hmem
    have heq := hplace.job_eq hjob' (hp.accounted.started_mem_jobs hother) (hversion ▸ hindex)
    exact Nat.le_of_eq (by rw [← hversion, heq])
  · obtain ⟨t, ht, hpending, hversion, -⟩ := mem_jobs.mp hjob'
    have hlt := hfresh head hmem t (by rwa [hindex, hplace.index_eq_slot hjob']) hpending
    rw [hversion]
    exact Nat.le_of_lt hlt

theorem Recorded.entriesOf_queued {p : Phase (Journal V) Req R}
    (hp : Recorded base program tasks before p) {job : Job Req} (hjob : job ∈ p.queue) :
    Journal.entriesOf job.version p.world.state = [] := by
  have hjob' : job ∈ jobs tasks := hp.accounted.started ▸ List.mem_append_right _ hjob
  refine Journal.entriesOf_eq_nil fun entry hmem => ?_
  obtain ⟨new, hstate, hnew⟩ := hp.extends_before
  rw [hstate] at hmem
  rcases List.mem_append.mp hmem with hmem | hmem
  · obtain ⟨other, hother, hversion⟩ := hnew _ hmem
    have heq := hplace.job_eq hjob' (hp.accounted.started_mem_jobs hother)
      (congrArg Version.index hversion)
    have hslot : job.slot ∈ (p.log.filterMap Event.started?).map Job.slot :=
      List.mem_map.mpr ⟨other, List.mem_filterMap.mpr ⟨_, hother, rfl⟩, heq ▸ rfl⟩
    exact (List.nodup_append.mp hp.accounted.started_slots_nodup).2.2 _ hslot _
      (List.mem_map_of_mem hjob) rfl
  · obtain ⟨t, ht, hpending, hversion, -⟩ := mem_jobs.mp hjob'
    have hlt := hfresh _ hmem t (by rwa [hplace.index_eq_slot hjob']) hpending
    rw [hversion] at hlt
    exact Nat.lt_irrefl _ hlt

omit hfresh in
/-- Entries of another job leave those of this one alone. -/
theorem Recorded.entriesOf_cons {p : Phase (Journal V) Req R}
    (hp : Recorded base program tasks before p) {job other : Job Req}
    (hjob : .started job ∈ p.log) (hother : .started other ∈ p.log) (hne : other.slot ≠ job.slot)
    (entry : Journal.Entry V) :
    Journal.entriesOf job.version ((other.version, entry) :: p.world.state) =
      Journal.entriesOf job.version p.world.state := by
  refine Journal.entriesOf_cons_ne (fun hversion => hne ?_) entry _
  rw [← hplace.index_eq_slot (hp.accounted.started_mem_jobs hjob),
    ← hplace.index_eq_slot (hp.accounted.started_mem_jobs hother), hversion]

section Step

variable {p : Phase (Journal V) Req R} (hp : Recorded base program tasks before p)

include hp

theorem Recorded.take {job : Job Req} {rest : List (Job Req)} (hqueue : p.queue = job :: rest)
    (htake : p.canTake = true) :
    Recorded base program tasks before { p with
      queue := rest
      running := p.running ++ [(job, journaling base program job.request job.version)]
      log := .started job :: p.log } := by
  obtain ⟨new, hstate, hnew⟩ := hp.extends_before
  refine { hp with
    accounted := hp.accounted.step (.take hqueue htake)
    extends_before := ⟨new, hstate, fun head hmem => ?_⟩
    running := fun {other call} hmem => ?_
    ended := fun hmem => hp.ended (by simpa using hmem) }
  · obtain ⟨other, hother, hversion⟩ := hnew head hmem
    exact ⟨other, List.mem_cons_of_mem _ hother, hversion⟩
  · rcases List.mem_append.mp hmem with hmem | hmem
    · exact hp.running hmem
    · obtain ⟨rfl, rfl⟩ := Prod.mk.inj (List.mem_singleton.mp hmem)
      refine ⟨_, rfl, fun hpath => ?_⟩
      rw [hp.entriesOf_queued hplace hfresh (hqueue ▸ List.mem_cons_self)]
      exact hpath

omit hfresh in
/-- The calls under way after one of them has made a step: its entry leads to what is left of it, and
the others are where they were. -/
theorem Recorded.running_advance {place : Nat} {job : Job Req}
    {effect : World (Journal V) → Effect (Journal V)}
    {next : World (Journal V) → Call (Journal V) R}
    (hcall : p.running[place]? = some (job, .step effect next))
    (haccounted : Accounted (jobs tasks) { p with
      running := p.running.set place (job, next p.world)
      world := p.world.apply (effect p.world) })
    {entry : Journal.Entry V} {rest : Program V R}
    (hnext : next p.world = rest.journaled base job.version)
    (hpaths : ∀ {entries result}, rest.Path entries result →
      (program job.request job.version).Path
        (Journal.entriesOf job.version p.world.state ++ entry :: entries) result)
    {other : Job Req} {call : Call (Journal V) R}
    (hother : (other, call) ∈ p.running.set place (job, next p.world)) :
    ∃ rest : Program V R, call = rest.journaled base other.version ∧
      ∀ {entries result}, rest.Path entries result →
        (program other.request other.version).Path
          (Journal.entriesOf other.version ((job.version, entry) :: p.world.state) ++ entries)
          result := by
  have hmem := List.mem_of_getElem? hcall
  have hset := (List.nodup_append.mp haccounted.running_slots_nodup).1
  rw [List.map_map] at hset
  have hself : (job, next p.world) ∈ p.running.set place (job, next p.world) :=
    List.mem_set (List.getElem?_eq_some_iff.mp hcall).1 _
  by_cases hsame : other.slot = job.slot
  · have heq : (other, call) = (job, next p.world) :=
      List.inj_on_of_nodup_map hset hother hself hsame
    obtain ⟨rfl, rfl⟩ := Prod.mk.inj heq
    refine ⟨rest, hnext, fun hrest => ?_⟩
    rw [Journal.entriesOf_cons_self, List.append_assoc]
    exact hpaths hrest
  · rcases List.mem_or_eq_of_mem_set hother with hother | heq
    · obtain ⟨rest', hrest', hpaths'⟩ := hp.running hother
      refine ⟨rest', hrest', fun hrest => ?_⟩
      rw [hp.entriesOf_cons hplace (hp.accounted.running_mem_started hother)
        (hp.accounted.running_mem_started hmem) (Ne.symm hsame)]
      exact hpaths' hrest
    · exact absurd (congrArg (fun entry => entry.1.slot) heq) hsame

theorem Recorded.advance {place : Nat} {job : Job Req}
    {effect : World (Journal V) → Effect (Journal V)}
    {next : World (Journal V) → Call (Journal V) R}
    (hcall : p.running[place]? = some (job, .step effect next)) :
    Recorded base program tasks before { p with
      running := p.running.set place (job, next p.world)
      world := p.world.apply (effect p.world) } := by
  have haccounted := hp.accounted.step (.advance place hcall : Step (journaling base program) p _)
  have hmem := List.mem_of_getElem? hcall
  have hstarted := hp.accounted.running_mem_started hmem
  obtain ⟨program', hprogram, hpaths⟩ := hp.running hmem
  obtain ⟨entry, rest, hstate, hcancels, hread, hnext, hpath⟩ :=
    Program.journaled_step hprogram.symm p.world
  obtain ⟨new, hbefore, hnew⟩ := hp.extends_before
  have hentries : (p.world.apply (effect p.world)).state = (job.version, entry) :: p.world.state :=
    hstate
  have hdisjoint := (List.nodup_append.mp hp.accounted.running_slots_nodup).2.2
  refine {
    accounted := haccounted
    extends_before := ⟨(job.version, entry) :: new, ?_, fun head hhead => ?_⟩
    ordered := ?_
    faithful := ?_
    cancelled := fun {version} hentry => ?_
    running := fun {other call} hother => ?_
    ended := fun {other result} hother => ?_ }
  · rw [hentries, hbefore, List.cons_append]
  · rcases List.mem_cons.mp hhead with rfl | hhead
    · exact ⟨job, hstarted, rfl⟩
    · exact hnew head hhead
  · rw [hentries]
    exact List.pairwise_cons.mpr ⟨fun head hhead hindex =>
      hp.incarnation_le hplace hfresh hstarted hhead hindex.symm, hp.ordered⟩
  · rw [hentries]
    exact hp.faithful.cons hread
  · rw [hentries] at hentry
    simp only [World.apply, Bool.or_eq_true]
    rcases List.mem_cons.mp hentry with heq | hentry
    · exact .inr (hcancels (Prod.mk.inj heq).2.symm)
    · exact .inl (hp.cancelled hentry)
  · rw [hentries]
    exact hp.running_advance hplace hcall haccounted hnext (fun hrest => hpaths (hpath hrest)) hother
  · have hne : job.slot ≠ other.slot := by
      refine hdisjoint _ (List.mem_map_of_mem (List.mem_map_of_mem hmem)) _ ?_
      exact List.mem_map_of_mem (List.mem_filterMap.mpr ⟨_, hother, rfl⟩)
    rw [hentries, hp.entriesOf_cons hplace (hp.accounted.ended_mem_started hother) hstarted hne]
    exact hp.ended hother

omit hplace hfresh in
theorem Recorded.finish {place : Nat} {job : Job Req} {result : CallEnd R}
    (hcall : p.running[place]? = some (job, .finish result)) :
    Recorded base program tasks before
      ({ p with running := p.running.eraseIdx place }.conclude job result) := by
  have hmem := List.mem_of_getElem? hcall
  obtain ⟨program', hprogram, hpaths⟩ := hp.running hmem
  have hfinish := Program.journaled_finish hprogram.symm
  subst hfinish
  obtain ⟨new, hstate, hnew⟩ := hp.extends_before
  refine {
    accounted := hp.accounted.step (.finish place hcall : Step (journaling base program) p _)
    extends_before := ⟨new, by simpa using hstate, fun head hhead => ?_⟩
    ordered := by simpa using hp.ordered
    faithful := by simpa using hp.faithful
    cancelled := fun hentry => by simpa using hp.cancelled (by simpa using hentry)
    running := fun hother => ?_
    ended := fun {other result'} hother => ?_ }
  · obtain ⟨other, hother, hversion⟩ := hnew head hhead
    exact ⟨other, by simp [hother], hversion⟩
  · rw [running_conclude] at hother
    rw [world_conclude]
    exact hp.running (List.mem_of_mem_eraseIdx hother)
  · rw [log_conclude] at hother
    rw [world_conclude]
    rcases List.mem_cons.mp hother with heq | hother
    · cases heq
      simpa using hpaths (.finish result)
    · exact hp.ended hother

end Step

theorem Recorded.step {p q : Phase (Journal V) Req R} (h : Step (journaling base program) p q)
    (hp : Recorded base program tasks before p) : Recorded base program tasks before q := by
  have haccounted := hp.accounted.step h
  cases h with
  | take hqueue htake => exact hp.take hplace hfresh hqueue htake
  | advance place hcall => exact hp.advance hplace hfresh hcall
  | finish place hcall => exact hp.finish hcall
  | notice place herror => exact { hp with accounted := haccounted }

/-! ## The journal of a phase -/

/-- What a phase adds to the journal `before` it. -/
structure RecordedEnd (base : KeyMap V) (program : Req → Version → Program V R)
    (tasks : List (Task Req R)) (before : Journal V) (e : End (Journal V) Req R) : Prop where
  extends_before : ∃ new, e.world.state = new ++ before ∧
    ∀ head ∈ new, ∃ job ∈ jobs tasks, job.version = head.1
  ordered : Journal.Ordered e.world.state
  faithful : Journal.Faithful base e.world.state
  cancelled : ∀ {version}, (version, .cancel) ∈ e.world.state → e.world.cancelled = true
  ended : ∀ {job result}, .ended job result ∈ e.log →
    (program job.request job.version).Path (Journal.entriesOf job.version e.world.state) result

theorem run_recorded (workers : Int64) (schedule : List Choice) (round : Nat) {cancelled : Bool}
    (hordered : Journal.Ordered before) (hfaithful : Journal.Faithful base before)
    (hcancelled : ∀ {version}, (version, .cancel) ∈ before → cancelled = true) :
    RecordedEnd base program tasks before
      (run (journaling base program) workers schedule round ⟨before, cancelled⟩ tasks) := by
  refine run_induct _ _ _ _ _ _ (P := RecordedEnd base program tasks before) (fun _ => ?_)
    fun _ _ => ?_
  · exact ⟨⟨[], rfl, fun _ hmem => (List.not_mem_nil hmem).elim⟩, hordered, hfaithful, hcancelled,
      fun hmem => (List.not_mem_nil hmem).elim⟩
  · have hstart : Recorded base program tasks before (start workers ⟨before, cancelled⟩ tasks) :=
      { accounted := ⟨rfl, .refl _, rfl⟩
        extends_before := ⟨[], rfl, fun _ hmem => (List.not_mem_nil hmem).elim⟩
        ordered := hordered
        faithful := hfaithful
        cancelled := hcancelled
        running := fun hmem => (List.not_mem_nil hmem).elim
        ended := fun hmem => (List.not_mem_nil hmem).elim }
    have hlast : Recorded base program tasks before
        (last (journaling base program) workers schedule ⟨before, cancelled⟩ tasks) :=
      (steps_last ..).invariant (Recorded.step hplace hfresh) hstart
    obtain ⟨new, hstate, hnew⟩ := hlast.extends_before
    refine ⟨⟨new, hstate, fun head hmem => ?_⟩, hlast.ordered, hlast.faithful, hlast.cancelled,
      hlast.ended⟩
    obtain ⟨job, hjob, hversion⟩ := hnew head hmem
    exact ⟨job, hlast.accounted.started_mem_jobs hjob, hversion⟩

end Journal

end Phase

end TxBatch
