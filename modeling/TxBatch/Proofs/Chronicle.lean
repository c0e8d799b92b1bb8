import TxBatch.Proofs.Arena
import TxBatch.Proofs.Image
import TxBatch.Proofs.Phase.Recorded

/-!
# The journal of a run

A run whose calls keep a journal ends with all that its calls did, round by round. `Chronicle` is
what ties the journal to the tasks between two rounds:

- the entries of an attempt are a way through its program, and those of the attempt behind a result
  end with that result;
- nothing in the journal is of an attempt still to come;
- what a call read is followed by nothing of a position whose result is older than the call's.

The last is where the rounds come in: a result that stands is not executed again, so what was older
in the round of the call is not touched in or after that round.
-/

namespace TxBatch

variable {V Req R : Type}

theorem Journal.entriesOf_append_of_ne {version : Version} {newer : Journal V}
    (h : ∀ head ∈ newer, head.1 ≠ version) (older : Journal V) :
    entriesOf version (newer ++ older) = entriesOf version older := by
  have hnil : newer.filter (fun head => head.1 = version) = [] := by
    refine List.filter_eq_nil_iff.mpr fun head hmem => ?_
    simpa using h head hmem
  simp [entriesOf, hnil]

/-- The journal of a run and its tasks, when `number` rounds are over. -/
structure Chronicle (base : KeyMap V) (program : Req → Version → Program V R)
    (requests : List Req) (number : Nat) (tasks : List (Task Req R)) (journal : Journal V) :
    Prop where
  seated : Seated requests tasks
  ordered : journal.Ordered
  faithful : Journal.Faithful base journal
  uncancelled : ∀ version, (version, .cancel) ∉ journal
  stamped : ∀ head ∈ journal, ∃ t, tasks[head.1.index]? = some t ∧
    head.1.incarnation ≤ t.incarnation ∧ (t.status = .pending → head.1.incarnation < t.incarnation)
  paths : ∀ head ∈ journal, ∃ request result, requests[head.1.index]? = some request ∧
    (program request head.1).Path (Journal.entriesOf head.1 journal) result ∧
    result.outcome?.isSome
  answered : ∀ {slot : Nat} {t response round}, tasks[slot]? = some t →
    t.result? = some (response, round) → round ≤ number ∧
      (program t.request t.version).Path (Journal.entriesOf t.version journal) (.returned response)
  untouched : ∀ {slot : Nat} {t response round}, tasks[slot]? = some t →
    t.result? = some (response, round) →
    ∀ {newer key found older}, journal = newer ++ (t.version, .read key found) :: older →
    ∀ {lower : Nat} {u other otherRound}, tasks[lower]? = some u →
      u.result? = some (other, otherRound) → otherRound < round →
      ∀ head ∈ newer, head.1.index ≠ lower

namespace Chronicle

variable {base : KeyMap V} {program : Req → Version → Program V R} {requests : List Req}
  {number : Nat} {tasks : List (Task Req R)} {journal : Journal V}

theorem start (base : KeyMap V) (program : Req → Version → Program V R) (requests : List Req) :
    Chronicle base program requests 0 (Task.ofRequests requests) [] where
  seated := seated_ofRequests requests
  ordered := .nil
  faithful := Journal.faithful_nil base
  uncancelled := fun _ hmem => List.not_mem_nil hmem
  stamped := fun _ hmem => (List.not_mem_nil hmem).elim
  paths := fun _ hmem => (List.not_mem_nil hmem).elim
  answered := fun ht hresult => by
    obtain ⟨⟨request, index⟩, -, rfl⟩ := List.mem_map.mp (List.mem_of_getElem? ht)
    cases hresult
  untouched := fun ht hresult => by
    obtain ⟨⟨request, index⟩, -, rfl⟩ := List.mem_map.mp (List.mem_of_getElem? ht)
    cases hresult

variable (h : Chronicle base program requests number tasks journal)

include h

/-- The journal stays that of the run when tasks are judged or sent back. -/
theorem replace {tasks' : List (Task Req R)} (hseated : Seated requests tasks')
    (hlength : tasks.length = tasks'.length)
    (hsame : ∀ {slot : Nat} {t t'}, tasks[slot]? = some t → tasks'[slot]? = some t' →
      t.incarnation ≤ t'.incarnation ∧
      (t'.status = .pending → t.incarnation < t'.incarnation) ∧
      ∀ {result}, t'.result? = some result →
        t.result? = some result ∧ t'.version = t.version ∧ t'.request = t.request) :
    Chronicle base program requests number tasks' journal := by
  refine { h with
    seated := hseated
    stamped := fun head hmem => ?_
    answered := fun {slot t'} _ _ ht' hresult => ?_
    untouched := fun {slot t'} _ _ ht' hresult {_ _ _ _} hsplit {lower u'} _ _ hu' hother => ?_ }
  · obtain ⟨t, ht, hle, -⟩ := h.stamped head hmem
    obtain ⟨t', ht'⟩ := getElem?_of_length_eq hlength ht
    obtain ⟨hmono, hpending, -⟩ := hsame ht ht'
    exact ⟨t', ht', by omega, fun hstatus => by have := hpending hstatus; omega⟩
  · obtain ⟨t, ht⟩ := getElem?_of_length_eq hlength.symm ht'
    obtain ⟨hresult, hversion, hrequest⟩ := (hsame ht ht').2.2 hresult
    rw [hversion, hrequest]
    exact h.answered ht hresult
  · obtain ⟨t, ht⟩ := getElem?_of_length_eq hlength.symm ht'
    obtain ⟨u, hu⟩ := getElem?_of_length_eq hlength.symm hu'
    obtain ⟨hresult, hversion, -⟩ := (hsame ht ht').2.2 hresult
    rw [hversion] at hsplit
    exact h.untouched ht hresult hsplit hu ((hsame hu hu').2.2 hother).1

theorem task_of_new {new : Journal V}
    (hnew : ∀ head ∈ new, ∃ job ∈ jobs tasks, job.version = head.1) {head}
    (hmem : head ∈ new) :
    ∃ t, tasks[head.1.index]? = some t ∧ t.status = .pending ∧ t.version = head.1 := by
  obtain ⟨job, hjob, hversion⟩ := hnew head hmem
  have hslot : job.version.index = job.slot :=
    Phase.InPlace.index_eq_slot (fun ht => h.seated.index ht) hjob
  obtain ⟨t, ht, hpending, hversion', -⟩ := Phase.mem_jobs.mp hjob
  rw [← hversion]
  exact ⟨t, hslot.symm ▸ ht, hpending, hversion'.symm⟩

theorem untouched_of_not_pending {new : Journal V}
    (hnew : ∀ head ∈ new, ∃ job ∈ jobs tasks, job.version = head.1) {slot : Nat} {t : Task Req R}
    (ht : tasks[slot]? = some t) (hstatus : t.status ≠ .pending) :
    ∀ head ∈ new, head.1.index ≠ slot := by
  rintro head hmem rfl
  obtain ⟨u, hu, hpending, -⟩ := h.task_of_new hnew hmem
  obtain rfl := Option.some.inj (ht.symm.trans hu)
  exact hstatus hpending

/-- New entries are of attempts that the journal did not know. -/
theorem version_ne_of_new {new : Journal V}
    (hnew : ∀ head ∈ new, ∃ job ∈ jobs tasks, job.version = head.1) {head}
    (hmem : head ∈ journal) : ∀ other ∈ new, other.1 ≠ head.1 := by
  intro other hother heq
  obtain ⟨u, hu, hpending, hversion⟩ := h.task_of_new hnew hother
  obtain ⟨t, ht, -, hlt⟩ := h.stamped head hmem
  rw [heq] at hu hversion
  obtain rfl := Option.some.inj (ht.symm.trans hu)
  have hlt' := hlt hpending
  rw [← hversion] at hlt'
  exact Nat.lt_irrefl _ hlt'

omit h in
/-- Two ways to part one journal, in front of an entry and in front of its older part: what is newer
than the entry is new, or the entry is old. -/
theorem newer_of_append_eq {new old newer older : Journal V} {entry : Version × Journal.Entry V}
    (heq : new ++ old = newer ++ entry :: older) :
    (∀ head ∈ newer, head ∈ new) ∨ ∃ rest, newer = new ++ rest ∧ old = rest ++ entry :: older := by
  rcases List.append_eq_append_iff.mp heq with ⟨rest, hnewer, hold⟩ | ⟨rest, hnew, -⟩
  · exact .inr ⟨rest, hnewer, hold⟩
  · exact .inl fun head hmem => hnew ▸ List.mem_append_left _ hmem

section Round

variable {s : Scheduler (Journal V) Req R} {env : Environment} {b b' : Batch (Journal V) Req R}
  (hexecutor : s.executor = Phase.journaling base program) (hrounds : b.report.rounds = number)

omit h

include hexecutor

theorem recordedEnd (h : Chronicle base program requests number b.tasks b.world.state)
    (env : Environment) :
    Phase.RecordedEnd base program b.tasks b.world.state (s.phaseAfter env b) := by
  have hfresh : ∀ head ∈ b.world.state, ∀ t, b.tasks[head.1.index]? = some t →
      t.status = .pending → head.1.incarnation < t.incarnation := by
    intro head hmem t ht hpending
    obtain ⟨u, hu, -, hlt⟩ := h.stamped head hmem
    obtain rfl := Option.some.inj (ht.symm.trans hu)
    exact hlt hpending
  rw [Scheduler.phaseAfter, hexecutor]
  exact Phase.run_recorded (fun ht => h.seated.index ht) hfresh _ _ _ h.ordered h.faithful
    fun hmem => (h.uncancelled _ hmem).elim

variable {summary : Summary} (hok : (s.phaseAfter env b).verdict = .ok summary)

include hok

theorem phaseAfter_stamped (h : Chronicle base program requests number b.tasks b.world.state)
    {head : Version × Journal.Entry V} (hmem : head ∈ (s.phaseAfter env b).world.state) :
    ∃ t, (s.phaseAfter env b).tasks[head.1.index]? = some t ∧
      head.1.incarnation ≤ t.incarnation ∧
      (t.status = .pending → head.1.incarnation < t.incarnation) := by
  obtain ⟨new, hstate, hnew⟩ := (h.recordedEnd hexecutor env).extends_before
  obtain ⟨t, ht, hle⟩ : ∃ t, b.tasks[head.1.index]? = some t ∧
      head.1.incarnation ≤ t.incarnation := by
    rw [hstate] at hmem
    rcases List.mem_append.mp hmem with hmem | hmem
    · obtain ⟨t, ht, -, hversion⟩ := h.task_of_new hnew hmem
      exact ⟨t, ht, Nat.le_of_eq (congrArg Version.incarnation hversion.symm)⟩
    · obtain ⟨t, ht, hle, -⟩ := h.stamped head hmem
      exact ⟨t, ht, hle⟩
  have hlength : b.tasks.length = (s.phaseAfter env b).tasks.length := (Phase.run_length ..).symm
  obtain ⟨t', ht'⟩ := getElem?_of_length_eq hlength ht
  obtain ⟨u, hu, hversion, -, -⟩ := Scheduler.phaseAfter_origin hok ht'
  obtain rfl := Option.some.inj (ht.symm.trans hu)
  have hincarnation : t'.incarnation = t.incarnation := congrArg Version.incarnation hversion
  exact ⟨t', ht', hincarnation ▸ hle,
    fun hpending => absurd hpending (Scheduler.phaseAfter_status hok ht')⟩

theorem phaseAfter_paths (h : Chronicle base program requests number b.tasks b.world.state)
    {head : Version × Journal.Entry V} (hmem : head ∈ (s.phaseAfter env b).world.state) :
    ∃ request result, requests[head.1.index]? = some request ∧
      (program request head.1).Path
        (Journal.entriesOf head.1 (s.phaseAfter env b).world.state) result ∧
      result.outcome?.isSome := by
  have hrecorded := h.recordedEnd hexecutor env
  obtain ⟨new, hstate, hnew⟩ := hrecorded.extends_before
  rw [hstate] at hmem
  rcases List.mem_append.mp hmem with hmem | hmem
  · obtain ⟨t, ht, hpending, hversion⟩ := h.task_of_new hnew hmem
    rcases Scheduler.phaseAfter_task hok ht with ⟨hstatus, -⟩ | ⟨-, result, outcome, hended,
      hout, -⟩
    · exact absurd hpending hstatus
    · have hpath := hrecorded.ended hended
      rw [hversion] at hpath
      exact ⟨t.request, result, h.seated.request ht, hpath, by simp [hout]⟩
  · obtain ⟨request, result, hrequest, hpath, hout⟩ := h.paths head hmem
    rw [hstate, Journal.entriesOf_append_of_ne (h.version_ne_of_new hnew hmem)]
    exact ⟨request, result, hrequest, hpath, hout⟩

include hrounds

theorem phaseAfter_answered (h : Chronicle base program requests number b.tasks b.world.state)
    {slot : Nat} {t' : Task Req R} {response : R} {round : Nat}
    (ht' : (s.phaseAfter env b).tasks[slot]? = some t')
    (hresult : t'.result? = some (response, round)) :
    round ≤ number + 1 ∧ (program t'.request t'.version).Path
      (Journal.entriesOf t'.version (s.phaseAfter env b).world.state) (.returned response) := by
  have hrecorded := h.recordedEnd hexecutor env
  obtain ⟨new, hstate, hnew⟩ := hrecorded.extends_before
  obtain ⟨t, ht, hversion, hrequest, ⟨hstatus, rfl⟩ | ⟨-, result, outcome, hended, hout, rfl⟩⟩ :=
    Scheduler.phaseAfter_origin hok ht'
  · have hne : ∀ head ∈ new, head.1 ≠ t'.version := by
      intro head hmem heq
      refine h.untouched_of_not_pending hnew ht hstatus head hmem ?_
      rw [heq]
      exact h.seated.index ht
    obtain ⟨hle, hpath⟩ := h.answered ht hresult
    rw [hstate, Journal.entriesOf_append_of_ne hne]
    exact ⟨Nat.le_succ_of_le hle, hpath⟩
  · obtain ⟨rfl, rfl⟩ := Task.receive_result? hresult
    obtain rfl := CallEnd.eq_returned hout
    rw [hversion, hrequest]
    exact ⟨Nat.le_of_eq (congrArg (· + 1) hrounds), hrecorded.ended hended⟩

theorem phaseAfter_untouched (h : Chronicle base program requests number b.tasks b.world.state)
    {slot lower : Nat} {t' u' : Task Req R} {response other : R} {round otherRound : Nat}
    (ht' : (s.phaseAfter env b).tasks[slot]? = some t')
    (hresult : t'.result? = some (response, round))
    (hu' : (s.phaseAfter env b).tasks[lower]? = some u')
    (hother : u'.result? = some (other, otherRound)) (hlt : otherRound < round) {key : Key}
    {found : Reading V} {newer older : Journal V}
    (hsplit : (s.phaseAfter env b).world.state = newer ++ (t'.version, .read key found) :: older) :
    ∀ head ∈ newer, head.1.index ≠ lower := by
  intro head hmem
  obtain ⟨new, hstate, hnew⟩ := (h.recordedEnd hexecutor env).extends_before
  have hround := (h.phaseAfter_answered hexecutor hrounds hok ht' hresult).1
  obtain ⟨t, ht, hversion, -, htask⟩ := Scheduler.phaseAfter_origin hok ht'
  obtain ⟨u, hu, -, -, hlower⟩ := Scheduler.phaseAfter_origin hok hu'
  have hold : u.status ≠ .pending ∧ u' = u := by
    rcases hlower with hold | ⟨-, _, _, -, -, rfl⟩
    · exact hold
    · have hnow := (Task.receive_result? hother).2
      omega
  have hnewer := h.untouched_of_not_pending hnew hu hold.1
  rw [hstate] at hsplit
  rcases newer_of_append_eq hsplit with hall | ⟨rest, rfl, hjournal⟩
  · exact hnewer head (hall head hmem)
  · rcases List.mem_append.mp hmem with hmem | hmem
    · exact hnewer head hmem
    · rw [hversion] at hjournal
      rcases htask with ⟨-, rfl⟩ | ⟨hpending, -⟩
      · exact h.untouched ht hresult hjournal hu (hold.2 ▸ hother) hlt head hmem
      · -- The call ran in this round, so the older journal has nothing of it.
        have hknown : (t.version, .read key found) ∈ b.world.state := by simp [hjournal]
        obtain ⟨t₀, ht₀, -, hlt'⟩ := h.stamped _ hknown
        have hindex : t.version.index = slot := h.seated.index ht
        rw [hindex] at ht₀
        obtain rfl := Option.some.inj (ht.symm.trans ht₀)
        exact absurd (hlt' hpending) (Nat.lt_irrefl _)

omit hrounds in
theorem phaseAfter_uncancelled (h : Chronicle base program requests number b.tasks b.world.state)
    (version : Version) : (version, .cancel) ∉ (s.phaseAfter env b).world.state := by
  intro hmem
  by_cases hjobs : jobs b.tasks = []
  · rw [Scheduler.phaseAfter, Phase.run_of_no_jobs _ _ _ _ _ _ hjobs] at hmem
    exact h.uncancelled version hmem
  · have hopen := Phase.run_cancelled_of_ok _ _ _ _ _ _ hok hjobs
    cases hopen.symm.trans ((h.recordedEnd hexecutor env).cancelled hmem)

/-- A phase that succeeds goes on with the journal: a round more is over. -/
theorem phaseAfter (h : Chronicle base program requests number b.tasks b.world.state) :
    Chronicle base program requests (number + 1) (s.phaseAfter env b).tasks
      (s.phaseAfter env b).world.state := by
  have hrecorded := h.recordedEnd hexecutor env
  exact {
    seated := Scheduler.phaseAfter_seated h.seated
    ordered := hrecorded.ordered
    faithful := hrecorded.faithful
    uncancelled := h.phaseAfter_uncancelled hexecutor hok
    stamped := fun head hmem => h.phaseAfter_stamped hexecutor hok hmem
    paths := fun head hmem => h.phaseAfter_paths hexecutor hok hmem
    answered := h.phaseAfter_answered hexecutor hrounds hok
    untouched := fun ht hresult _ _ _ _ hsplit _ _ _ _ hu hother hlt =>
      h.phaseAfter_untouched hexecutor hrounds hok ht hresult hu hother hlt hsplit }

end Round

end Chronicle

/-! ## The run -/

/-- A batch between two rounds, or behind the last, with the journal of its run. -/
structure Chronicled (base : KeyMap V) (program : Req → Version → Program V R)
    (requests : List Req) (number : Nat) (b : Batch (Journal V) Req R) : Prop where
  rounds : b.report.rounds = number
  chronicle : Chronicle base program requests number b.tasks b.world.state

namespace Scheduler

variable {base : KeyMap V} {program : Req → Version → Program V R} {requests : List Req}
  {number : Nat} {s : Scheduler (Journal V) Req R} {env : Environment}
  {b b' : Batch (Journal V) Req R}

theorem chronicled_start (metrics : Metrics) :
    Chronicled base program requests 0 (Batch.start metrics ⟨[], false⟩ requests) :=
  ⟨rfl, .start base program requests⟩

variable [Tracked R] (hs : s.validator = Validator.readWrite)
  (hexecutor : s.executor = Phase.journaling base program)

include hs hexecutor

theorem passAfter_chronicle (h : Chronicled base program requests number b) {summary : Summary}
    (hok : (s.phaseAfter env b).verdict = .ok summary) :
    Chronicle base program requests (number + 1) (s.passAfter env b).1
      (s.phaseAfter env b).world.state := by
  have hphase := h.chronicle.phaseAfter hexecutor h.rounds hok
  have hseated := passAfter_seated hs env h.chronicle.seated
  refine hphase.replace hseated (hphase.seated.length.trans hseated.length.symm) ?_
  intro slot t t' ht ht'
  have hstatus := (judges hs).passAfter_status hok ht'
  rw [passAfter_readWrite hs, Validator.getElem?_judgeBehind, ht] at ht'
  obtain rfl := Option.some.inj ht'
  refine ⟨by simp, fun hpending => ?_, fun hresult => ?_⟩
  · rw [hpending] at hstatus
    rcases hstatus with hstatus | hstatus <;> cases hstatus
  · exact ⟨(Validator.judge_result? hresult).1, by simp [Task.version], by simp⟩

theorem again_chronicled (h : Chronicled base program requests number b)
    (hround : s.round env b = .again b') : Chronicled base program requests (number + 1) b' := by
  obtain ⟨⟨summary, hok⟩, -⟩ := round_again hround
  have hbatch := round_batch s env b
  rw [hround] at hbatch
  have hworld : b'.world = (s.phaseAfter env b).world := hbatch.1
  have hpass := passAfter_chronicle hs hexecutor h hok
  have hseated := (judges hs).again_seated h.chronicle.seated hround
  refine ⟨hbatch.2.2.1.trans (congrArg (· + 1) h.rounds), ?_⟩
  rw [hworld]
  refine hpass.replace hseated (hpass.seated.length.trans hseated.length.symm) ?_
  intro slot t t' ht ht'
  rcases (judges hs).again_task h.chronicle.seated hround ht with ⟨hvalidated, h'⟩ | ⟨-, h'⟩
  · obtain rfl := Option.some.inj (ht'.symm.trans h')
    exact ⟨Nat.le_refl _, fun hpending => (by rw [hvalidated] at hpending; cases hpending),
      fun hresult => ⟨hresult, rfl, rfl⟩⟩
  · obtain rfl := Option.some.inj (ht'.symm.trans h')
    exact ⟨Nat.le_succ _, fun _ => Nat.lt_succ_self _, fun hresult => by cases hresult⟩

theorem settled_chronicled (h : Chronicled base program requests number b)
    (hround : s.round env b = .settled b') : Chronicled base program requests (number + 1) b' := by
  obtain ⟨⟨summary, hok⟩, -, htasks, -⟩ := round_settled hround
  have hbatch := round_batch s env b
  rw [hround] at hbatch
  have hworld : b'.world = (s.phaseAfter env b).world := hbatch.1
  refine ⟨hbatch.2.2.1.trans (congrArg (· + 1) h.rounds), ?_⟩
  rw [hworld, htasks]
  exact passAfter_chronicle hs hexecutor h hok

/-- What is known of a journaled run that ended with responses: its journal, and that every task is
accepted by verdicts against the final results. -/
theorem process_chronicled {metrics : Metrics} {rs : List R}
    (hresult : (s.process env metrics ⟨[], false⟩ requests).result = .ok rs) :
    ∃ b number, (s.process env metrics ⟨[], false⟩ requests).batch.Agrees b ∧
      responses b.tasks = .ok rs ∧ Chronicled base program requests number b ∧
      (∀ t ∈ b.tasks, t.status = .validated) ∧ Validator.judgeBehind [] b.tasks = b.tasks := by
  by_cases hne : requests = []
  · subst hne
    obtain ⟨hresponses, hagrees⟩ := process_nil hresult
    exact ⟨_, 0, hagrees, hresponses, chronicled_start metrics,
      fun t ht => (List.not_mem_nil ht).elim, rfl⟩
  · obtain ⟨last, b, hlast, hagrees, hresponses⟩ := settled_of_process_ok hne hresult
    cases last with
    | zero => cases hlast
    | succ number =>
        obtain ⟨c, hc, hround⟩ := roundEnd?_succ hlast
        have hchronicled : Chronicled base program requests number c :=
          roundEnd?_again (I := Chronicled base program requests) (chronicled_start metrics)
            (again_chronicled hs hexecutor) hc
        refine ⟨b, number + 1, hagrees, hresponses,
          settled_chronicled hs hexecutor hchronicled hround,
          fun t ht => settled_status hs hchronicled.chronicle.seated hround ht, ?_⟩
        rw [(round_settled hround).2.2.1, passAfter_readWrite hs,
          Validator.judgeBehind_judgeBehind]

end Scheduler

/-! ## Runs over the store -/

namespace Scheduler

variable {base : KeyMap V} {program : Req → Version → Program V R} {requests : List Req}
  {s : Scheduler (Store V) Req R}
  (hexecutor : s.executor = fun request version => (program request version).call version)

/-- The scheduler with calls that keep a journal in place of the store. -/
def journaling (s : Scheduler (Store V) Req R) (base : KeyMap V)
    (program : Req → Version → Program V R) : Scheduler (Journal V) Req R :=
  { executor := Phase.journaling base program, validator := s.validator, config := s.config }

include hexecutor

/-- A run over the store is a journaled run with its journal forgotten for the store. -/
theorem process_journaling (base : KeyMap V) (env : Environment) (metrics : Metrics)
    (requests : List Req) :
    s.process env metrics ⟨.ofBase base, false⟩ requests =
      ((s.journaling base program).process env metrics ⟨[], false⟩ requests).map
        (Journal.replay base) := by
  have hmaps : Maps (Journal.replay base) (s.journaling base program) s :=
    { executor := fun request version => by
        rw [hexecutor]
        exact Program.journaled_maps base version (program request version)
      validator := rfl
      config := rfl }
  exact process_map hmaps env metrics ⟨[], false⟩ requests

end Scheduler

end TxBatch
