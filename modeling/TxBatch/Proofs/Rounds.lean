import TxBatch.Proofs.Phase.Delivery
import TxBatch.Scheduler

/-!
# The rounds of a run

A run is a sequence of rounds, and what is true of a whole run is proved round by round: here is
the sequence itself (`roundEnd?`), what one round does (`round_again`, `round_settled`,
`round_halted`), and how the end of the run follows from the end of its last round
(`finished_rounds`, `process_of_settled`).

The tasks sent back are the reported ones, each once; no other task changes (`sendBackAll_ok`).
-/

namespace TxBatch

namespace RoundEnd

variable {S Req R : Type}

def batch : RoundEnd S Req R → Batch S Req R
  | .again batch => batch
  | .settled batch => batch
  | .halted _ batch => batch

end RoundEnd

/-- The batches agree, the metrics of the scheduler apart. -/
structure Batch.Agrees {S Req R : Type} (b c : Batch S Req R) : Prop where
  tasks : b.tasks = c.tasks
  world : b.world = c.world
  log : b.log = c.log
  report : b.report = c.report

namespace Scheduler

variable {S Req R : Type}

section Round

variable (s : Scheduler S Req R) (env : Environment)

def phaseAfter (b : Batch S Req R) : Phase.End S Req R :=
  Phase.run s.executor s.config.workers (env.schedule (b.report.rounds + 1))
    (b.report.rounds + 1) (env.enter (b.report.rounds + 1) b.world) b.tasks

/-- The tasks after the validation pass of the round that follows `b`, and those reported. -/
def passAfter (b : Batch S Req R) : List (Task Req R) × List Nat :=
  s.validator (b.report.rounds + 1) (s.phaseAfter env b).tasks

theorem round_batch (b : Batch S Req R) :
    (s.round env b).batch.world = (s.phaseAfter env b).world ∧
      (s.round env b).batch.log = (s.phaseAfter env b).log :: b.log ∧
      (s.round env b).batch.report.rounds = b.report.rounds + 1 ∧
      (s.round env b).batch.report.transactions = b.report.transactions := by
  unfold round phaseAfter
  dsimp only
  split
  · exact ⟨rfl, rfl, rfl, rfl⟩
  · split
    · exact ⟨rfl, rfl, rfl, rfl⟩
    · split <;> exact ⟨rfl, rfl, rfl, rfl⟩

variable {s env} {b b' : Batch S Req R}

theorem round_again (h : s.round env b = .again b') :
    (∃ summary, (s.phaseAfter env b).verdict = .ok summary) ∧ (s.passAfter env b).2 ≠ [] ∧
      sendBackAll s.config (s.passAfter env b).1 (s.passAfter env b).2 = .ok b'.tasks ∧
      b'.report.retries = b.report.retries + (s.passAfter env b).2.length := by
  unfold round at h
  dsimp only at h
  split at h
  · cases h
  · rename_i summary hverdict
    split at h
    · cases h
    · rename_i hreported
      split at h
      · cases h
      · rename_i tasks hsend
        cases h
        exact ⟨⟨summary, hverdict⟩, by simpa [passAfter, phaseAfter] using hreported, hsend, rfl⟩

theorem round_settled (h : s.round env b = .settled b') :
    (∃ summary, (s.phaseAfter env b).verdict = .ok summary) ∧ (s.passAfter env b).2 = [] ∧
      b'.tasks = (s.passAfter env b).1 ∧ b'.report.retries = b.report.retries := by
  unfold round at h
  dsimp only at h
  split at h
  · cases h
  · rename_i summary hverdict
    split at h
    · rename_i hreported
      cases h
      exact ⟨⟨summary, hverdict⟩, by simpa [passAfter, phaseAfter] using hreported, rfl, rfl⟩
    · split at h <;> cases h

theorem round_halted {reason : Halt} (h : s.round env b = .halted reason b') :
    (∃ error, (s.phaseAfter env b).verdict = .error error ∧ reason = .failed error ∧
      b'.tasks = (s.phaseAfter env b).tasks) ∨
    ((∃ summary, (s.phaseAfter env b).verdict = .ok summary) ∧
      sendBackAll s.config (s.passAfter env b).1 (s.passAfter env b).2 = .error reason ∧
      b'.tasks = (s.passAfter env b).1) := by
  unfold round at h
  dsimp only at h
  split at h
  · rename_i error hverdict
    cases h
    exact .inl ⟨error, hverdict, rfl, rfl⟩
  · rename_i summary hverdict
    split at h
    · cases h
    · split at h
      · rename_i hsend
        cases h
        exact .inr ⟨⟨summary, hverdict⟩, hsend, rfl⟩
      · cases h

theorem round_of_error {error : BatchError}
    (h : (s.phaseAfter env b).verdict = .error error) :
    s.round env b = .halted (.failed error) (s.round env b).batch := by
  cases hround : s.round env b with
  | again b' =>
      obtain ⟨⟨summary, hok⟩, -⟩ := round_again hround
      cases h.symm.trans hok
  | settled b' =>
      obtain ⟨⟨summary, hok⟩, -⟩ := round_settled hround
      cases h.symm.trans hok
  | halted reason b' =>
      rcases round_halted hround with ⟨error', herror, rfl, -⟩ | ⟨⟨summary, hok⟩, -⟩
      · cases h.symm.trans herror
        rfl
      · cases h.symm.trans hok

end Round

/-! ## The sequence of rounds -/

section Run

variable (s : Scheduler S Req R) (env : Environment) (start : Batch S Req R)

/-- How round `number` of a run ends, if the run gets there. Rounds are counted from one; in front
of them stands the batch as it started. -/
def roundEnd? : Nat → Option (RoundEnd S Req R)
  | 0 => some (.again start)
  | number + 1 =>
    match roundEnd? number with
    | some (.again b) => some (s.round env b)
    | _ => none

variable {s env start}

theorem roundEnd?_succ {number : Nat} {e : RoundEnd S Req R}
    (h : s.roundEnd? env start (number + 1) = some e) :
    ∃ b, s.roundEnd? env start number = some (.again b) ∧ s.round env b = e := by
  unfold roundEnd? at h
  split at h
  · rename_i b hb
    exact ⟨b, hb, Option.some.inj h⟩
  · cases h

theorem roundEnd?_succ_of_again {number : Nat} {b : Batch S Req R}
    (hb : s.roundEnd? env start number = some (.again b)) :
    s.roundEnd? env start (number + 1) = some (s.round env b) := by
  simp only [roundEnd?, hb]

theorem roundEnd?_tasks {number : Nat} {e : RoundEnd S Req R}
    (h : s.roundEnd? env start number = some e) :
    (∃ b, e = .again b) ∨ ∃ earlier b, number = earlier + 1 ∧
      s.roundEnd? env start earlier = some (.again b) ∧
      (e.batch.tasks = (s.phaseAfter env b).tasks ∨ e.batch.tasks = (s.passAfter env b).1) := by
  cases number with
  | zero =>
      cases h
      exact .inl ⟨start, rfl⟩
  | succ number =>
      obtain ⟨b, hb, hround⟩ := roundEnd?_succ h
      cases e with
      | again b' => exact .inl ⟨b', rfl⟩
      | settled b' =>
          obtain ⟨-, -, htasks, -⟩ := round_settled hround
          exact .inr ⟨number, b, rfl, hb, .inr htasks⟩
      | halted reason b' =>
          rcases round_halted hround with ⟨_, -, -, htasks⟩ | ⟨-, -, htasks⟩
          · exact .inr ⟨number, b, rfl, hb, .inl htasks⟩
          · exact .inr ⟨number, b, rfl, hb, .inr htasks⟩

theorem roundEnd?_again {I : Nat → Batch S Req R → Prop} (hstart : I 0 start)
    (hround : ∀ {number b b'}, I number b → s.round env b = .again b' → I (number + 1) b') :
    ∀ {number b}, s.roundEnd? env start number = some (.again b) → I number b := by
  intro number
  induction number with
  | zero =>
      intro b h
      cases h
      exact hstart
  | succ number ih =>
      intro b' h
      obtain ⟨b, hb, hround'⟩ := roundEnd?_succ h
      exact hround (ih hb) hround'

theorem roundEnd?_of_lt {number : Nat} {e : RoundEnd S Req R}
    (h : s.roundEnd? env start number = some e) {earlier : Nat} (hlt : earlier < number) :
    ∃ b, s.roundEnd? env start earlier = some (.again b) := by
  induction number generalizing e with
  | zero => omega
  | succ number ih =>
      obtain ⟨b, hb, -⟩ := roundEnd?_succ h
      rcases Nat.lt_or_eq_of_le (Nat.le_of_lt_succ hlt) with hlt | rfl
      · exact ih hb hlt
      · exact ⟨b, hb⟩

theorem roundEnd?_last_unique {m n : Nat} {e e' : RoundEnd S Req R}
    (h : s.roundEnd? env start m = some e) (h' : s.roundEnd? env start n = some e')
    (hlast : ∀ b, e ≠ .again b) (hlast' : ∀ b, e' ≠ .again b) : m = n ∧ e = e' := by
  rcases Nat.lt_trichotomy m n with hlt | rfl | hlt
  · obtain ⟨b, hb⟩ := roundEnd?_of_lt h' hlt
    exact absurd (Option.some.inj (h.symm.trans hb)) (hlast b)
  · exact ⟨rfl, Option.some.inj (h.symm.trans h')⟩
  · obtain ⟨b, hb⟩ := roundEnd?_of_lt h hlt
    exact absurd (Option.some.inj (h'.symm.trans hb)) (hlast' b)

theorem roundEnd?_counted {metrics : Metrics} {world : World S} {requests : List Req} :
    ∀ {number : Nat} {e : RoundEnd S Req R},
      s.roundEnd? env (Batch.start metrics world requests) number = some e →
      e.batch.report.rounds = number ∧ e.batch.log.length = number := by
  intro number
  induction number with
  | zero =>
      intro e h
      cases h
      exact ⟨rfl, rfl⟩
  | succ number ih =>
      intro e h
      obtain ⟨b, hb, rfl⟩ := roundEnd?_succ h
      obtain ⟨hrounds, hlog⟩ := ih hb
      obtain ⟨-, hlog', hrounds', -⟩ := round_batch s env b
      rw [hlog', hrounds', List.length_cons]
      exact ⟨congrArg (· + 1) hrounds, congrArg (· + 1) hlog⟩

/-- A round depends on the environment of the rounds so far. -/
theorem roundEnd?_congr {env' : Environment} {metrics : Metrics} {world : World S}
    {requests : List Req} (hmicros : env'.roundMicros = env.roundMicros)
    {number : Nat} (hinterrupts : ∀ n ≤ number, env'.interrupts n = env.interrupts n)
    (hschedule : ∀ n ≤ number, env'.schedule n = env.schedule n) :
    s.roundEnd? env' (Batch.start metrics world requests) number =
      s.roundEnd? env (Batch.start metrics world requests) number := by
  induction number with
  | zero => rfl
  | succ number ih =>
      have hsame := ih (fun n hle => hinterrupts n (Nat.le_succ_of_le hle))
        fun n hle => hschedule n (Nat.le_succ_of_le hle)
      unfold roundEnd?
      rw [hsame]
      split
      · rename_i b hb
        have hrounds : b.report.rounds = number := (roundEnd?_counted hb).1
        have hnext : env'.schedule (b.report.rounds + 1) = env.schedule (b.report.rounds + 1) :=
          hschedule _ (Nat.succ_le_succ (Nat.le_of_eq hrounds))
        have hworld : env'.enter (b.report.rounds + 1) b.world =
            env.enter (b.report.rounds + 1) b.world := by
          rw [Environment.enter, hinterrupts _ (Nat.succ_le_succ (Nat.le_of_eq hrounds)),
            Environment.enter]
        simp only [round, hnext, hworld, hmicros]
      · rfl

/-- How rounds come to an end: nothing is left to retry, the batch fails, or the round counter is
full. -/
inductive Finished (s : Scheduler S Req R) (env : Environment) (start : Batch S Req R)
    (bound : Nat) : Except Halt Unit × Batch S Req R → Prop
  | settled {last : Nat} {b : Batch S Req R} (hle : last ≤ bound)
      (hlast : s.roundEnd? env start last = some (.settled b)) :
      Finished s env start bound (.ok (), b)
  | halted {last : Nat} {reason : Halt} {b : Batch S Req R} (hle : last ≤ bound)
      (hlast : s.roundEnd? env start last = some (.halted reason b)) :
      Finished s env start bound (.error reason, b)
  | full {b : Batch S Req R} (hlast : s.roundEnd? env start bound = some (.again b)) :
      Finished s env start bound (.error .crashed, b)

/-- The run ends as its last round does, or breaks off when the round counter is full. -/
theorem finished_rounds (left : Nat) : ∀ (number : Nat) (b : Batch S Req R),
    s.roundEnd? env start number = some (.again b) →
      Finished s env start (number + left) (s.rounds env left b) := by
  induction left with
  | zero => exact fun number b h => .full h
  | succ left ih =>
      intro number b h
      have hnext := roundEnd?_succ_of_again h
      unfold rounds
      split
      · rename_i b' hround
        have hrest := ih (number + 1) b' (hround ▸ hnext)
        rwa [Nat.add_right_comm] at hrest
      · rename_i b' hround
        exact .settled (by omega) (hround ▸ hnext)
      · rename_i reason b' hround
        exact .halted (by omega) (hround ▸ hnext)

end Run

/-! ## The end of a run -/

section Process

variable (s : Scheduler S Req R) (env : Environment) (metrics : Metrics) (world : World S)
  (requests : List Req)

/-- Under a valid configuration a batch with something in it is left as its rounds left it, and
gives the responses of all its tasks if the rounds came to their end. -/
theorem process_eq (hvalid : s.config.validate = .ok ()) (hne : requests ≠ []) :
    (s.process env metrics world requests).batch.Agrees
        (s.rounds env counterMax (Batch.start metrics world requests)).2 ∧
      (s.process env metrics world requests).result =
        match s.rounds env counterMax (Batch.start metrics world requests) with
        | (.error reason, _) => .error reason
        | (.ok (), b) => (responses b.tasks).mapError .failed := by
  have htasks : (Task.ofRequests requests : List (Task Req R)).isEmpty = false := by
    simpa [Task.ofRequests] using hne
  simp only [process, execute, hvalid, Batch.start, htasks]
  rcases s.rounds env counterMax _ with ⟨result, b⟩
  dsimp only
  cases result with
  | error reason => cases reason <;> exact ⟨⟨rfl, rfl, rfl, rfl⟩, rfl⟩
  | ok =>
      cases hresponses : (responses b.tasks).mapError Halt.failed with
      | ok rs => simp only [hresponses]; exact ⟨⟨rfl, rfl, rfl, rfl⟩, rfl⟩
      | error reason =>
          cases reason <;> simp only [hresponses] <;> exact ⟨⟨rfl, rfl, rfl, rfl⟩, rfl⟩

/-- A batch is left, and answered, as its last round has it. -/
theorem process_finished (hvalid : s.config.validate = .ok ()) (hne : requests ≠ []) :
    ∃ finished, Finished s env (Batch.start metrics world requests) counterMax finished ∧
      (s.process env metrics world requests).batch.Agrees finished.2 ∧
      (s.process env metrics world requests).result =
        match finished with
        | (.error reason, _) => .error reason
        | (.ok (), b) => (responses b.tasks).mapError .failed := by
  refine ⟨s.rounds env counterMax (Batch.start metrics world requests), ?_,
    process_eq s env metrics world requests hvalid hne⟩
  simpa using finished_rounds counterMax 0 (Batch.start metrics world requests) rfl

theorem process_of_no_rounds (h : s.config.validate ≠ .ok () ∨ requests = []) :
    (s.process env metrics world requests).batch.Agrees (Batch.start metrics world requests) := by
  cases hvalid : s.config.validate with
  | error fault =>
      simp only [process, execute, hvalid]
      exact ⟨rfl, rfl, rfl, rfl⟩
  | ok =>
      obtain rfl := h.resolve_left fun hne => hne hvalid
      have hempty : (Batch.start metrics world [] : Batch S Req R).tasks.isEmpty = true := rfl
      simp only [process, execute, hvalid, hempty, if_true]
      exact ⟨rfl, rfl, rfl, rfl⟩

theorem process_empty (hvalid : s.config.validate = .ok ()) :
    (s.process env metrics world []).result = .ok [] := by
  have hempty : (Batch.start metrics world [] : Batch S Req R).tasks.isEmpty = true := rfl
  simp only [process, execute, hvalid, hempty, if_true]

theorem process_last : ∃ last e, last ≤ counterMax ∧
    s.roundEnd? env (Batch.start metrics world requests) last = some e ∧
    (s.process env metrics world requests).batch.Agrees e.batch := by
  by_cases h : s.config.validate ≠ .ok () ∨ requests = []
  · exact ⟨0, _, Nat.zero_le _, rfl, process_of_no_rounds s env metrics world requests h⟩
  · rw [not_or, not_not] at h
    obtain ⟨finished, hfinished, hagrees, -⟩ :=
      process_finished s env metrics world requests h.1 h.2
    cases hfinished with
    | settled hle hlast => exact ⟨_, _, hle, hlast, hagrees⟩
    | halted hle hlast => exact ⟨_, _, hle, hlast, hagrees⟩
    | full hlast => exact ⟨_, _, Nat.le_refl _, hlast, hagrees⟩

variable {s env metrics world requests}

/-- The last round of a run decides how the batch ends. -/
theorem process_of_settled (hvalid : s.config.validate = .ok ()) (hne : requests ≠ [])
    {last : Nat} {b : Batch S Req R} (hle : last ≤ counterMax)
    (hlast : s.roundEnd? env (Batch.start metrics world requests) last = some (.settled b)) :
    (s.process env metrics world requests).batch.Agrees b ∧
      (s.process env metrics world requests).result = (responses b.tasks).mapError .failed := by
  obtain ⟨finished, hfinished, hagrees, hresult⟩ :=
    process_finished s env metrics world requests hvalid hne
  cases hfinished with
  | settled _ hlast' =>
      obtain ⟨-, heq⟩ := roundEnd?_last_unique hlast hlast'
        (fun _ h => by cases h) (fun _ h => by cases h)
      cases heq
      exact ⟨hagrees, hresult⟩
  | halted _ hlast' =>
      obtain ⟨-, heq⟩ := roundEnd?_last_unique hlast hlast'
        (fun _ h => by cases h) (fun _ h => by cases h)
      cases heq
  | full hfull =>
      rcases Nat.lt_or_eq_of_le hle with hlt | rfl
      · obtain ⟨c, hc⟩ := roundEnd?_of_lt hfull hlt
        cases hlast.symm.trans hc
      · cases hlast.symm.trans hfull

theorem process_of_again (hvalid : s.config.validate = .ok ()) (hne : requests ≠ [])
    {number : Nat} {b : Batch S Req R} (hlt : number < counterMax)
    (hb : s.roundEnd? env (Batch.start metrics world requests) number = some (.again b)) :
    ∃ last e, number < last ∧
      s.roundEnd? env (Batch.start metrics world requests) last = some e ∧
      (s.process env metrics world requests).batch.Agrees e.batch := by
  obtain ⟨finished, hfinished, hagrees, -⟩ :=
    process_finished s env metrics world requests hvalid hne
  have hlater : ∀ {last e}, (∀ c, e ≠ .again c) →
      s.roundEnd? env (Batch.start metrics world requests) last = some e → number < last := by
    intro last e hend he
    by_contra hge
    rcases Nat.lt_or_eq_of_le (Nat.not_lt.mp hge) with hlt' | rfl
    · obtain ⟨c, hc⟩ := roundEnd?_of_lt hb hlt'
      exact hend c (Option.some.inj (he.symm.trans hc))
    · exact hend b (Option.some.inj (he.symm.trans hb))
  cases hfinished with
  | settled _ hlast => exact ⟨_, _, hlater (fun _ h => by cases h) hlast, hlast, hagrees⟩
  | halted _ hlast => exact ⟨_, _, hlater (fun _ h => by cases h) hlast, hlast, hagrees⟩
  | full hfull => exact ⟨_, _, hlt, hfull, hagrees⟩

theorem valid_of_process_ok {rs : List R}
    (h : (s.process env metrics world requests).result = .ok rs) :
    s.config.validate = .ok () := by
  cases hvalid : s.config.validate with
  | error fault =>
      simp only [process, execute, hvalid] at h
      cases h
  | ok => rfl

theorem process_nil {rs : List R}
    (h : (s.process env metrics world []).result = .ok rs) :
    responses (Batch.start metrics world [] : Batch S Req R).tasks = .ok rs ∧
      (s.process env metrics world []).batch.Agrees (Batch.start metrics world []) := by
  refine ⟨?_, process_of_no_rounds s env metrics world [] (.inr rfl)⟩
  rw [process_empty s env metrics world (valid_of_process_ok h)] at h
  cases h
  rfl

/-- A run with responses ended in a round after which nothing was left to retry. -/
theorem settled_of_process_ok {rs : List R} (hne : requests ≠ [])
    (h : (s.process env metrics world requests).result = .ok rs) :
    ∃ last b,
      s.roundEnd? env (Batch.start metrics world requests) last = some (.settled b) ∧
      (s.process env metrics world requests).batch.Agrees b ∧ responses b.tasks = .ok rs := by
  obtain ⟨finished, hfinished, hagrees, hresult⟩ :=
    process_finished s env metrics world requests (valid_of_process_ok h) hne
  rw [h] at hresult
  cases hfinished with
  | @settled last b _ hlast =>
      refine ⟨last, b, hlast, hagrees, ?_⟩
      cases hresponses : responses b.tasks with
      | ok rs' =>
          simp only [hresponses] at hresult
          cases hresult
          rfl
      | error error =>
          simp only [hresponses] at hresult
          cases hresult
  | halted => cases hresult
  | full => cases hresult

end Process

theorem responses_ok {tasks : List (Task Req R)} :
    ∀ {rs : List R}, responses tasks = .ok rs → rs.length = tasks.length ∧
      ∀ {slot : Nat} {t}, tasks[slot]? = some t →
        ∃ response round, t.result? = some (response, round) ∧ rs[slot]? = some response := by
  induction tasks with
  | nil =>
      intro rs h
      cases h
      exact ⟨rfl, fun ht => by cases ht⟩
  | cons t rest ih =>
      intro rs h
      simp only [responses, Task.response?] at h
      cases hresult : t.result? with
      | none => simp [hresult] at h
      | some result =>
          obtain ⟨response, round⟩ := result
          cases hrest : responses rest with
          | error error => simp [hresult, hrest, Except.map] at h
          | ok others =>
              simp only [hresult, hrest, Option.map_some, Except.map, Except.ok.injEq] at h
              subst h
              obtain ⟨hlength, hothers⟩ := ih hrest
              refine ⟨congrArg (· + 1) hlength, fun {slot u} hu => ?_⟩
              cases slot with
              | zero =>
                  cases hu
                  exact ⟨response, round, hresult, rfl⟩
              | succ slot => exact hothers hu

/-! ## Sending tasks back -/

theorem sendBack_of_aborted {t : Task Req R} (h : t.status = .aborted) :
    sendBack t = { t with incarnation := t.incarnation + 1, progress := .pending } := by
  simp [sendBack, h, Task.move, Task.move?]

/-- The reported tasks wait again, each one incarnation further; the others are as they were. -/
theorem sendBackAll_ok {config : Config} (reported : List Nat) :
    ∀ {tasks tasks' : List (Task Req R)}, sendBackAll config tasks reported = .ok tasks' →
      reported.Nodup →
      ∀ slot, tasks'[slot]? =
        if slot ∈ reported then tasks[slot]?.map sendBack else tasks[slot]? := by
  induction reported with
  | nil =>
      intro tasks tasks' h _ slot
      cases h
      simp
  | cons index rest ih =>
      intro tasks tasks' h hnodup slot
      obtain ⟨hnotin, hnodup'⟩ := List.nodup_cons.mp hnodup
      simp only [sendBackAll] at h
      split at h
      · cases h
      · rename_i t ht
        split at h
        · cases h
        · split at h
          · cases h
          · rw [ih h hnodup' slot]
            by_cases hslot : slot = index
            · subst hslot
              rw [if_neg hnotin, if_pos List.mem_cons_self, ht,
                List.getElem?_set_self (List.getElem?_eq_some_iff.mp ht).1]
              rfl
            · simp [hslot, List.getElem?_set_ne (Ne.symm hslot)]

theorem sendBackAll_length {config : Config} (reported : List Nat) :
    ∀ {tasks tasks' : List (Task Req R)}, sendBackAll config tasks reported = .ok tasks' →
      tasks'.length = tasks.length := by
  induction reported with
  | nil =>
      intro tasks tasks' h
      cases h
      rfl
  | cons index rest ih =>
      intro tasks tasks' h
      simp only [sendBackAll] at h
      split at h
      · cases h
      · split at h
        · cases h
        · split at h
          · cases h
          · rw [ih h, List.length_set]

/-- Nothing keeps the reported tasks from going back if each of them is in the batch and may go one
incarnation further. -/
theorem sendBackAll_succeeds {config : Config} (reported : List Nat) :
    ∀ {tasks : List (Task Req R)}, reported.Nodup →
      (∀ index ∈ reported, ∃ t, tasks[index]? = some t ∧ t.incarnation + 1 ≤ counterMax ∧
        config.exceeded? (t.incarnation + 1) = none) →
      ∃ tasks', sendBackAll config tasks reported = .ok tasks' := by
  induction reported with
  | nil => exact fun _ _ => ⟨_, rfl⟩
  | cons index rest ih =>
      intro tasks hnodup hroom
      obtain ⟨hnotin, hnodup'⟩ := List.nodup_cons.mp hnodup
      obtain ⟨t, ht, hcounter, hceiling⟩ := hroom index List.mem_cons_self
      simp only [sendBackAll, ht, hceiling, if_neg (Nat.not_lt.mpr hcounter)]
      refine ih hnodup' fun other hother => ?_
      obtain ⟨u, hu, hrest⟩ := hroom other (List.mem_cons_of_mem _ hother)
      have hne : index ≠ other := fun heq => hnotin (heq ▸ hother)
      exact ⟨u, by rw [List.getElem?_set_ne hne]; exact hu, hrest⟩

end Scheduler

end TxBatch
