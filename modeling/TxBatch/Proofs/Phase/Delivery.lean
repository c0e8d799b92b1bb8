import TxBatch.Proofs.Phase.Accounts

/-!
# What a phase does to its tasks

Outcomes are brought to the slots of their jobs. A slot has one job at most, so the order of
arrival does not matter: a task that waited ends with the outcome of its own call, or as it was if
the call gave none, and every other task is not touched (`run_task`). In a phase that succeeds no
task is left waiting (`run_task_of_ok`).
-/

namespace TxBatch

variable {S Req R : Type}

/-- A waiting task with the outcome of its call. -/
def Task.receive (t : Task Req R) (round : Nat) : Outcome R → Task Req R
  | .executed response => { t with progress := .executed response round }
  | .aborted signal => t.discard signal

@[simp] theorem Task.receive_index (t : Task Req R) (round : Nat) (outcome : Outcome R) :
    (t.receive round outcome).index = t.index := by
  cases outcome <;> rfl

@[simp] theorem Task.receive_incarnation (t : Task Req R) (round : Nat) (outcome : Outcome R) :
    (t.receive round outcome).incarnation = t.incarnation := by
  cases outcome <;> rfl

@[simp] theorem Task.receive_request (t : Task Req R) (round : Nat) (outcome : Outcome R) :
    (t.receive round outcome).request = t.request := by
  cases outcome <;> rfl

theorem Task.receive_status_ne_pending (t : Task Req R) (round : Nat) (outcome : Outcome R) :
    (t.receive round outcome).status ≠ .pending := by
  cases outcome <;> simp [receive, discard, status]

theorem Task.receive_result? {t : Task Req R} {round : Nat} {outcome : Outcome R} {response : R}
    {at' : Nat} (h : (t.receive round outcome).result? = some (response, at')) :
    outcome = .executed response ∧ at' = round := by
  cases outcome with
  | executed other =>
      cases h
      exact ⟨rfl, rfl⟩
  | aborted signal => cases h

theorem CallEnd.eq_returned {result : CallEnd R} {response : R}
    (h : result.outcome? = some (.executed response)) : result = .returned response := by
  cases result <;> cases h
  rfl

theorem CallEnd.eq_aborted {result : CallEnd R} {signal : AbortSignal}
    (h : result.outcome? = some (.aborted signal)) : result = .aborted signal := by
  cases result <;> cases h
  rfl

/-- An outcome that a task waits for reaches it. -/
theorem Task.move?_arrival {t : Task Req R} {a : Arrival R} (hpending : t.status = .pending)
    (hversion : a.version = t.version) (round : Nat) :
    t.move? (a.move round) = some (t.receive round a.outcome) := by
  obtain ⟨slot, version, outcome⟩ := a
  have hawaits : t.awaits version.incarnation = true := by
    simp only at hversion
    simp [awaits, hversion, Task.version, hpending]
  cases outcome <;> simp [Arrival.move, move?, hawaits, receive]

/-! ## Bringing outcomes to their tasks -/

/-- Each arrival is for a task that waits for it. -/
def Awaited (tasks : List (Task Req R)) (arrivals : List (Arrival R)) : Prop :=
  ∀ a ∈ arrivals, ∃ t, tasks[a.slot]? = some t ∧ t.status = .pending ∧ a.version = t.version

theorem deliver_awaited {tasks : List (Task Req R)} {a : Arrival R} {t : Task Req R}
    (ht : tasks[a.slot]? = some t) (hpending : t.status = .pending)
    (hversion : a.version = t.version) (round : Nat) (summary : Summary) :
    a.deliver round (tasks, summary) =
      (tasks.set a.slot (t.receive round a.outcome), summary.count a.outcome) := by
  simp [Arrival.deliver, ht, Task.move?_arrival hpending hversion]

theorem Awaited.tail {tasks : List (Task Req R)} {a : Arrival R} {rest : List (Arrival R)}
    (h : Awaited tasks (a :: rest)) (hnodup : ((a :: rest).map Arrival.slot).Nodup)
    (t : Task Req R) : Awaited (tasks.set a.slot t) rest := by
  intro b hb
  obtain ⟨u, hu, hrest⟩ := h b (List.mem_cons_of_mem _ hb)
  have hne : a.slot ≠ b.slot := fun heq =>
    (List.nodup_cons.mp hnodup).1 (heq ▸ List.mem_map_of_mem hb)
  exact ⟨u, by rw [List.getElem?_set_ne hne]; exact hu, hrest⟩

/-- What the fold of the delivery does to one slot: if an arrival is for it the outcome is received,
else nothing happens. -/
theorem foldl_deliver (round : Nat) (arrivals : List (Arrival R)) :
    ∀ (tasks : List (Task Req R)) (summary : Summary), Awaited tasks arrivals →
      (arrivals.map Arrival.slot).Nodup →
      (∀ a ∈ arrivals, ∀ t, tasks[a.slot]? = some t →
        (arrivals.foldl (Arrival.deliver round) (tasks, summary)).1[a.slot]? =
          some (t.receive round a.outcome)) ∧
      (∀ slot, (∀ a ∈ arrivals, a.slot ≠ slot) →
        (arrivals.foldl (Arrival.deliver round) (tasks, summary)).1[slot]? = tasks[slot]?) := by
  induction arrivals with
  | nil => exact fun _ _ _ _ => ⟨fun _ ha => (List.not_mem_nil ha).elim, fun _ _ => rfl⟩
  | cons a rest ih =>
      intro tasks summary hawaited hnodup
      obtain ⟨t, ht, hpending, hversion⟩ := hawaited a List.mem_cons_self
      obtain ⟨hnotin, hnodup'⟩ := List.nodup_cons.mp hnodup
      rw [List.foldl_cons, deliver_awaited ht hpending hversion]
      obtain ⟨hreached, hother⟩ := ih _ (summary.count a.outcome)
        (hawaited.tail hnodup (t.receive round a.outcome)) hnodup'
      have hne : ∀ b ∈ rest, a.slot ≠ b.slot := fun b hb heq =>
        hnotin (heq ▸ List.mem_map_of_mem hb)
      refine ⟨fun b hb u hu => ?_, fun slot hslot => ?_⟩
      · rcases List.mem_cons.mp hb with rfl | hb
        · obtain rfl := Option.some.inj (ht.symm.trans hu)
          rw [hother b.slot fun c hc heq => hne c hc heq.symm]
          exact List.getElem?_set_self (List.getElem?_eq_some_iff.mp ht).1
        · exact hreached b hb u (by rw [List.getElem?_set_ne (hne b hb)]; exact hu)
      · rw [hother slot fun b hb => hslot b (List.mem_cons_of_mem _ hb)]
        exact List.getElem?_set_ne (hslot a List.mem_cons_self)

theorem deliver_length (round : Nat) (acc : List (Task Req R) × Summary) (a : Arrival R) :
    (a.deliver round acc).1.length = acc.1.length := by
  simp only [Arrival.deliver]
  split
  · rfl
  · split <;> simp

theorem deliverAll_length (round : Nat) (tasks : List (Task Req R)) (arrivals : List (Arrival R)) :
    (deliverAll round tasks arrivals).1.length = tasks.length := by
  suffices h : ∀ acc : List (Task Req R) × Summary,
      (arrivals.foldl (Arrival.deliver round) acc).1.length = acc.1.length from h (tasks, {})
  induction arrivals with
  | nil => exact fun _ => rfl
  | cons a rest ih => exact fun acc => (ih _).trans (deliver_length round acc a)

theorem getElem?_of_length_eq {α : Type} {l l' : List α} (h : l'.length = l.length) {slot : Nat}
    {a : α} (ha : l'[slot]? = some a) : ∃ b, l[slot]? = some b :=
  ⟨_, List.getElem?_eq_getElem (h ▸ (List.getElem?_eq_some_iff.mp ha).1)⟩

namespace Phase

/-! ## The tasks after a phase -/

/-- What became of the task in `slot`, by the log of the phase. -/
inductive Passed (log : List (Event Req R)) (round slot : Nat) (t : Task Req R) :
    Task Req R → Prop
  | kept : Passed log round slot t t
  | received {result : CallEnd R} {outcome : Outcome R} (hpending : t.status = .pending)
      (hended : .ended ⟨slot, t.version, t.request⟩ result ∈ log)
      (houtcome : result.outcome? = some outcome) :
      Passed log round slot t (t.receive round outcome)

section Run

variable (executor : Executor S Req R) (workers : Int64) (schedule : List Choice) (round : Nat)
  (world : World S) (tasks : List (Task Req R))

theorem run_of_no_jobs (hjobs : jobs tasks = []) :
    run executor workers schedule round world tasks = ⟨.ok {}, tasks, world, []⟩ := by
  simp [run, hjobs]

theorem run_of_cancelled (hjobs : jobs tasks ≠ []) (hworld : world.cancelled = true) :
    run executor workers schedule round world tasks = ⟨.error .cancelled, tasks, world, []⟩ := by
  simp [run, hjobs, hworld]

theorem run_eq_last (hjobs : jobs tasks ≠ []) (hworld : world.cancelled = false) :
    run executor workers schedule round world tasks =
      let p := last executor workers schedule world tasks
      let delivered := deliverAll round tasks p.arrivals.reverse
      ⟨p.verdict delivered.2, delivered.1, p.world, p.log⟩ := by
  simp [run, hjobs, hworld, last]

/-- What holds of a phase that makes no call and of one that ends as its last state says holds of
every phase. -/
theorem run_induct {P : End S Req R → Prop}
    (hidle : ∀ verdict, P ⟨verdict, tasks, world, []⟩)
    (hlast : jobs tasks ≠ [] → world.cancelled = false →
      let p := last executor workers schedule world tasks
      let delivered := deliverAll round tasks p.arrivals.reverse
      P ⟨p.verdict delivered.2, delivered.1, p.world, p.log⟩) :
    P (run executor workers schedule round world tasks) := by
  by_cases hjobs : jobs tasks = []
  · rw [run_of_no_jobs _ _ _ _ _ _ hjobs]
    exact hidle _
  · cases hworld : world.cancelled with
    | true =>
        rw [run_of_cancelled _ _ _ _ _ _ hjobs hworld]
        exact hidle _
    | false =>
        rw [run_eq_last _ _ _ _ _ _ hjobs hworld]
        exact hlast hjobs hworld

/-- The outcomes on their way at the end of a phase are all awaited, one a slot. -/
theorem awaited_last :
    Awaited tasks (last executor workers schedule world tasks).arrivals ∧
      ((last executor workers schedule world tasks).arrivals.map Arrival.slot).Nodup := by
  have hacc := accounted_last executor workers schedule world tasks
  constructor
  · intro a ha
    rw [hacc.arrivals, List.mem_filterMap] at ha
    obtain ⟨event, hmem, hevent⟩ := ha
    obtain ⟨job, result, rfl, -, hslot, hversion⟩ := Event.arrival?_eq_some.mp hevent
    obtain ⟨t, ht, hpending, hv, -⟩ :=
      mem_jobs.mp (hacc.started_mem_jobs (hacc.ended_mem_started hmem))
    exact ⟨t, by rw [hslot]; exact ht, hpending, hversion.trans hv⟩
  · rw [hacc.arrivals]
    exact (arrival_slots_sublist _).nodup hacc.ended_slots_nodup

theorem delivered_last (slot : Nat) (t : Task Req R) (ht : tasks[slot]? = some t) :
    let p := last executor workers schedule world tasks
    (∀ outcome, ⟨slot, t.version, outcome⟩ ∈ p.arrivals →
      (deliverAll round tasks p.arrivals.reverse).1[slot]? = some (t.receive round outcome)) ∧
    ((∀ a ∈ p.arrivals, a.slot ≠ slot) →
      (deliverAll round tasks p.arrivals.reverse).1[slot]? = some t) := by
  intro p
  obtain ⟨hawaited, hnodup⟩ := awaited_last executor workers schedule world tasks
  have hperm := List.reverse_perm p.arrivals
  obtain ⟨hreached, hother⟩ := foldl_deliver round p.arrivals.reverse tasks {}
    (fun a ha => hawaited a (hperm.mem_iff.mp ha)) ((hperm.map _).nodup_iff.mpr hnodup)
  exact ⟨fun outcome hmem => hreached _ (hperm.mem_iff.mpr hmem) t ht,
    fun hnone => (hother slot fun a ha => hnone a (hperm.mem_iff.mp ha)).trans ht⟩

/-- Every task of a phase is kept, or received the outcome of its own call. -/
theorem run_task {slot : Nat} {t : Task Req R} (ht : tasks[slot]? = some t) :
    ∃ t', (run executor workers schedule round world tasks).tasks[slot]? = some t' ∧
      Passed (run executor workers schedule round world tasks).log round slot t t' := by
  refine run_induct executor workers schedule round world tasks
    (P := fun e => ∃ t', e.tasks[slot]? = some t' ∧ Passed e.log round slot t t')
    (fun _ => ⟨t, ht, .kept⟩) fun _ _ => ?_
  have hacc := accounted_last executor workers schedule world tasks
  obtain ⟨hreached, hother⟩ := delivered_last executor workers schedule round world tasks slot t ht
  by_cases hany : ∃ a ∈ (last executor workers schedule world tasks).arrivals, a.slot = slot
  · obtain ⟨⟨slot', version, outcome⟩, ha, rfl⟩ := hany
    have hmem := ha
    rw [hacc.arrivals, List.mem_filterMap] at hmem
    obtain ⟨event, hmem, hevent⟩ := hmem
    obtain ⟨job, result, rfl, hout, hslot, hversion⟩ := Event.arrival?_eq_some.mp hevent
    obtain ⟨u, hu, hpending, hv, hrequest⟩ :=
      mem_jobs.mp (hacc.started_mem_jobs (hacc.ended_mem_started hmem))
    obtain ⟨slot, jobVersion, request⟩ := job
    simp only at hslot hversion hu hv hrequest
    subst hslot hversion hv hrequest
    obtain rfl := Option.some.inj (ht.symm.trans hu)
    exact ⟨_, hreached outcome ha, .received hpending hmem hout⟩
  · exact ⟨t, hother fun a ha heq => hany ⟨a, ha, heq⟩, .kept⟩

theorem run_task_of_not_pending {slot : Nat} {t : Task Req R} (ht : tasks[slot]? = some t)
    (hstatus : t.status ≠ .pending) :
    (run executor workers schedule round world tasks).tasks[slot]? = some t := by
  obtain ⟨t', ht', hpassed⟩ := run_task executor workers schedule round world tasks ht
  cases hpassed with
  | kept => exact ht'
  | received hpending => exact absurd hpending hstatus

/-- An outcome that a call of the phase gave has reached the task of the call. -/
theorem run_received {slot : Nat} {t : Task Req R} (ht : tasks[slot]? = some t)
    {result : CallEnd R} {outcome : Outcome R} :
    .ended ⟨slot, t.version, t.request⟩ result ∈
        (run executor workers schedule round world tasks).log →
      result.outcome? = some outcome →
      (run executor workers schedule round world tasks).tasks[slot]? =
        some (t.receive round outcome) := by
  refine run_induct executor workers schedule round world tasks
    (P := fun e => .ended ⟨slot, t.version, t.request⟩ result ∈ e.log →
      result.outcome? = some outcome → e.tasks[slot]? = some (t.receive round outcome))
    (fun _ hmem => (List.not_mem_nil hmem).elim) fun _ _ hmem hout => ?_
  refine (delivered_last executor workers schedule round world tasks slot t ht).1 outcome ?_
  rw [(accounted_last executor workers schedule world tasks).arrivals]
  exact List.mem_filterMap.mpr ⟨_, hmem, Event.arrival?_eq_some.mpr ⟨_, _, rfl, hout, rfl, rfl⟩⟩

/-- A phase that succeeds had nothing to do, or came to its end with nothing cancelled and no
failure noticed. -/
theorem run_ok_cases {summary : Summary}
    (hok : (run executor workers schedule round world tasks).verdict = .ok summary) :
    (jobs tasks = [] ∧ summary = {}) ∨ (jobs tasks ≠ [] ∧ world.cancelled = false ∧
      (last executor workers schedule world tasks).world.cancelled = false ∧
      (last executor workers schedule world tasks).failure = none ∧
      summary = (deliverAll round tasks
        (last executor workers schedule world tasks).arrivals.reverse).2) := by
  by_cases hjobs : jobs tasks = []
  · rw [run_of_no_jobs _ _ _ _ _ _ hjobs] at hok
    cases hok
    exact .inl ⟨hjobs, rfl⟩
  · cases hworld : world.cancelled with
    | true =>
        rw [run_of_cancelled _ _ _ _ _ _ hjobs hworld] at hok
        cases hok
    | false =>
        rw [run_eq_last _ _ _ _ _ _ hjobs hworld] at hok
        simp only [verdict] at hok
        split at hok
        · cases hok
        rename_i hcancelled
        split at hok
        · cases hok
        rename_i hfailure
        cases hok
        exact .inr ⟨hjobs, rfl, by simpa using hcancelled, hfailure, rfl⟩

theorem run_task_of_ok {summary : Summary}
    (hok : (run executor workers schedule round world tasks).verdict = .ok summary)
    {slot : Nat} {t : Task Req R} (ht : tasks[slot]? = some t) (hpending : t.status = .pending) :
    ∃ result outcome, .ended ⟨slot, t.version, t.request⟩ result ∈
        (run executor workers schedule round world tasks).log ∧
      result.outcome? = some outcome ∧
      (run executor workers schedule round world tasks).tasks[slot]? =
        some (t.receive round outcome) := by
  have hjob : ⟨slot, t.version, t.request⟩ ∈ jobs tasks := mem_jobs.mpr ⟨t, ht, hpending, rfl, rfl⟩
  rcases run_ok_cases _ _ _ _ _ _ hok with ⟨hnil, -⟩ | ⟨hjobs, hworld, hcancelled, hfailure, -⟩
  · exact absurd hnil (List.ne_nil_of_mem hjob)
  obtain ⟨result, hmem, hsome⟩ := last_complete hcancelled hfailure hjob
  obtain ⟨outcome, hout⟩ := Option.isSome_iff_exists.mp hsome
  have hended : .ended ⟨slot, t.version, t.request⟩ result ∈
      (run executor workers schedule round world tasks).log := by
    rw [run_eq_last _ _ _ _ _ _ hjobs hworld]
    exact hmem
  exact ⟨result, outcome, hended, hout,
    run_received executor workers schedule round world tasks ht hended hout⟩

/-- A phase that had something to do and succeeds found the batch uncancelled. -/
theorem run_open_of_ok {summary : Summary}
    (hok : (run executor workers schedule round world tasks).verdict = .ok summary)
    (hjobs : jobs tasks ≠ []) : world.cancelled = false := by
  rcases run_ok_cases _ _ _ _ _ _ hok with ⟨hnil, -⟩ | ⟨-, hworld, -⟩
  · exact absurd hnil hjobs
  · exact hworld

theorem run_cancelled_of_ok {summary : Summary}
    (hok : (run executor workers schedule round world tasks).verdict = .ok summary)
    (hjobs : jobs tasks ≠ []) :
    (run executor workers schedule round world tasks).world.cancelled = false := by
  rcases run_ok_cases _ _ _ _ _ _ hok with ⟨hnil, -⟩ | ⟨-, hworld, hcancelled, -⟩
  · exact absurd hnil hjobs
  · rw [run_eq_last _ _ _ _ _ _ hjobs hworld]
    exact hcancelled

theorem run_open_of_mem_log {event : Event Req R}
    (hmem : event ∈ (run executor workers schedule round world tasks).log) :
    world.cancelled = false :=
  run_induct executor workers schedule round world tasks
    (P := fun e => event ∈ e.log → world.cancelled = false)
    (fun _ hnone => (List.not_mem_nil hnone).elim) (fun _ hworld _ => hworld) hmem

theorem run_length : (run executor workers schedule round world tasks).tasks.length =
    tasks.length :=
  run_induct executor workers schedule round world tasks
    (P := fun e => e.tasks.length = tasks.length) (fun _ => rfl)
    fun _ _ => deliverAll_length round tasks _

theorem run_origin {slot : Nat} {t' : Task Req R}
    (ht' : (run executor workers schedule round world tasks).tasks[slot]? = some t') :
    ∃ t, tasks[slot]? = some t ∧
      Passed (run executor workers schedule round world tasks).log round slot t t' := by
  obtain ⟨t, ht⟩ := getElem?_of_length_eq (run_length ..) ht'
  obtain ⟨t'', ht'', hpassed⟩ := run_task executor workers schedule round world tasks ht
  exact ⟨t, ht, Option.some.inj (ht'.symm.trans ht'') ▸ hpassed⟩

theorem run_settles {summary : Summary}
    (hok : (run executor workers schedule round world tasks).verdict = .ok summary)
    {slot : Nat} {t' : Task Req R}
    (ht' : (run executor workers schedule round world tasks).tasks[slot]? = some t') :
    t'.status ≠ .pending := by
  obtain ⟨t, ht, hpassed⟩ := run_origin executor workers schedule round world tasks ht'
  cases hpassed with
  | kept =>
      intro hpending
      obtain ⟨_, outcome, -, -, hslot⟩ :=
        run_task_of_ok executor workers schedule round world tasks hok ht hpending
      rw [Option.some.inj (ht'.symm.trans hslot)] at hpending
      exact Task.receive_status_ne_pending _ round outcome hpending
  | received => exact Task.receive_status_ne_pending _ round _

theorem run_started_front :
    ((run executor workers schedule round world tasks).log.filterMap Event.started?).reverse <+:
      jobs tasks :=
  run_induct executor workers schedule round world tasks
    (P := fun e => (e.log.filterMap Event.started?).reverse <+: jobs tasks)
    (fun _ => List.nil_prefix) fun _ _ => ⟨_, (accounted_last ..).started⟩

theorem run_started_mem_jobs {job : Job Req}
    (hmem : .started job ∈ (run executor workers schedule round world tasks).log) :
    job ∈ jobs tasks :=
  (run_started_front executor workers schedule round world tasks).subset
    (List.mem_reverse.mpr (List.mem_filterMap.mpr ⟨_, hmem, rfl⟩))

theorem run_started_of_ok {summary : Summary}
    (hok : (run executor workers schedule round world tasks).verdict = .ok summary) :
    ((run executor workers schedule round world tasks).log.filterMap Event.started?).reverse =
      jobs tasks := by
  rcases run_ok_cases _ _ _ _ _ _ hok with ⟨hjobs, -⟩ | ⟨hjobs, hworld, hcancelled, hfailure, -⟩
  · rw [run_of_no_jobs _ _ _ _ _ _ hjobs, hjobs]
    rfl
  · have hstarted := (accounted_last executor workers schedule world tasks).started
    rw [last_queue hcancelled hfailure, List.append_nil] at hstarted
    rw [run_eq_last _ _ _ _ _ _ hjobs hworld]
    exact hstarted

theorem run_ended_mem_started :
    ∀ {job result}, .ended job result ∈ (run executor workers schedule round world tasks).log →
      .started job ∈ (run executor workers schedule round world tasks).log :=
  run_induct executor workers schedule round world tasks
    (P := fun e => ∀ {job result}, .ended job result ∈ e.log → .started job ∈ e.log)
    (fun _ _ _ hmem => (List.not_mem_nil hmem).elim)
    fun _ _ _ _ hmem => (accounted_last ..).ended_mem_started hmem

theorem run_ended_unique :
    ∀ {job result result'},
      .ended job result ∈ (run executor workers schedule round world tasks).log →
      .ended job result' ∈ (run executor workers schedule round world tasks).log →
      result = result' :=
  run_induct executor workers schedule round world tasks
    (P := fun e => ∀ {job result result'}, .ended job result ∈ e.log →
      .ended job result' ∈ e.log → result = result')
    (fun _ _ _ _ hmem => (List.not_mem_nil hmem).elim)
    fun _ _ _ _ _ hmem hmem' => (accounted_last ..).ended_unique hmem hmem'

end Run

end Phase

end TxBatch
