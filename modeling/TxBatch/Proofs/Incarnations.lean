import Mathlib.Algebra.GroupWithZero.Nat
import TxBatch.Proofs.Arena

/-!
# How incarnations grow

A task gains an incarnation exactly when it is sent back, and sending back looks at the ceiling
first. So between two rounds no task stands above the ceiling, the incarnations of all tasks sum to
the number of retries, and each round that sent something back has raised that sum (`Climbed`).

If sending back fails, it is at the first reported task that may not go further
(`sendBackAll_error`).
-/

namespace TxBatch

variable {S Req R : Type}

theorem Config.exceeded?_eq_none {config : Config} {incarnation : Nat} :
    config.exceeded? incarnation = none ↔
      ∀ limit, config.maxIncarnations = some limit → incarnation ≤ limit.toNat := by
  unfold exceeded?
  split
  · rename_i limit hlimit
    simp [hlimit]
  · rename_i hlimit
    simp [hlimit]

theorem Config.exceeded?_eq_some {config : Config} {incarnation ceiling : Nat} :
    config.exceeded? incarnation = some ceiling ↔
      ∃ limit, config.maxIncarnations = some limit ∧ limit.toNat = ceiling ∧
        ceiling < incarnation := by
  unfold exceeded?
  split
  · rename_i limit hlimit
    simp only [hlimit, Option.some.injEq, exists_eq_left', ite_eq_iff, reduceCtorEq, and_false,
      or_false]
    constructor
    · rintro ⟨hlt, rfl⟩
      exact ⟨rfl, hlt⟩
    · rintro ⟨rfl, hlt⟩
      exact ⟨hlt, rfl⟩
  · rename_i hlimit
    simp [hlimit]

/-- How often the tasks were sent back, all together. -/
def incarnations (tasks : List (Task Req R)) : Nat := (tasks.map Task.incarnation).sum

theorem incarnations_set {tasks : List (Task Req R)} {slot : Nat} {t t' : Task Req R}
    (ht : tasks[slot]? = some t) (hnext : t'.incarnation = t.incarnation + 1) :
    incarnations (tasks.set slot t') = incarnations tasks + 1 := by
  unfold incarnations
  induction tasks generalizing slot with
  | nil => cases ht
  | cons u rest ih =>
      cases slot with
      | zero =>
          cases ht
          simp only [List.set_cons_zero, List.map_cons, List.sum_cons]
          omega
      | succ slot =>
          have hrest := ih ht
          simp only [List.set_cons_succ, List.map_cons, List.sum_cons]
          omega

theorem incarnations_le {tasks : List (Task Req R)} {bound : Nat}
    (h : ∀ t ∈ tasks, t.incarnation ≤ bound) : incarnations tasks ≤ tasks.length * bound := by
  induction tasks with
  | nil => exact Nat.zero_le _
  | cons t rest ih =>
      have hhead := h t List.mem_cons_self
      have hrest := ih fun u hu => h u (List.mem_cons_of_mem _ hu)
      simp only [incarnations, List.map_cons, List.sum_cons, List.length_cons, Nat.succ_mul] at *
      omega

namespace Scheduler

/-! ## Sending tasks back, once more -/

theorem sendBackAll_incarnations {config : Config} (reported : List Nat) :
    ∀ {tasks tasks' : List (Task Req R)}, sendBackAll config tasks reported = .ok tasks' →
      reported.Nodup →
      (∀ index ∈ reported, ∃ t, tasks[index]? = some t ∧ t.status = .aborted) →
      incarnations tasks' = incarnations tasks + reported.length := by
  induction reported with
  | nil =>
      intro tasks tasks' h _ _
      cases h
      rfl
  | cons index rest ih =>
      intro tasks tasks' h hnodup haborted
      obtain ⟨hnotin, hnodup'⟩ := List.nodup_cons.mp hnodup
      obtain ⟨t, ht, hstatus⟩ := haborted index List.mem_cons_self
      simp only [sendBackAll, ht] at h
      split at h
      · cases h
      split at h
      · cases h
      rw [ih h hnodup' fun other hother => ?_]
      · rw [incarnations_set ht (by rw [sendBack_of_aborted hstatus]), List.length_cons]
        omega
      · obtain ⟨u, hu, hu'⟩ := haborted other (List.mem_cons_of_mem _ hother)
        have hne : index ≠ other := fun heq => hnotin (heq ▸ hother)
        exact ⟨u, by rw [List.getElem?_set_ne hne]; exact hu, hu'⟩

theorem sendBackAll_room {config : Config} (reported : List Nat) :
    ∀ {tasks tasks' : List (Task Req R)}, sendBackAll config tasks reported = .ok tasks' →
      reported.Nodup → ∀ index ∈ reported, ∀ t, tasks[index]? = some t →
        config.exceeded? (t.incarnation + 1) = none := by
  induction reported with
  | nil => exact fun _ _ _ hmem => (List.not_mem_nil hmem).elim
  | cons first rest ih =>
      intro tasks tasks' h hnodup index hindex t ht
      obtain ⟨hnotin, hnodup'⟩ := List.nodup_cons.mp hnodup
      simp only [sendBackAll] at h
      split at h
      · cases h
      rename_i u hu
      split at h
      · cases h
      split at h
      · cases h
      rename_i hroom
      rcases List.mem_cons.mp hindex with rfl | hindex
      · obtain rfl := Option.some.inj (hu.symm.trans ht)
        exact hroom
      · have hne : first ≠ index := fun heq => hnotin (heq ▸ hindex)
        exact ih h hnodup' index hindex t (by rw [List.getElem?_set_ne hne]; exact ht)

/-- Sending back fails at the first task that may not go further: its counter is full, or it stands
at the ceiling. -/
theorem sendBackAll_error {config : Config} {reason : Halt} (reported : List Nat) :
    ∀ {tasks : List (Task Req R)}, sendBackAll config tasks reported = .error reason →
      reported.Nodup → (∀ index ∈ reported, index < tasks.length) →
      ∃ front index behind t, reported = front ++ index :: behind ∧ tasks[index]? = some t ∧
        (∀ other ∈ front, ∀ u, tasks[other]? = some u →
          config.exceeded? (u.incarnation + 1) = none) ∧
        ((counterMax < t.incarnation + 1 ∧ reason = .crashed) ∨
          ∃ ceiling, config.exceeded? (t.incarnation + 1) = some ceiling ∧
            reason = .failed (.incarnationLimitExceeded index (t.incarnation + 1) ceiling)) := by
  induction reported with
  | nil =>
      intro tasks h
      cases h
  | cons index rest ih =>
      intro tasks h hnodup hlt
      obtain ⟨hnotin, hnodup'⟩ := List.nodup_cons.mp hnodup
      have ht := List.getElem?_eq_getElem (hlt index List.mem_cons_self)
      have hnone : ∀ other ∈ ([] : List Nat), ∀ u, tasks[other]? = some u →
          config.exceeded? (u.incarnation + 1) = none :=
        fun _ hmem => (List.not_mem_nil hmem).elim
      simp only [sendBackAll, ht] at h
      split at h
      · rename_i hfull
        cases h
        exact ⟨[], index, rest, _, rfl, ht, hnone, .inl ⟨hfull, rfl⟩⟩
      split at h
      · rename_i ceiling hceiling
        cases h
        exact ⟨[], index, rest, _, rfl, ht, hnone, .inr ⟨ceiling, hceiling, rfl⟩⟩
      rename_i hroom
      obtain ⟨front, index', behind, t, rfl, ht', hfront, hreason⟩ :=
        ih h hnodup' fun other hother => by
          rw [List.length_set]
          exact hlt other (List.mem_cons_of_mem _ hother)
      have hne : ∀ other ∈ front ++ index' :: behind, index ≠ other :=
        fun other hother heq => hnotin (heq ▸ hother)
      rw [List.getElem?_set_ne (hne index' (by simp))] at ht'
      refine ⟨index :: front, index', behind, t, rfl, ht', fun other hother u hu => ?_, hreason⟩
      rcases List.mem_cons.mp hother with rfl | hother
      · obtain rfl := Option.some.inj (ht.symm.trans hu)
        exact hroom
      · refine hfront other hother u ?_
        rw [List.getElem?_set_ne (hne other (List.mem_append_left _ hother))]
        exact hu

/-! ## Between two rounds -/

/-- What a run has sent back when `number` rounds are over. -/
structure Climbed (config : Config) (requests : List Req) (number : Nat) (b : Batch S Req R) :
    Prop where
  seated : Seated requests b.tasks
  rounds : b.report.rounds = number
  retries : b.report.retries = incarnations b.tasks
  le_retries : number ≤ b.report.retries
  room : ∀ t ∈ b.tasks, config.exceeded? t.incarnation = none

theorem climbed_start (config : Config) (metrics : Metrics) (world : World S)
    (requests : List Req) :
    Climbed config requests 0 (Batch.start metrics world requests : Batch S Req R) := by
  have hfresh : ∀ t ∈ (Task.ofRequests requests : List (Task Req R)), t.incarnation = 0 := by
    intro t ht
    obtain ⟨⟨request, index⟩, -, rfl⟩ := List.mem_map.mp ht
    rfl
  refine ⟨seated_ofRequests requests, rfl, ?_, Nat.zero_le _, fun t ht => ?_⟩
  · have hle := incarnations_le fun t ht => Nat.le_of_eq (hfresh t ht)
    show 0 = incarnations (Task.ofRequests requests : List (Task Req R))
    omega
  · rw [hfresh t ht]
    exact Config.exceeded?_eq_none.mpr fun _ _ => Nat.zero_le _

variable {s : Scheduler S Req R} {env : Environment} {b b' : Batch S Req R} {requests : List Req}
  {number : Nat}

section Judges

variable (hv : s.validator.Judges)

include hv

theorem map_incarnation_passAfter (env : Environment) (b : Batch S Req R) :
    (s.passAfter env b).1.map Task.incarnation = b.tasks.map Task.incarnation := by
  refine List.ext_getElem? fun slot => ?_
  rw [List.getElem?_map, List.getElem?_map]
  cases ht : (s.passAfter env b).1[slot]? with
  | none =>
      rw [List.getElem?_eq_none_iff, hv.length_passAfter] at ht
      rw [List.getElem?_eq_none ht]
  | some t =>
      obtain ⟨t₀, ht₀, -, -, hincarnation⟩ := hv.passAfter_identity ht
      rw [ht₀, Option.map_some, Option.map_some, hincarnation]

theorem incarnations_passAfter (env : Environment) (b : Batch S Req R) :
    incarnations (s.passAfter env b).1 = incarnations b.tasks := by
  rw [incarnations, map_incarnation_passAfter hv, incarnations]

theorem Climbed.passAfter_room (h : Climbed s.config requests number b) (env : Environment)
    {t : Task Req R} (ht : t ∈ (s.passAfter env b).1) :
    s.config.exceeded? t.incarnation = none := by
  obtain ⟨slot, hslot⟩ := List.getElem?_of_mem ht
  obtain ⟨t₀, ht₀, -, -, hincarnation⟩ := hv.passAfter_identity hslot
  rw [hincarnation]
  exact h.room t₀ (List.mem_of_getElem? ht₀)

theorem Climbed.again (h : Climbed s.config requests number b)
    (hround : s.round env b = .again b') : Climbed s.config requests (number + 1) b' := by
  obtain ⟨-, hreported, hsend, hretries⟩ := round_again hround
  have hbatch := round_batch s env b
  rw [hround] at hbatch
  have hpos := List.length_pos_of_ne_nil hreported
  have hle := h.le_retries
  have hnodup : (s.passAfter env b).2.Nodup := hv.nodup_reported h.seated
  refine ⟨hv.again_seated h.seated hround, hbatch.2.2.1.trans (congrArg (· + 1) h.rounds), ?_,
    by omega, fun t' ht' => ?_⟩
  · rw [sendBackAll_incarnations _ hsend hnodup fun index hmem =>
      (hv.mem_reported h.seated).mp hmem, incarnations_passAfter hv, hretries, h.retries]
  · obtain ⟨slot, hslot⟩ := List.getElem?_of_mem ht'
    obtain ⟨t, ht⟩ := getElem?_of_length_eq (sendBackAll_length _ hsend) hslot
    rcases hv.again_task h.seated hround ht with ⟨-, h'⟩ | ⟨haborted, h'⟩
    · obtain rfl := Option.some.inj (hslot.symm.trans h')
      exact h.passAfter_room hv env (List.mem_of_getElem? ht)
    · obtain rfl := Option.some.inj (hslot.symm.trans h')
      exact sendBackAll_room _ hsend hnodup slot
        ((hv.mem_reported h.seated).mpr ⟨t, ht, haborted⟩) t ht

theorem climbed_of_again {metrics : Metrics} {world : World S}
    (hb : s.roundEnd? env (Batch.start metrics world requests) number = some (.again b)) :
    Climbed s.config requests number b :=
  roundEnd?_again (climbed_start s.config metrics world requests) (fun h => h.again hv) hb

theorem roundEnd?_room {metrics : Metrics} {world : World S} {e : RoundEnd S Req R}
    (he : s.roundEnd? env (Batch.start metrics world requests) number = some e) :
    ∀ t ∈ e.batch.tasks, s.config.exceeded? t.incarnation = none := by
  intro t ht
  rcases roundEnd?_tasks he with ⟨b, rfl⟩ | ⟨_, c, -, hc, htasks | htasks⟩
  · exact (climbed_of_again hv he).room t ht
  · obtain ⟨slot, hslot⟩ := List.getElem?_of_mem (htasks ▸ ht)
    obtain ⟨t₀, ht₀, -, -, hincarnation⟩ := phaseAfter_identity hslot
    rw [hincarnation]
    exact (climbed_of_again hv hc).room t₀ (List.mem_of_getElem? ht₀)
  · exact (climbed_of_again hv hc).passAfter_room hv env (htasks ▸ ht)

end Judges

end Scheduler

end TxBatch
