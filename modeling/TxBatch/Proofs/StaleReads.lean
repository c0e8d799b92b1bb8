import TxBatch.Proofs.FinalReads
import TxBatch.Proofs.Scripts

/-!
# Stale reads

Executors whose calls begin by clearing their position may write other keys at every attempt. The
validator compares results that stand, so it does not know of a key that an attempt wrote and the
next one does not write any more: a reader that found the value of the superseded attempt, beside
the attempt that took it away, is accepted with it. `final_read_stale_iff` says that this is the
only way in which a final call can have read something else than the memory that the run leaves;
`withdrawn_write_is_read` is a batch in which it happens.
-/

namespace TxBatch

variable {V Req R : Type}

def Program.clearing (body : Req → Version → Program V R) : Req → Version → Program V R :=
  fun request version => .clear (body request version)

namespace Chronicle

variable {base : KeyMap V} {body : Req → Version → Program V R} {requests : List Req}
  {number : Nat} {tasks : List (Task Req R)} {journal : Journal V} [Tracked R]
  (hrecords : ∀ request version, (body request version).Records)
  (h : Chronicle base (Program.clearing body) requests number tasks journal)

include hrecords h

/-- A final attempt that began by clearing its position has left only cells of its own, for keys
that it answered with. -/
theorem cell?_of_clearing {lower : Nat} {u : Task Req R} (hu : tasks[lower]? = some u)
    {other : R} {otherRound : Nat} (hother : u.result? = some (other, otherRound)) {key : Key}
    {cell : Cell V} (hcell : Journal.cell? key lower journal = some cell) :
    cell.incarnation = u.incarnation ∧ key ∈ (Tracked.access other).writes := by
  have hversion := h.version_eq hu
  have hcleared : (u.version, .clear) ∈ journal := by
    obtain ⟨-, hpath⟩ := h.answered hu hother
    generalize hentries : Journal.entriesOf u.version journal = entries at hpath
    cases hpath with
    | clear _ => exact Journal.mem_entriesOf.mp (hentries ▸ List.mem_cons_self)
  obtain ⟨newer, older, hsplit⟩ := List.append_of_mem hcleared
  have hindex : u.version.index = lower := h.seated.index hu
  have hwrite : (⟨lower, cell.incarnation⟩, .write key cell.value) ∈ newer := by
    rw [hsplit, ← hindex] at hcell
    exact hindex ▸ Journal.mem_of_cell?_append_clear newer older hcell
  have hmem : (⟨lower, cell.incarnation⟩, .write key cell.value) ∈ journal :=
    hsplit ▸ List.mem_append_left _ hwrite
  have hge : u.incarnation ≤ cell.incarnation := by
    have hordered := h.ordered
    rw [Journal.Ordered, hsplit, List.pairwise_append] at hordered
    exact hordered.2.2 _ hwrite _ List.mem_cons_self hindex.symm
  have heq := Nat.le_antisymm (h.incarnation_le hu hmem) hge
  rw [heq, ← hversion] at hmem
  exact ⟨heq, h.mem_writes (fun _ _ => (hrecords _ _).clear) hu hother hmem⟩

/-- The cells that a final call saw below it are there still, or are gone with an attempt that ran
beside the call or after it. -/
theorem final_cell (hjudged : Validator.judgeBehind [] tasks = tasks) {slot lower : Nat}
    (hlt : lower < slot) {t u : Task Req R} (ht : tasks[slot]? = some t)
    (hu : tasks[lower]? = some u) {response other : R} {round otherRound : Nat}
    (hresult : t.result? = some (response, round)) (hother : u.result? = some (other, otherRound))
    {key : Key} {found : Reading V} {newer older : Journal V}
    (hsplit : journal = newer ++ (t.version, .read key found) :: older) :
    (otherRound < round ∧ Journal.cell? key lower journal = Journal.cell? key lower older) ∨
      (round ≤ otherRound ∧ key ∉ (Tracked.access other).writes ∧
        Journal.cell? key lower journal = none) := by
  rcases Nat.lt_or_ge otherRound round with hround | hround
  · exact .inl ⟨hround, h.cell?_of_older ht hu hresult hother hround hsplit⟩
  · have hread : (t.version, .read key found) ∈ journal := by simp [hsplit]
    have hnot := h.not_mem_writes (fun _ _ => (hrecords _ _).clear) hjudged hlt ht hu hresult
      hother hround hread
    refine .inr ⟨hround, hnot, ?_⟩
    cases hcell : Journal.cell? key lower journal with
    | none => rfl
    | some cell => exact absurd (h.cell?_of_clearing hrecords hu hother hcell).2 hnot

theorem superseded_of_withdrawn {lower : Nat} {u : Task Req R} (hu : tasks[lower]? = some u)
    {other : R} {otherRound : Nat} (hother : u.result? = some (other, otherRound)) {key : Key}
    (hnot : key ∉ (Tracked.access other).writes) {incarnation : Nat} {value : V}
    (hmem : (⟨lower, incarnation⟩, .write key value) ∈ journal) : incarnation < u.incarnation := by
  refine Nat.lt_of_le_of_ne (h.incarnation_le hu hmem) fun heq => hnot ?_
  rw [heq, ← h.version_eq hu] at hmem
  exact h.mem_writes (fun _ _ => (hrecords _ _).clear) hu hother hmem

section Answered

variable (hjudged : Validator.judgeBehind [] tasks = tasks)
  (hall : ∀ t ∈ tasks, t.status = .validated) {slot : Nat} {t : Task Req R}
  (ht : tasks[slot]? = some t) {response : R} {round : Nat}
  (hresult : t.result? = some (response, round)) {key : Key} {found : Reading V}
  (hread : (t.version, .read key found) ∈ journal)

include hjudged hall ht hresult

/-- Where a final call saw no cell, there is none in the end. -/
theorem cell?_eq_none_of_older {newer older : Journal V}
    (hsplit : journal = newer ++ (t.version, .read key found) :: older) {lower : Nat}
    (hlt : lower < slot) (hnone : Journal.cell? key lower older = none) :
    Journal.cell? key lower journal = none := by
  obtain ⟨u, other, otherRound, hu, hother⟩ := h.exists_result hall hlt ht
  rcases h.final_cell hrecords hjudged hlt ht hu hresult hother hsplit with ⟨-, heq⟩ | ⟨-, -, h'⟩
  · exact heq.trans hnone
  · exact h'

include hread

/-- What differs from the final store was found in a cell that is gone with its attempt. -/
theorem superseded_of_stale (hne : found ≠ (Journal.replay base journal).read key slot) :
    ∃ lower u other otherRound incarnation value, lower < slot ∧ tasks[lower]? = some u ∧
      u.result? = some (other, otherRound) ∧ round ≤ otherRound ∧
      incarnation < u.incarnation ∧ key ∉ (Tracked.access other).writes ∧
      found = .versioned ⟨lower, incarnation⟩ value := by
  obtain ⟨newer, older, hsplit, holder, hfound⟩ := h.exists_older ht hread
  have hnow := Journal.cell?_replay base h.ordered key
  have hthen := Journal.cell?_replay base holder key
  have hgone : ∀ lower < slot, (Journal.replay base older).cell? key lower = none →
      (Journal.replay base journal).cell? key lower = none := by
    intro lower hlt hnone
    rw [hthen] at hnone
    rw [hnow]
    exact h.cell?_eq_none_of_older hrecords hjudged hall ht hresult hsplit hlt hnone
  rcases Store.read_cases (Journal.replay base older) key slot with
    ⟨lower, cell, hcell, hlt, habove, hsaw⟩ | ⟨hnone, hsaw⟩
  · obtain ⟨u, other, otherRound, hu, hother⟩ := h.exists_result hall hlt ht
    rcases h.final_cell hrecords hjudged hlt ht hu hresult hother hsplit with
      ⟨-, heq⟩ | ⟨hround, hnot, -⟩
    · -- The cell is there still, and so the read is current.
      have hstill : (Journal.replay base journal).cell? key lower = some cell := by
        rw [hnow, heq, ← hthen, hcell]
      refine absurd ?_ hne
      rw [hfound, hsaw, Store.read_of_cell hstill hlt fun index hgt hlt' =>
        hgone index hlt' (habove index hgt hlt')]
    · rw [hthen] at hcell
      have hwrite : (⟨lower, cell.incarnation⟩, .write key cell.value) ∈ journal := by
        rw [hsplit]
        exact List.mem_append_right _ (List.mem_cons_of_mem _ (Journal.mem_of_cell? older hcell))
      exact ⟨lower, u, other, otherRound, cell.incarnation, cell.value, hlt, hu, hother, hround,
        h.superseded_of_withdrawn hrecords hu hother hnot hwrite, hnot, hfound.trans hsaw⟩
  · refine absurd ?_ hne
    rw [hfound, hsaw, Store.read_of_none fun index hlt => hgone index hlt (hnone index hlt),
      Journal.base_replay, Journal.base_replay]

omit hjudged hall ht hresult hread

theorem read_ne_of_superseded {lower : Nat} {u : Task Req R} (hu : tasks[lower]? = some u)
    {other : R} {otherRound : Nat} (hother : u.result? = some (other, otherRound))
    {incarnation : Nat} (hlt : incarnation < u.incarnation) (key : Key) (slot : Nat) (value : V) :
    .versioned ⟨lower, incarnation⟩ value ≠ (Journal.replay base journal).read key slot := by
  intro heq
  rcases Store.read_cases (Journal.replay base journal) key slot with
    ⟨index, cell, hcell, -, -, hread'⟩ | ⟨-, hread'⟩
  · rw [hread'] at heq
    cases heq
    rw [Journal.cell?_replay base h.ordered] at hcell
    have hfinal := (h.cell?_of_clearing hrecords hu hother hcell).1
    omega
  · rw [hread', Store.fallback] at heq
    split at heq <;> cases heq

include hjudged hall ht hresult hread

/-- What a final call found differs from what the final store holds for it exactly if it is of a
superseded attempt: of a lower position whose final attempt ran beside the call or after it, and
does not write the key any more. -/
theorem stale_iff :
    found ≠ (Journal.replay base journal).read key slot ↔
      ∃ lower u other otherRound incarnation value, lower < slot ∧ tasks[lower]? = some u ∧
        u.result? = some (other, otherRound) ∧ round ≤ otherRound ∧
        incarnation < u.incarnation ∧ key ∉ (Tracked.access other).writes ∧
        found = .versioned ⟨lower, incarnation⟩ value := by
  constructor
  · exact h.superseded_of_stale hrecords hjudged hall ht hresult hread
  · rintro ⟨lower, u, other, otherRound, incarnation, value, -, hu, hother, -, hlower, -, rfl⟩
    exact h.read_ne_of_superseded hrecords hu hother hlower key slot value

end Answered

end Chronicle

namespace Scheduler

/-- **Which reads can be stale.** Let every call clear its position, then do what it likes at its own
version, and answer with all keys that it read and wrote. If a batch is answered, its run is that of
a run that keeps a journal, and what the call behind a final response read differs from what the
final memory holds for it exactly if it is of a superseded attempt: of a lower transaction whose
final call ran in the same round or a later one and does not write the key any more. -/
theorem final_read_stale_iff [Tracked R] {s : Scheduler (Store V) Req R}
    (hs : s.validator = Validator.readWrite) {body : Req → Version → Program V R}
    (hrecords : ∀ request version, (body request version).Records)
    (hexecutor : s.executor = fun request version =>
      (Program.clear (body request version)).call version)
    (base : KeyMap V) (env : Environment) (metrics : Metrics) {requests : List Req} {rs : List R}
    (hresult : (s.process env metrics ⟨.ofBase base, false⟩ requests).result = .ok rs) :
    let ended := s.process env metrics ⟨.ofBase base, false⟩ requests
    let journaled := (s.journaling base (Program.clearing body)).process env metrics ⟨[], false⟩
      requests
    ended = journaled.map (Journal.replay base) ∧
    ∀ slot < requests.length, ∃ t response round, ended.batch.tasks[slot]? = some t ∧
      t.result? = some (response, round) ∧ rs[slot]? = some response ∧
      ∀ key found, (t.version, .read key found) ∈ journaled.batch.world.state →
        (found ≠ ended.batch.world.state.read key slot ↔
          ∃ lower u other otherRound incarnation value, lower < slot ∧
            ended.batch.tasks[lower]? = some u ∧ u.result? = some (other, otherRound) ∧
            round ≤ otherRound ∧ incarnation < u.incarnation ∧
            key ∉ (Tracked.access other).writes ∧
            found = .versioned ⟨lower, incarnation⟩ value) := by
  intro ended journaled
  have herased : ended = journaled.map (Journal.replay base) :=
    process_journaling hexecutor base env metrics requests
  have hresult' : journaled.result = .ok rs := by
    rw [← hresult]
    exact (congrArg BatchEnd.result herased).symm
  obtain ⟨b, number, hagrees, hresponses, hchronicled, hall, hjudged⟩ :=
    process_chronicled (s := s.journaling base (Program.clearing body)) hs rfl hresult'
  have hjournal : journaled.batch.world.state = b.world.state := by rw [← hagrees.world]
  have htasks : ended.batch.tasks = b.tasks := by
    rw [herased]
    exact hagrees.tasks
  have hmemory : ended.batch.world.state = Journal.replay base b.world.state := by
    rw [herased, ← hjournal]
    rfl
  have hchronicle := hchronicled.chronicle
  refine ⟨herased, fun slot hlt => ?_⟩
  obtain ⟨t, ht⟩ := hchronicle.seated.exists_task hlt
  obtain ⟨response, round, hresponse, hrs⟩ := (responses_ok hresponses).2 ht
  rw [htasks, hmemory, hjournal]
  exact ⟨t, response, round, ht, hresponse, hrs, fun key found hread =>
    hchronicle.stale_iff hrecords hjudged hall ht hresponse hread⟩

/-! ## A withdrawn write -/

/-- Runs scripts, each behind a clearing of its position. -/
def clearingScripts : Scheduler (Store UInt64) (List Script) Script.Response where
  executor := fun attempts version => (Program.clear (Script.execute attempts version)).call version
  validator := Validator.readWrite
  config := { workers := 1 }

/-- A transaction that writes one key; one that reads it and writes another at its first attempt
only; and one that reads that other. -/
def withdrawal : List (List Script) :=
  let a : Key := ⟨[97]⟩
  let b : Key := ⟨[98]⟩
  [[.write a 1 .done], [.read a (.write b 5 .done), .read a .done], [.read b .done]]

/-- The memory and the tasks that the withdrawal leaves. -/
def withdrawn : BatchEnd (Store UInt64) (List Script) Script.Response :=
  clearingScripts.process {} {} ⟨.ofBase ∅, false⟩ withdrawal

def withdrawnJournal : Journal UInt64 :=
  ((clearingScripts.journaling ∅ (Program.clearing Script.execute)).process {} {} ⟨[], false⟩
    withdrawal).batch.world.state

theorem withdrawnJournal_read :
    (⟨2, 0⟩, .read ⟨[98]⟩ (.versioned ⟨1, 0⟩ 5)) ∈ withdrawnJournal := by
  decide +kernel

theorem withdrawn_read_missing : withdrawn.batch.world.state.read ⟨[98]⟩ 2 = .missing := by
  decide +kernel

/-- The first round sends the second transaction back, and accepts the third although it read what
the second had written. In the next round the second does not write that key any more, so nothing
sends the third back: its final response rests on a value that the memory does not hold. -/
theorem withdrawn_write_is_read :
    (∃ rs, withdrawn.result = .ok rs) ∧
      ¬ ∀ slot t key found, withdrawn.batch.tasks[slot]? = some t →
        (t.version, .read key found) ∈ withdrawnJournal →
        found = withdrawn.batch.world.state.read key slot := by
  refine ⟨⟨_, rfl⟩, fun hcurrent => ?_⟩
  have hstale := hcurrent 2 _ _ _ rfl withdrawnJournal_read
  rw [withdrawn_read_missing] at hstale
  cases hstale

/-- The third transaction of the withdrawal ran in the first round and read what a superseded
attempt of the second wrote. -/
theorem withdrawal_reads_superseded :
    ∃ lower u other otherRound incarnation value, lower < 2 ∧
      withdrawn.batch.tasks[lower]? = some u ∧ u.result? = some (other, otherRound) ∧
      1 ≤ otherRound ∧ incarnation < u.incarnation ∧
      (⟨[98]⟩ : Key) ∉ (Tracked.access other).writes ∧
      (.versioned ⟨1, 0⟩ 5 : Reading UInt64) = .versioned ⟨lower, incarnation⟩ value := by
  have hanswered : ∃ rs, withdrawn.result = .ok rs := ⟨_, rfl⟩
  obtain ⟨rs, hrs⟩ := hanswered
  obtain ⟨-, hreads⟩ :=
    final_read_stale_iff (s := clearingScripts) rfl Script.execute_records rfl ∅ {} {} hrs
  obtain ⟨t, response, round, ht, hresponse, -, hstale⟩ := hreads 2 (by decide)
  have htask : withdrawn.batch.tasks[2]?.map (fun t => (t.version, t.round?)) =
      some (⟨2, 0⟩, some 1) := by
    decide +kernel
  have ht' : withdrawn.batch.tasks[2]? = some t := ht
  rw [ht', Option.map_some, Task.round?, hresponse] at htask
  obtain ⟨hversion, hround⟩ := Prod.mk.inj (Option.some.inj htask)
  obtain rfl : round = 1 := Option.some.inj hround
  refine (hstale ⟨[98]⟩ (.versioned ⟨1, 0⟩ 5) (hversion ▸ withdrawnJournal_read)).mp fun heq => ?_
  have hmissing := heq.trans withdrawn_read_missing
  cases hmissing

end Scheduler

end TxBatch
