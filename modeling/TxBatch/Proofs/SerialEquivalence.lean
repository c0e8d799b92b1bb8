import TxBatch.Proofs.Steady

/-!
# Serial equivalence

Programs that write the same keys at every attempt leave their positions as their final attempts
alone would (`Chronicle.cell?_final`), and so no final call has read anything but what the memory
holds for it in the end (`Chronicle.found_current`). Put one behind the other the final attempts are
therefore a serial journal (`Chronicle.serial`): the sequential run gives the same responses and
leaves the same state, whatever the rounds and the interleavings were.
-/

namespace TxBatch

variable {V Req R : Type}

namespace Journal

theorem cell?_cons_of_ne {key : Key} {index : Nat} {head : Version × Entry V}
    (hwrite : head.1.index = index → ∀ value, head.2 ≠ .write key value)
    (hclear : head.1.index = index → head.2 ≠ .clear) (older : Journal V) :
    cell? key index (head :: older) = cell? key index older := by
  obtain ⟨version, entry⟩ := head
  cases entry with
  | read other found => rfl
  | cancel => rfl
  | clear => exact if_neg fun hindex => hclear hindex rfl
  | write other value =>
      refine if_neg ?_
      rintro ⟨rfl, hindex⟩
      exact hwrite hindex value rfl

/-- Where nothing is cleared and the last attempt writes what earlier ones wrote, the cells are those
of the last attempt. -/
theorem cell?_of_last {journal : Journal V} (hordered : journal.Ordered) {version : Version}
    {key : Key} (huncleared : ∀ head ∈ journal, head.2 ≠ .clear)
    (hlast : ∀ head ∈ journal, head.1.index = version.index →
      head.1.incarnation ≤ version.incarnation)
    (hwrites : ∀ head ∈ journal, head.1.index = version.index →
      ∀ value, head.2 = .write key value → Writes key (entriesOf version journal)) (first : Nat) :
    (cell? key version.index journal).map Cell.value =
      (cell? key version.index
        (stamp ⟨version.index, first⟩ (entriesOf version journal))).map Cell.value := by
  induction journal with
  | nil => rfl
  | cons head older ih =>
      obtain ⟨⟨position, incarnation⟩, entry⟩ := head
      obtain ⟨hnewest, hrest⟩ := List.pairwise_cons.mp hordered
      have hclear : entry ≠ .clear := huncleared _ List.mem_cons_self
      have hfewer := ih hrest (fun other hmem => huncleared other (List.mem_cons_of_mem _ hmem))
        fun other hmem => hlast other (List.mem_cons_of_mem _ hmem)
      have hless := fun other hmem => hwrites other (List.mem_cons_of_mem _ hmem)
      by_cases hself : (⟨position, incarnation⟩ : Version) = version
      · subst hself
        rw [entriesOf_cons_self] at hless ⊢
        rw [stamp_append_singleton]
        by_cases hwrite : ∃ value, entry = .write key value
        · obtain ⟨value, rfl⟩ := hwrite
          simp [cell?]
        · rw [cell?_cons_of_ne (fun _ value hentry => hwrite ⟨value, hentry⟩) fun _ => hclear,
            cell?_cons_of_ne (fun _ value hentry => hwrite ⟨value, hentry⟩) fun _ => hclear]
          refine hfewer fun other hmem hindex value hentry => ?_
          obtain ⟨value', hmem'⟩ := hless other hmem hindex value hentry
          rcases List.mem_append.mp hmem' with hmem' | hmem'
          · exact ⟨value', hmem'⟩
          · exact absurd ⟨value', (List.mem_singleton.mp hmem').symm⟩ hwrite
      · rw [entriesOf_cons_ne hself] at hless ⊢
        rw [cell?_cons_of_ne (fun hindex value hentry => hself ?_) fun _ => hclear]
        · exact hfewer hless
        · -- The last attempt has a write of its own, and so nothing older is behind it.
          have hwritten := hwrites _ List.mem_cons_self hindex value hentry
          rw [entriesOf_cons_ne hself] at hwritten
          obtain ⟨value', hmem⟩ := hwritten
          have hle := hnewest _ (mem_entriesOf.mp hmem) hindex
          have hge := hlast _ List.mem_cons_self hindex
          obtain rfl : position = version.index := hindex
          obtain rfl : incarnation = version.incarnation := Nat.le_antisymm hge hle
          rfl

end Journal

/-- What the attempts that the tasks stand at did, position by position. -/
def Journal.finalEntries (tasks : List (Task Req R)) (journal : Journal V) (slot : Nat) :
    List (Journal.Entry V) :=
  match tasks[slot]? with
  | some t => entriesOf t.version journal
  | none => []

theorem Journal.finalEntries_eq {tasks : List (Task Req R)} {slot : Nat} {t : Task Req R}
    (ht : tasks[slot]? = some t) (journal : Journal V) :
    finalEntries tasks journal slot = entriesOf t.version journal := by
  rw [finalEntries, ht]

namespace Chronicle

variable {base : KeyMap V} {body : Req → Nat → Program V R} {requests : List Req} {number : Nat}
  {tasks : List (Task Req R)} {journal : Journal V} [Tracked R]
  (hsteady : ∀ request index, (body request index).Steady)
  (h : Chronicle base (Program.placed body) requests number tasks journal)

include hsteady h

theorem writes_of_result {slot : Nat} {t : Task Req R} (ht : tasks[slot]? = some t)
    {response : R} {round : Nat} (hresult : t.result? = some (response, round))
    {head : Version × Journal.Entry V} (hmem : head ∈ journal) (hindex : head.1.index = slot)
    {key : Key} {value : V} (hentry : head.2 = .write key value) :
    Journal.Writes key (Journal.entriesOf t.version journal) := by
  obtain ⟨version, entry⟩ := head
  subst hindex hentry
  obtain ⟨request, result, hrequest, hpath, hout⟩ := h.paths _ hmem
  obtain rfl := Option.some.inj ((h.seated.request ht).symm.trans hrequest)
  have hfinal := (h.answered ht hresult).2
  rw [Program.placed, h.version_eq ht] at hfinal
  rw [h.version_eq ht]
  exact (hsteady _ _).writes hpath hout hfinal ⟨value, Journal.mem_entriesOf.mpr hmem⟩

theorem cell?_final {slot : Nat} {t : Task Req R} (ht : tasks[slot]? = some t)
    {response : R} {round : Nat} (hresult : t.result? = some (response, round)) (key : Key)
    (first : Nat) :
    (Journal.cell? key slot journal).map Cell.value =
      (Journal.cell? key slot
        (Journal.stamp ⟨slot, first⟩ (Journal.entriesOf t.version journal))).map Cell.value := by
  have hindex : t.version.index = slot := h.seated.index ht
  subst hindex
  refine Journal.cell?_of_last h.ordered (fun head hmem hclear => ?_) (fun head hmem hindex => ?_)
    (fun head hmem hindex value hentry => ?_) first
  · obtain ⟨version, entry⟩ := head
    subst hclear
    obtain ⟨request, result, -, hpath, -⟩ := h.paths _ hmem
    exact (hsteady _ _).unclearing hpath (Journal.mem_entriesOf.mpr hmem)
  · obtain ⟨⟨position, incarnation⟩, entry⟩ := head
    obtain rfl : position = t.version.index := hindex
    exact h.incarnation_le ht hmem
  · exact h.writes_of_result hsteady ht hresult hmem hindex hentry

/-- What a final call found is what the memory holds for it in the end. -/
theorem found_current (hjudged : Validator.judgeBehind [] tasks = tasks)
    (hall : ∀ t ∈ tasks, t.status = .validated) {slot : Nat} {t : Task Req R}
    (ht : tasks[slot]? = some t) {response : R} {round : Nat}
    (hresult : t.result? = some (response, round)) {key : Key} {found : Reading V}
    (hread : (t.version, .read key found) ∈ journal) :
    found = (Journal.replay base journal).read key slot := by
  have hrecords : ∀ request version, (Program.placed body request version).Records :=
    fun request version => (hsteady request version.index).records
  obtain ⟨newer, older, hsplit, holder, hfound⟩ := h.exists_older ht hread
  rw [hfound]
  refine Store.read_congr (by simp) fun lower hlt => ?_
  obtain ⟨u, other, otherRound, hu, hother⟩ := h.exists_result hall hlt ht
  rw [Journal.cell?_replay base h.ordered, Journal.cell?_replay base holder]
  rcases Nat.lt_or_ge otherRound round with hround | hround
  · exact (h.cell?_of_older ht hu hresult hother hround hsplit).symm
  · have hnot := h.not_mem_writes hrecords hjudged hlt ht hu hresult hother hround hread
    have hnone : ∀ {part : Journal V}, (∀ head ∈ part, head ∈ journal) →
        Journal.cell? key lower part = none := by
      intro part hpart
      cases hcell : Journal.cell? key lower part with
      | none => rfl
      | some cell =>
          have hmem := hpart _ (Journal.mem_of_cell? part hcell)
          obtain ⟨value, hwrite⟩ := h.writes_of_result hsteady hu hother hmem rfl rfl
          exact absurd (h.mem_writes hrecords hu hother (Journal.mem_entriesOf.mp hwrite)) hnot
    rw [hnone fun head hmem => hmem, hnone fun head hmem => ?_]
    rw [hsplit]
    exact List.mem_append_right _ (List.mem_cons_of_mem _ hmem)

theorem read_final (hall : ∀ t ∈ tasks, t.status = .validated) {reader : Nat}
    (hle : reader ≤ requests.length) (key : Key) :
    ((Journal.replay base journal).read key reader).value? =
      ((Journal.replay base (Journal.serial (Journal.finalEntries tasks journal) reader)).read key
        reader).value? := by
  refine Store.value_read_congr (by simp) fun slot hlt => ?_
  obtain ⟨t, ht⟩ := h.seated.exists_task (Nat.lt_of_lt_of_le hlt hle)
  obtain ⟨response, round, hresult, -⟩ := Task.result?_of_validated (hall t (List.mem_of_getElem? ht))
  rw [Journal.cell?_replay base h.ordered, Journal.cell?_replay base (Journal.ordered_serial _ _),
    Journal.cell?_serial _ hlt, Journal.finalEntries_eq ht, h.cell?_final hsteady ht hresult key 0]

/-- The final attempts, one behind the other, are calls of all requests, each of which read what the
ones in front of it leave. -/
theorem serial (hjudged : Validator.judgeBehind [] tasks = tasks)
    (hall : ∀ t ∈ tasks, t.status = .validated) {rs : List R}
    (hresponses : Scheduler.responses tasks = .ok rs) :
    Journal.Serial base body requests rs (Journal.finalEntries tasks journal) := by
  obtain ⟨hlength, hanswers⟩ := Scheduler.responses_ok hresponses
  refine {
    length := hlength.trans h.seated.length
    path := fun {slot request response} hrequest hresponse => ?_
    uncancelled := fun {slot} hlt hmem => ?_
    current := fun {slot key found} hlt hmem => ?_ }
  · obtain ⟨t, ht⟩ := h.seated.exists_task (List.getElem?_eq_some_iff.mp hrequest).1
    obtain rfl := Option.some.inj ((h.seated.request ht).symm.trans hrequest)
    obtain ⟨response', round, hresult, hresponse'⟩ := hanswers ht
    obtain rfl := Option.some.inj (hresponse'.symm.trans hresponse)
    have hindex : t.version.index = slot := h.seated.index ht
    have hpath := (h.answered ht hresult).2
    rw [Program.placed, hindex] at hpath
    rw [Journal.finalEntries_eq ht]
    exact hpath
  · obtain ⟨t, ht⟩ := h.seated.exists_task hlt
    rw [Journal.finalEntries_eq ht] at hmem
    exact h.uncancelled _ (Journal.mem_entriesOf.mp hmem)
  · obtain ⟨t, ht⟩ := h.seated.exists_task hlt
    obtain ⟨response, round, hresult, -⟩ := hanswers ht
    rw [Journal.finalEntries_eq ht] at hmem
    rw [h.found_current hsteady hjudged hall ht hresult (Journal.mem_entriesOf.mp hmem)]
    exact h.read_final hsteady hall (Nat.le_of_lt hlt) key

theorem snapshot_final (hall : ∀ t ∈ tasks, t.status = .validated) :
    (Journal.replay base journal).snapshot =
      (Journal.replay base
        (Journal.serial (Journal.finalEntries tasks journal) requests.length)).snapshot := by
  refine Std.ExtTreeMap.ext_getElem? fun key => ?_
  have hfinal : ∀ {key index cell}, (Journal.replay base journal).cell? key index = some cell →
      index < requests.length := by
    intro key index cell hcell
    rw [Journal.cell?_replay base h.ordered] at hcell
    obtain ⟨t, ht, -⟩ := h.stamped _ (Journal.mem_of_cell? journal hcell)
    exact h.seated.length ▸ (List.getElem?_eq_some_iff.mp ht).1
  have hserial : ∀ {key index cell},
      (Journal.replay base (Journal.serial (Journal.finalEntries tasks journal)
        requests.length)).cell? key index = some cell → index < requests.length := by
    intro key index cell hcell
    rw [Journal.cell?_replay base (Journal.ordered_serial _ _)] at hcell
    exact (Journal.mem_serial (Journal.mem_of_cell? _ hcell)).1
  rw [Store.getElem?_snapshot hfinal, Store.getElem?_snapshot hserial]
  exact h.read_final hsteady hall (Nat.le_refl _) key

end Chronicle

namespace Scheduler

variable {body : Req → Nat → Program V R} {s : Scheduler (Store V) Req R} [Tracked R]

theorem process_serial (hs : s.validator = Validator.readWrite)
    (hsteady : ∀ request index, (body request index).Steady)
    (hexecutor : s.executor = fun request version => (body request version.index).call version)
    (base : KeyMap V) (env : Environment) (metrics : Metrics) {requests : List Req} {rs : List R}
    (hresult : (s.process env metrics ⟨.ofBase base, false⟩ requests).result = .ok rs) :
    ∃ entries, Journal.Serial base body requests rs entries ∧
      (s.process env metrics ⟨.ofBase base, false⟩ requests).batch.world.state.snapshot =
        (Journal.replay base (Journal.serial entries requests.length)).snapshot := by
  have herased : s.process env metrics ⟨.ofBase base, false⟩ requests =
      ((s.journaling base (Program.placed body)).process env metrics ⟨[], false⟩ requests).map
        (Journal.replay base) :=
    process_journaling hexecutor base env metrics requests
  rw [herased] at hresult ⊢
  obtain ⟨b, number, hagrees, hresponses, hchronicled, hall, hjudged⟩ :=
    process_chronicled (s := s.journaling base (Program.placed body)) hs rfl hresult
  refine ⟨_, hchronicled.chronicle.serial hsteady hjudged hall hresponses, ?_⟩
  rw [← hchronicled.chronicle.snapshot_final hsteady hall, ← hagrees.world]
  rfl

/-- Serial equivalence. Let a batch be run with the read-write validator and with programs that
access the store at their own position and version only, and are steady. In whatever order the
calls of the rounds run and however their accesses are interleaved, if the batch is answered, then
the sequential run over the same base gives the same responses and leaves the same state. -/
theorem process_sequential (hs : s.validator = Validator.readWrite)
    (hsteady : ∀ request index, (body request index).Steady)
    (hexecutor : s.executor = fun request version => (body request version.index).call version)
    (base : KeyMap V) (env : Environment) (metrics : Metrics) {requests : List Req} {rs : List R}
    (hresult : (s.process env metrics ⟨.ofBase base, false⟩ requests).result = .ok rs) :
    (s.sequential ⟨.ofBase base, false⟩ requests).result = .ok rs ∧
      (s.sequential ⟨.ofBase base, false⟩ requests).world.state.snapshot =
        (s.process env metrics ⟨.ofBase base, false⟩ requests).batch.world.state.snapshot := by
  obtain ⟨entries, hserial, hsnapshot⟩ := process_serial hs hsteady hexecutor base env metrics hresult
  obtain ⟨hresponses, hworld⟩ := sequential_of_serial hexecutor
    (fun request index => (hsteady request index).onlyValues) (valid_of_process_ok hresult) hserial
  exact ⟨hresponses, by rw [hworld, hsnapshot]⟩

/-! ## A round trip of transfers -/

/-- Runs transfers between three accounts, two at a time. -/
def tellers : Scheduler (Store UInt64) Transfer Receipt where
  executor := Ledger.executor 3 ""
  validator := Validator.readWrite
  config := { workers := 2 }

/-- Each transfer spends what the one in front of it has brought. -/
def roundTrip : List Transfer := [⟨0, 1, 10⟩, ⟨1, 2, 15⟩, ⟨2, 0, 20⟩]

/-- In the first round the second transfer reads before the first one writes. -/
def interleaved : Environment where
  schedule := fun number => if number = 1 then [.take, .take, .advance 1, .advance 1] else []

theorem roundTrip_sequential :
    ∃ rs, (tellers.process interleaved {} ⟨.ofBase (Ledger.genesis 3 10), false⟩
        roundTrip).result = .ok rs ∧
      (tellers.sequential ⟨.ofBase (Ledger.genesis 3 10), false⟩ roundTrip).result = .ok rs ∧
      (tellers.sequential ⟨.ofBase (Ledger.genesis 3 10), false⟩ roundTrip).world.state.snapshot =
        (tellers.process interleaved {} ⟨.ofBase (Ledger.genesis 3 10), false⟩
          roundTrip).batch.world.state.snapshot := by
  have hanswered : ∃ rs, (tellers.process interleaved {} ⟨.ofBase (Ledger.genesis 3 10), false⟩
      roundTrip).result = .ok rs := ⟨_, rfl⟩
  obtain ⟨rs, hrs⟩ := hanswered
  exact ⟨rs, hrs, process_sequential (s := tellers) rfl (fun t _ => Ledger.transfer_steady 3 "" t)
    rfl (Ledger.genesis 3 10) interleaved {} hrs⟩

end Scheduler

end TxBatch
