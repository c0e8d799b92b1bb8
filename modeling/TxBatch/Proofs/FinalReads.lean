import TxBatch.Proofs.Chronicle

/-!
# What the final calls read

When a batch is answered, every result is accepted by verdicts against all final results. What a
final call read is compared here with the memory that the run leaves, position by position below the
call: a position whose result is older is not touched any more, so its cells were final when they
were read (`cell?_of_older`); a position that ran beside the call or after it has not written, in
its final attempt, what the call read (`not_mem_writes`).
-/

namespace TxBatch

variable {V Req R : Type}

/-- The keys that these accesses read and wrote are in an access set. -/
structure Journal.Covered (entries : List (Journal.Entry V)) (access : Access) : Prop where
  reads : ∀ {key found}, .read key found ∈ entries → key ∈ access.reads
  writes : ∀ {key value}, .write key value ∈ entries → key ∈ access.writes

/-- Whatever it finds, the program answers with all keys that it read and wrote. -/
def Program.Records [Tracked R] (program : Program V R) : Prop :=
  ∀ entries response, program.Path entries (.returned response) →
    Journal.Covered entries (Tracked.access response)

namespace Chronicle

variable {base : KeyMap V} {program : Req → Version → Program V R} {requests : List Req}
  {number : Nat} {tasks : List (Task Req R)} {journal : Journal V}
  (h : Chronicle base program requests number tasks journal)

include h

theorem version_eq {slot : Nat} {t : Task Req R} (ht : tasks[slot]? = some t) :
    t.version = ⟨slot, t.incarnation⟩ := by
  rw [Task.version, h.seated.index ht]

/-- The cells of an older result were final when the call read. -/
theorem cell?_of_older {slot lower : Nat} {t u : Task Req R} (ht : tasks[slot]? = some t)
    (hu : tasks[lower]? = some u) {response other : R} {round otherRound : Nat}
    (hresult : t.result? = some (response, round))
    (hother : u.result? = some (other, otherRound)) (hround : otherRound < round) {key : Key}
    {found : Reading V} {newer older : Journal V}
    (hsplit : journal = newer ++ (t.version, .read key found) :: older) :
    Journal.cell? key lower journal = Journal.cell? key lower older := by
  have huntouched := h.untouched ht hresult hsplit hu hother hround
  rw [hsplit, Journal.cell?_append_of_untouched huntouched]
  rfl

theorem exists_result (hall : ∀ t ∈ tasks, t.status = .validated) {slot lower : Nat}
    (hlt : lower < slot) {t : Task Req R} (ht : tasks[slot]? = some t) :
    ∃ u other otherRound, tasks[lower]? = some u ∧ u.result? = some (other, otherRound) := by
  have hlength := (List.getElem?_eq_some_iff.mp ht).1
  obtain ⟨u, hu⟩ := h.seated.exists_task (h.seated.length ▸ Nat.lt_trans hlt hlength)
  obtain ⟨other, otherRound, hother, -⟩ :=
    Task.result?_of_validated (hall u (List.mem_of_getElem? hu))
  exact ⟨u, other, otherRound, hu, hother⟩

/-- What the journal has of a position is of the attempt that its task stands at, or of an earlier
one. -/
theorem incarnation_le {slot : Nat} {t : Task Req R} (ht : tasks[slot]? = some t)
    {incarnation : Nat} {entry : Journal.Entry V} (hmem : (⟨slot, incarnation⟩, entry) ∈ journal) :
    incarnation ≤ t.incarnation := by
  obtain ⟨u, hu, hle, -⟩ := h.stamped _ hmem
  obtain rfl := Option.some.inj (ht.symm.trans hu)
  exact hle

theorem exists_older {slot : Nat} {t : Task Req R} (ht : tasks[slot]? = some t) {key : Key}
    {found : Reading V} (hread : (t.version, .read key found) ∈ journal) :
    ∃ newer older, journal = newer ++ (t.version, .read key found) :: older ∧
      Journal.Ordered older ∧ found = (Journal.replay base older).read key slot := by
  obtain ⟨newer, older, hsplit⟩ := List.append_of_mem hread
  have hordered := h.ordered
  rw [Journal.Ordered, hsplit, List.pairwise_append, List.pairwise_cons] at hordered
  exact ⟨newer, older, hsplit, hordered.2.1.2,
    h.seated.index ht ▸ h.faithful newer t.version key found older hsplit⟩

section Records

variable [Tracked R] (hrecords : ∀ request version, (program request version).Records)

include hrecords

theorem mem_reads {slot : Nat} {t : Task Req R} {response : R} {round : Nat}
    (ht : tasks[slot]? = some t) (hresult : t.result? = some (response, round)) {key : Key}
    {found : Reading V} (hmem : (t.version, .read key found) ∈ journal) :
    key ∈ (Tracked.access response).reads :=
  (hrecords _ _ _ _ (h.answered ht hresult).2).reads (Journal.mem_entriesOf.mpr hmem)

theorem mem_writes {slot : Nat} {t : Task Req R} {response : R} {round : Nat}
    (ht : tasks[slot]? = some t) (hresult : t.result? = some (response, round)) {key : Key}
    {value : V} (hmem : (t.version, .write key value) ∈ journal) :
    key ∈ (Tracked.access response).writes :=
  (hrecords _ _ _ _ (h.answered ht hresult).2).writes (Journal.mem_entriesOf.mpr hmem)

/-- A lower result of the same round or a later one does not write what an accepted call read. -/
theorem not_mem_writes (hjudged : Validator.judgeBehind [] tasks = tasks) {slot lower : Nat}
    (hlt : lower < slot) {t u : Task Req R} (ht : tasks[slot]? = some t)
    (hu : tasks[lower]? = some u) {response other : R} {round otherRound : Nat}
    (hresult : t.result? = some (response, round))
    (hother : u.result? = some (other, otherRound)) (hround : round ≤ otherRound) {key : Key}
    {found : Reading V} (hmem : (t.version, .read key found) ∈ journal) :
    key ∉ (Tracked.access other).writes := by
  intro hwritten
  rw [← hjudged] at ht hu
  have hfree := Validator.not_dependsOn_of_validated hlt ht hu hresult hother hround
  rw [hjudged] at ht
  have hdepends := Access.dependsOn_iff.mpr
    ⟨key, hwritten, .inl (h.mem_reads hrecords ht hresult hmem)⟩
  rw [hfree] at hdepends
  cases hdepends

end Records

end Chronicle

end TxBatch
