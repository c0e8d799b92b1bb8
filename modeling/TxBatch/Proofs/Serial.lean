import TxBatch.Proofs.Journal
import TxBatch.Sequential

/-!
# Serial journals

A sequential run in which nothing aborts leaves the journal of its calls one behind the other, all
of them at their first attempt (`Journal.serial`). A call whose program goes on by the values of its
reads alone takes the same way wherever it finds the same values (`Program.call_run`). So what some
calls did, in whatever order and at whatever attempts, is what the sequential run does, if each of
them read what the calls in front of it leave (`Journal.Serial`, `sequential_of_serial`).
-/

namespace TxBatch

variable {V Req R : Type}

namespace Journal

/-- The entries of one attempt as a journal, newest first. -/
def stamp (version : Version) (entries : List (Entry V)) : Journal V :=
  (entries.map fun entry => (version, entry)).reverse

@[simp] theorem stamp_nil (version : Version) : stamp version ([] : List (Entry V)) = [] := rfl

@[simp] theorem stamp_cons (version : Version) (entry : Entry V) (entries : List (Entry V)) :
    stamp version (entry :: entries) = stamp version entries ++ [(version, entry)] := by
  simp [stamp]

@[simp] theorem stamp_append_singleton (version : Version) (entries : List (Entry V))
    (entry : Entry V) :
    stamp version (entries ++ [entry]) = (version, entry) :: stamp version entries := by
  simp [stamp]

theorem version_eq_of_mem_stamp {version : Version} {entries : List (Entry V)}
    {head : Version × Entry V} (h : head ∈ stamp version entries) : head.1 = version := by
  obtain ⟨entry, -, rfl⟩ := List.mem_map.mp (List.mem_reverse.mp h)
  rfl

/-- The journal of the first positions one behind the other, each at its first attempt. -/
def serial (entries : Nat → List (Entry V)) : Nat → Journal V
  | 0 => []
  | count + 1 => stamp ⟨count, 0⟩ (entries count) ++ serial entries count

theorem mem_serial {entries : Nat → List (Entry V)} {count : Nat} {head : Version × Entry V}
    (h : head ∈ serial entries count) : head.1.index < count ∧ head.1.incarnation = 0 := by
  induction count with
  | zero => cases h
  | succ count ih =>
      rcases List.mem_append.mp h with h | h
      · rw [version_eq_of_mem_stamp h]
        exact ⟨Nat.lt_succ_self count, rfl⟩
      · exact ⟨Nat.lt_succ_of_lt (ih h).1, (ih h).2⟩

theorem ordered_serial (entries : Nat → List (Entry V)) (count : Nat) :
    (serial entries count).Ordered := by
  refine List.pairwise_of_forall_mem_list fun newer _ older hmem _ => ?_
  rw [(mem_serial hmem).2]
  exact Nat.zero_le _

theorem cell?_serial (entries : Nat → List (Entry V)) {count index : Nat} (h : index < count)
    (key : Key) :
    cell? key index (serial entries count) = cell? key index (stamp ⟨index, 0⟩ (entries index)) := by
  induction count with
  | zero => exact absurd h (Nat.not_lt_zero index)
  | succ count ih =>
      rcases Nat.lt_succ_iff_lt_or_eq.mp h with hlt | rfl
      · rw [serial, cell?_append_of_untouched fun head hmem => ?_, ih hlt]
        rw [version_eq_of_mem_stamp hmem]
        exact (Nat.ne_of_lt hlt).symm
      · exact cell?_append_of_first (fun head hmem => Nat.ne_of_lt (mem_serial hmem).1) key _

/-- Nothing that an attempt does changes what it reads. -/
theorem read_replay_cons (base : KeyMap V) (version : Version) (entry : Entry V)
    (journal : Journal V) (key : Key) :
    (replay base ((version, entry) :: journal)).read key version.index =
      (replay base journal).read key version.index := by
  cases entry with
  | read other found => rfl
  | cancel => rfl
  | write other value =>
      refine Store.read_congr (by simp [replay]) fun index hlt => ?_
      exact Store.cell?_write_of_ne _ other value key (Nat.ne_of_lt hlt).symm
  | clear =>
      refine Store.read_congr (by simp [replay]) fun index hlt => ?_
      rw [replay, Store.cell?_clear, if_neg (Nat.ne_of_lt hlt).symm]

end Journal

namespace Program

/-- The program goes on by the values that its reads find, whoever wrote them. -/
def OnlyValues : Program V R → Prop
  | .finish _ => True
  | .read _ next =>
    (∀ found found', found.value? = found'.value? → next found = next found') ∧
      ∀ found, (next found).OnlyValues
  | .write _ _ next => next.OnlyValues
  | .clear next => next.OnlyValues
  | .cancel next => next.OnlyValues

/-- A call that finds the values that a way through its program has found takes that way. -/
theorem call_run (base : KeyMap V) (version : Version) {program : Program V R}
    {entries : List (Journal.Entry V)} {result : CallEnd R} (hpath : program.Path entries result)
    (hvalues : program.OnlyValues) (hcancel : .cancel ∉ entries) :
    ∀ (journal : Journal V), (∀ key found, .read key found ∈ entries →
      found.value? = ((Journal.replay base journal).read key version.index).value?) →
    (program.call version).run ⟨Journal.replay base journal, false⟩ =
      (result, ⟨Journal.replay base (Journal.stamp version entries ++ journal), false⟩) := by
  induction hpath with
  | finish result => exact fun journal hread => rfl
  | @read key next found entries result hrest ih =>
      intro journal hread
      have hfound := hread key found List.mem_cons_self
      have hnext := hvalues.1 _ _ hfound
      have hrun := ih (hvalues.2 found) (fun hmem => hcancel (List.mem_cons_of_mem _ hmem))
        ((version, .read key found) :: journal)
        fun key' found' hmem => hread key' found' (List.mem_cons_of_mem _ hmem)
      rw [hnext] at hrun
      simpa [call, Call.run, World.apply, Journal.replay] using hrun
  | @write key value next entries result hrest ih =>
      intro journal hread
      have hrun := ih hvalues (fun hmem => hcancel (List.mem_cons_of_mem _ hmem))
        ((version, .write key value) :: journal) fun key' found' hmem => by
          rw [Journal.read_replay_cons]
          exact hread key' found' (List.mem_cons_of_mem _ hmem)
      simpa [call, Call.run, World.apply, Journal.replay] using hrun
  | @clear next entries result hrest ih =>
      intro journal hread
      have hrun := ih hvalues (fun hmem => hcancel (List.mem_cons_of_mem _ hmem))
        ((version, .clear) :: journal) fun key' found' hmem => by
          rw [Journal.read_replay_cons]
          exact hread key' found' (List.mem_cons_of_mem _ hmem)
      simpa [call, Call.run, World.apply, Journal.replay] using hrun
  | cancel hrest ih => exact absurd List.mem_cons_self hcancel

end Program

/-- What these entries are: calls of all requests with these responses, of which each read what
the ones in front of it leave. -/
structure Journal.Serial (base : KeyMap V) (body : Req → Nat → Program V R) (requests : List Req)
    (rs : List R) (entries : Nat → List (Entry V)) : Prop where
  length : rs.length = requests.length
  path : ∀ {slot : Nat} {request response}, requests[slot]? = some request →
    rs[slot]? = some response → (body request slot).Path (entries slot) (.returned response)
  uncancelled : ∀ {slot : Nat}, slot < requests.length → .cancel ∉ entries slot
  current : ∀ {slot : Nat} {key found}, slot < requests.length → .read key found ∈ entries slot →
    found.value? = ((replay base (serial entries slot)).read key slot).value?

namespace Scheduler

variable {base : KeyMap V} {body : Req → Nat → Program V R} {requests : List Req} {rs : List R}
  {entries : Nat → List (Journal.Entry V)} {s : Scheduler (Store V) Req R}

theorem attempt_of_returned {S : Type} {s : Scheduler S Req R} {index : Nat} {request : Req}
    {incarnation : Nat} {world world' : World S} {response : R}
    (hworld : world.cancelled = false)
    (hrun : (s.executor request ⟨index, incarnation⟩).run world = (.returned response, world'))
    (left : Nat) (log : List (Event Req R)) : ∃ log',
    s.attempt index request left incarnation world log = ⟨.ok response, world', log'⟩ := by
  rw [attempt]
  simp [hworld, hrun]

/-- The sequential run from a position on repeats what the calls from there on did. -/
theorem sequentialFrom_of_serial
    (hexecutor : s.executor = fun request version => (body request version.index).call version)
    (hvalues : ∀ request index, (body request index).OnlyValues)
    (h : Journal.Serial base body requests rs entries) (rest : List Req) :
    ∀ (index : Nat) (log : List (Event Req R)), requests.drop index = rest → ∃ log',
      s.sequentialFrom index ⟨Journal.replay base (Journal.serial entries index), false⟩ log rest =
        ⟨.ok (rs.drop index),
          ⟨Journal.replay base (Journal.serial entries (index + rest.length)), false⟩, log'⟩ := by
  induction rest with
  | nil =>
      intro index log hrest
      have hdone : rs.drop index = [] := by
        rw [List.drop_eq_nil_iff, h.length]
        exact List.drop_eq_nil_iff.mp hrest
      exact ⟨log, by rw [hdone]; rfl⟩
  | cons request rest ih =>
      intro index log hrest
      have hlt : index < requests.length := by
        refine Nat.lt_of_not_le fun hle => ?_
        rw [List.drop_eq_nil_of_le hle] at hrest
        cases hrest
      rw [List.drop_eq_getElem_cons hlt] at hrest
      obtain ⟨hrequest, hrest⟩ := List.cons.inj hrest
      have hlt' : index < rs.length := h.length ▸ hlt
      have hrun : (s.executor request ⟨index, 0⟩).run
          ⟨Journal.replay base (Journal.serial entries index), false⟩ =
            (.returned rs[index],
              ⟨Journal.replay base (Journal.serial entries (index + 1)), false⟩) := by
        rw [hexecutor]
        exact Program.call_run base ⟨index, 0⟩
          (h.path (List.getElem?_eq_some_iff.mpr ⟨hlt, hrequest⟩) (List.getElem?_eq_getElem hlt'))
          (hvalues request index) (h.uncancelled hlt) _ fun key found hmem => h.current hlt hmem
      obtain ⟨log₁, hattempt⟩ := attempt_of_returned rfl hrun counterMax log
      obtain ⟨log₂, hothers⟩ := ih (index + 1) log₁ hrest
      refine ⟨log₂, ?_⟩
      rw [sequentialFrom, hattempt]
      simp only
      rw [hothers, List.drop_eq_getElem_cons hlt', List.length_cons,
        Nat.add_right_comm, Nat.add_assoc]
      rfl

theorem sequential_of_serial
    (hexecutor : s.executor = fun request version => (body request version.index).call version)
    (hvalues : ∀ request index, (body request index).OnlyValues)
    (hvalid : s.config.validate = .ok ()) (h : Journal.Serial base body requests rs entries) :
    (s.sequential ⟨.ofBase base, false⟩ requests).result = .ok rs ∧
      (s.sequential ⟨.ofBase base, false⟩ requests).world.state =
        Journal.replay base (Journal.serial entries requests.length) := by
  obtain ⟨log, hrun⟩ := sequentialFrom_of_serial hexecutor hvalues h requests 0 [] rfl
  rw [Nat.zero_add] at hrun
  have hsequential : s.sequential ⟨.ofBase base, false⟩ requests =
      s.sequentialFrom 0 ⟨.ofBase base, false⟩ [] requests := by
    rw [sequential, hvalid]
  have hstart : Journal.replay base (Journal.serial entries 0) = Store.ofBase base := rfl
  rw [hsequential, ← hstart, hrun]
  exact ⟨rfl, rfl⟩

end Scheduler

end TxBatch
