import TxBatch.Proofs.Incarnations
import TxBatch.Proofs.Phase.Calm
import TxBatch.Sequential

/-!
# What the attempts at a request come to

Let the end of a call depend on its request and its version only. Then what a request comes to is
settled beforehand: it is answered at its first attempt that does not abort (`Answered`), or it is
doomed, because that attempt fails or the ceiling is in front of it. The sequential run finds out
which, request by request (`sequential_decided`).
-/

namespace TxBatch

variable {S Req R : Type}

theorem Config.exceeded?_eq_none_of_le {config : Config} {m n : Nat} (hle : m ≤ n)
    (h : config.exceeded? n = none) : config.exceeded? m = none :=
  exceeded?_eq_none.mpr fun limit hlimit =>
    Nat.le_trans hle (exceeded?_eq_none.mp h limit hlimit)

/-! ## One request -/

/-- The first `count` attempts at a request abort. -/
def AbortsBelow (f : Req → Version → CallEnd R) (index : Nat) (request : Req) (count : Nat) :
    Prop :=
  ∀ incarnation < count, ∃ signal, f request ⟨index, incarnation⟩ = .aborted signal

structure FirstStop (f : Req → Version → CallEnd R) (index : Nat) (request : Req) (stop : Nat) :
    Prop where
  below : AbortsBelow f index request stop
  stops : ∀ signal, f request ⟨index, stop⟩ ≠ .aborted signal

/-- The request is answered at an attempt that the ceiling allows. -/
structure Answered (config : Config) (f : Req → Version → CallEnd R) (index : Nat) (request : Req)
    (stop : Nat) (response : R) : Prop where
  below : AbortsBelow f index request stop
  returned : f request ⟨index, stop⟩ = .returned response
  room : config.exceeded? stop = none

/-- No attempt answers the request. -/
def Doomed (config : Config) (f : Req → Version → CallEnd R) (index : Nat) (request : Req) : Prop :=
  ∀ stop response, ¬Answered config f index request stop response

/-- The attempts end in front of the last one that can be counted: at the ceiling, or because one
does not abort. -/
def Bounded (config : Config) (f : Req → Version → CallEnd R) (index : Nat) (request : Req) :
    Prop :=
  ∃ stop < counterMax, config.exceeded? (stop + 1) ≠ none ∨
    ∀ signal, f request ⟨index, stop⟩ ≠ .aborted signal

section Request

variable {config : Config} {f : Req → Version → CallEnd R} {index : Nat} {request : Req}
  {count : Nat}

theorem AbortsBelow.zero : AbortsBelow f index request 0 :=
  fun _ hlt => absurd hlt (Nat.not_lt_zero _)

theorem AbortsBelow.succ (h : AbortsBelow f index request count) {signal : AbortSignal}
    (haborts : f request ⟨index, count⟩ = .aborted signal) :
    AbortsBelow f index request (count + 1) := by
  intro incarnation hlt
  rcases Nat.lt_or_eq_of_le (Nat.le_of_lt_succ hlt) with hlt | rfl
  · exact h incarnation hlt
  · exact ⟨signal, haborts⟩

theorem FirstStop.le_of_abortsBelow {stop : Nat} (h : FirstStop f index request stop)
    (hbelow : AbortsBelow f index request count) : count ≤ stop := by
  by_contra hlt
  obtain ⟨signal, haborts⟩ := hbelow stop (Nat.lt_of_not_le hlt)
  exact h.stops signal haborts

theorem Answered.firstStop {stop : Nat} {response : R}
    (h : Answered config f index request stop response) : FirstStop f index request stop :=
  ⟨h.below, fun signal haborts => by cases h.returned.symm.trans haborts⟩

theorem FirstStop.unique {stop stop' : Nat} (h : FirstStop f index request stop)
    (h' : FirstStop f index request stop') : stop = stop' :=
  Nat.le_antisymm (h'.le_of_abortsBelow h.below) (h.le_of_abortsBelow h'.below)

theorem Answered.response_unique {stop stop' : Nat} {response response' : R}
    (h : Answered config f index request stop response)
    (h' : Answered config f index request stop' response') : response = response' := by
  obtain rfl := h.firstStop.unique h'.firstStop
  exact CallEnd.returned.inj (h.returned.symm.trans h'.returned)

theorem doomed_of_failed (hbelow : AbortsBelow f index request count) {reason : String}
    (hfailed : f request ⟨index, count⟩ = .failed reason) : Doomed config f index request := by
  intro stop response h
  have hfirst : FirstStop f index request count :=
    ⟨hbelow, fun signal haborts => by cases hfailed.symm.trans haborts⟩
  obtain rfl := hfirst.unique h.firstStop
  cases hfailed.symm.trans h.returned

theorem doomed_of_exceeded (hbelow : AbortsBelow f index request count) {limit : Nat}
    (hexceeded : config.exceeded? count = some limit) : Doomed config f index request := by
  intro stop response h
  have hroom := Config.exceeded?_eq_none_of_le (h.firstStop.le_of_abortsBelow hbelow) h.room
  cases hroom.symm.trans hexceeded

/-- No attempt that is made is the last one that can be counted and aborts. -/
theorem Bounded.lt (h : Bounded config f index request)
    (hbelow : AbortsBelow f index request count) (hroom : config.exceeded? count = none) :
    count < counterMax := by
  obtain ⟨stop, hlt, hstop⟩ := h
  refine Nat.lt_of_le_of_lt (Nat.le_of_not_lt fun hcount => ?_) hlt
  rcases hstop with hexceeded | hstops
  · exact hexceeded (Config.exceeded?_eq_none_of_le hcount hroom)
  · obtain ⟨signal, haborts⟩ := hbelow stop hcount
    exact hstops signal haborts

end Request

/-! ## A batch of requests -/

/-- Each request, from position `index` on, is answered with the response in its place. -/
structure AllAnswered (config : Config) (f : Req → Version → CallEnd R) (index : Nat)
    (requests : List Req) (rs : List R) : Prop where
  length : rs.length = requests.length
  answered : ∀ {slot : Nat} {request}, requests[slot]? = some request → ∃ stop response,
    Answered config f (index + slot) request stop response ∧ rs[slot]? = some response

def SomeDoomed (config : Config) (f : Req → Version → CallEnd R) (index : Nat)
    (requests : List Req) : Prop :=
  ∃ (slot : Nat) (request : Req), requests[slot]? = some request ∧
    Doomed config f (index + slot) request

/-- A result of a batch that is what its requests come to. -/
inductive Decided (config : Config) (f : Req → Version → CallEnd R) (index : Nat)
    (requests : List Req) : Except Halt (List R) → Prop
  | answered {rs : List R} (h : AllAnswered config f index requests rs) :
      Decided config f index requests (.ok rs)
  | doomed {error : BatchError} (h : SomeDoomed config f index requests) :
      Decided config f index requests (.error (.failed error))

section Batch

variable {config : Config} {f : Req → Version → CallEnd R} {index : Nat} {requests : List Req}

theorem AllAnswered.not_doomed {rs : List R} (h : AllAnswered config f index requests rs) :
    ¬SomeDoomed config f index requests := by
  rintro ⟨slot, request, hrequest, hdoomed⟩
  obtain ⟨stop, response, hanswered, -⟩ := h.answered hrequest
  exact hdoomed stop response hanswered

theorem AllAnswered.unique {rs rs' : List R} (h : AllAnswered config f index requests rs)
    (h' : AllAnswered config f index requests rs') : rs = rs' := by
  refine List.ext_getElem? fun slot => ?_
  cases hrequest : requests[slot]? with
  | none =>
      have hle := List.getElem?_eq_none_iff.mp hrequest
      rw [List.getElem?_eq_none (h.length ▸ hle), List.getElem?_eq_none (h'.length ▸ hle)]
  | some request =>
      obtain ⟨_, response, hanswered, hslot⟩ := h.answered hrequest
      obtain ⟨_, response', hanswered', hslot'⟩ := h'.answered hrequest
      rw [hslot, hslot', hanswered.response_unique hanswered']

theorem Decided.agree {result result' : Except Halt (List R)}
    (h : Decided config f index requests result) (h' : Decided config f index requests result') :
    (∀ rs, result = .ok rs ↔ result' = .ok rs) ∧
      ((∃ error, result = .error (.failed error)) ↔ ∃ error, result' = .error (.failed error)) := by
  cases h with
  | answered h =>
      cases h' with
      | answered h' =>
          obtain rfl := h.unique h'
          exact ⟨fun _ => Iff.rfl, Iff.rfl⟩
      | doomed h' => exact absurd h' h.not_doomed
  | doomed h =>
      cases h' with
      | answered h' => exact absurd h h'.not_doomed
      | doomed h' =>
          refine ⟨fun rs => ?_, ⟨fun _ => ⟨_, rfl⟩, fun _ => ⟨_, rfl⟩⟩⟩
          exact ⟨fun hok => (by cases hok), fun hok => (by cases hok)⟩

theorem Decided.cons {request : Req} {stop : Nat} {response : R}
    (hfirst : Answered config f index request stop response) {result : Except Halt (List R)}
    (h : Decided config f (index + 1) requests result) :
    Decided config f index (request :: requests) (result.map (response :: ·)) := by
  have hshift : ∀ slot, index + (slot + 1) = index + 1 + slot := fun slot => by omega
  cases h with
  | answered h =>
      refine .answered ⟨congrArg (· + 1) h.length, fun {slot request'} hrequest => ?_⟩
      cases slot with
      | zero =>
          cases hrequest
          exact ⟨stop, response, hfirst, rfl⟩
      | succ slot =>
          rw [hshift]
          exact h.answered hrequest
  | doomed h =>
      obtain ⟨slot, request', hrequest, hdoomed⟩ := h
      exact .doomed ⟨slot + 1, request', hrequest, (hshift slot).symm ▸ hdoomed⟩

end Batch

/-! ## The sequential run -/

namespace Scheduler

variable {s : Scheduler S Req R} {f : Req → Version → CallEnd R}
  (hgives : ∀ request version, (s.executor request version).Gives (f request version))
  (hcrashed : ∀ request version report, f request version ≠ .crashed report)

include hgives hcrashed

/-- Trying a request until it does not abort finds its answer, unless it is doomed. -/
theorem attempt_decided {index : Nat} {request : Req}
    (hbounded : Bounded s.config f index request) (left : Nat) :
    ∀ {incarnation : Nat} {world : World S} (log : List (Event Req R)),
      incarnation + left = counterMax → world.cancelled = false →
      AbortsBelow f index request incarnation → s.config.exceeded? incarnation = none →
      (s.attempt index request left incarnation world log).world.cancelled = false ∧
      ((∃ stop response, Answered s.config f index request stop response ∧
          (s.attempt index request left incarnation world log).result = .ok response) ∨
        Doomed s.config f index request ∧ ∃ error,
          (s.attempt index request left incarnation world log).result =
            .error (.failed error)) := by
  induction left with
  | zero =>
      intro incarnation world _ hcount _ hbelow hroom
      exact absurd (hbounded.lt hbelow hroom) (by omega)
  | succ left ih =>
      intro incarnation world log hcount hworld hbelow hroom
      obtain ⟨hresult, hcalm⟩ := (hgives request ⟨index, incarnation⟩).run hworld
      unfold attempt
      simp only [hworld, Bool.false_eq_true, if_false]
      rw [hresult]
      split
      · rename_i response hreturned
        exact ⟨hcalm, .inl ⟨incarnation, response, ⟨hbelow, hreturned, hroom⟩, rfl⟩⟩
      · rename_i reason hfailed
        exact ⟨hcalm, .inr ⟨doomed_of_failed hbelow hfailed, _, rfl⟩⟩
      · rename_i hcrash
        exact absurd hcrash (hcrashed _ _ _)
      · rename_i signal haborted
        have hmore := hbelow.succ haborted
        split
        · rename_i limit hexceeded
          exact ⟨hcalm, .inr ⟨doomed_of_exceeded hmore hexceeded, _, rfl⟩⟩
        · rename_i hroom'
          exact ih _ (by omega) hcalm hmore hroom'

theorem sequentialFrom_decided {requests : List Req} :
    ∀ {index : Nat} {world : World S} {log : List (Event Req R)}, world.cancelled = false →
      (∀ (slot : Nat) request, requests[slot]? = some request →
        Bounded s.config f (index + slot) request) →
      Decided s.config f index requests (s.sequentialFrom index world log requests).result := by
  induction requests with
  | nil => exact fun _ _ => .answered ⟨rfl, fun hrequest => by cases hrequest⟩
  | cons request rest ih =>
      intro index world log hworld hbounded
      have hrest : ∀ (slot : Nat) request', rest[slot]? = some request' →
          Bounded s.config f (index + 1 + slot) request' := fun slot request' hslot => by
        have h := hbounded (slot + 1) request' hslot
        rwa [← Nat.add_assoc, Nat.add_right_comm] at h
      have hroom : s.config.exceeded? 0 = none :=
        Config.exceeded?_eq_none.mpr fun _ _ => Nat.zero_le _
      have hfirst : Bounded s.config f index request := hbounded 0 request rfl
      obtain ⟨hcalm, hresult⟩ := attempt_decided hgives hcrashed hfirst counterMax log
        (Nat.zero_add _) hworld .zero hroom
      unfold sequentialFrom
      rcases hresult with ⟨stop, response, hanswered, hok⟩ | ⟨hdoomed, error, herror⟩
      · simp only [hok]
        exact (ih hcalm hrest).cons hanswered
      · simp only [herror]
        exact .doomed ⟨0, request, rfl, hdoomed⟩

theorem sequential_decided (hvalid : s.config.validate = .ok ()) {world : World S}
    (hworld : world.cancelled = false) {requests : List Req}
    (hbounded : ∀ (index : Nat) request, requests[index]? = some request →
      Bounded s.config f index request) :
    Decided s.config f 0 requests (s.sequential world requests).result := by
  unfold sequential
  simp only [hvalid]
  refine sequentialFrom_decided hgives hcrashed hworld fun slot request hrequest => ?_
  rw [Nat.zero_add]
  exact hbounded slot request hrequest

end Scheduler

end TxBatch
