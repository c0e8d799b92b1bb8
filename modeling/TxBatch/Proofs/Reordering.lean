import TxBatch.Access
import TxBatch.Call
import TxBatch.Ledger
import TxBatch.Proofs.Convergence
import TxBatch.Proofs.Isolation

/-!
# Two calls in either order

A call that touches the store only at its own version, and answers with the keys that it touched
(`Call.Notes`), may read a key because of what it read before; so the keys that it reads over one
store say nothing of those over another. But over one store the call takes one course, and it takes
the same course over every store that the reads of this course cannot tell apart
(`Call.Notes.exists_course`).

Of two calls the lower one never sees the upper one, and takes its course in either order. The upper
one takes its own as long as the lower one writes nothing that it reads on it, and that is what the
access sets of either order tell. The updates of two positions change places (`Store.after_comm`),
and so do the calls (`calls_change_places`).
-/

namespace TxBatch

variable {V R R' : Type}

/-! ## Updates of different positions -/

theorem History.insert_insert (h : History V) {index index' : Nat} (cell cell' : Cell V)
    (hne : index ≠ index') :
    (h.insert index cell).insert index' cell' = (h.insert index' cell').insert index cell := by
  refine Std.ExtTreeMap.ext_getElem? fun other => ?_
  simp only [Std.ExtTreeMap.getElem?_insert, Nat.compare_eq_eq]
  split
  · rename_i heq
    rw [if_neg (heq ▸ hne)]
  · rfl

namespace Store

theorem isStale_write_of_ne (s : Store V) (key other : Key) {version version' : Version} (value : V)
    (hne : version.index ≠ version'.index) :
    (s.write key version value).isStale other version' = s.isStale other version' := by
  have hcell := cell?_write_of_ne s key value other hne
  rw [cell?, cell?] at hcell
  rw [isStale, isStale, hcell]

theorem getElem?_written_write (s : Store V) (key : Key) (version : Version) (value : V)
    (other : Key) :
    (s.write key version value).written[other]? =
      if key = other ∧ s.isStale key version = false then
        some ((s.history other).insert version.index ⟨version.incarnation, value⟩)
      else s.written[other]? := by
  rw [write, write?]
  by_cases hkey : key = other
  · subst hkey
    cases s.isStale key version <;> simp
  · cases s.isStale key version <;> simp [Std.ExtTreeMap.getElem?_insert, hkey]

theorem history_write (s : Store V) (key : Key) (version : Version) (value : V) (other : Key) :
    (s.write key version value).history other =
      if key = other ∧ s.isStale key version = false then
        (s.history other).insert version.index ⟨version.incarnation, value⟩
      else s.history other := by
  rw [history, Std.ExtTreeMap.getD_eq_getD_getElem?, getElem?_written_write]
  split
  · rfl
  · exact Std.ExtTreeMap.getD_eq_getD_getElem?.symm

theorem ext_written {s s' : Store V} (hbase : s.base = s'.base)
    (h : ∀ key : Key, s.written[key]? = s'.written[key]?) : s = s' := by
  obtain ⟨base, written⟩ := s
  obtain ⟨base', written'⟩ := s'
  obtain rfl : base = base' := hbase
  obtain rfl : written = written' := Std.ExtTreeMap.ext_getElem? h
  rfl

theorem write_write (s : Store V) (key key' : Key) {version version' : Version} (value value' : V)
    (hne : version.index ≠ version'.index) :
    (s.write key version value).write key' version' value' =
      (s.write key' version' value').write key version value := by
  refine ext_written (by simp only [base_write]) fun other => ?_
  simp only [getElem?_written_write, history_write, isStale_write_of_ne s _ _ _ hne,
    isStale_write_of_ne s _ _ _ hne.symm]
  by_cases h : key = other ∧ s.isStale key version = false
  · by_cases h' : key' = other ∧ s.isStale key' version' = false
    · simp only [if_pos h, if_pos h']
      exact congrArg some (History.insert_insert _ _ _ hne)
    · simp only [if_pos h, if_neg h']
  · simp only [if_neg h]

theorem update_update (s : Store V) {u u' : Update V} (hne : u.position ≠ u'.position) :
    (s.update u).update u' = (s.update u').update u := by
  cases u with
  | clear index => exact s.clear_update hne.symm
  | write key version value =>
      cases u' with
      | clear index => exact (s.clear_update hne).symm
      | write key' version' value' => exact s.write_write key key' value value' hne

theorem after_update (s : Store V) {updates : List (Update V)} {u : Update V}
    (hne : ∀ u' ∈ updates, u.position ≠ u'.position) :
    (s.update u).after updates = (s.after updates).update u := by
  induction updates generalizing s with
  | nil => rfl
  | cons u' rest ih =>
      have hrest := ih (s.update u') fun other hmem => hne other (List.mem_cons_of_mem _ hmem)
      rw [after, List.foldl_cons, s.update_update (hne u' List.mem_cons_self)]
      exact hrest

theorem after_comm (s : Store V) {updates updates' : List (Update V)}
    (hne : ∀ u ∈ updates, ∀ u' ∈ updates', u.position ≠ u'.position) :
    (s.after updates).after updates' = (s.after updates').after updates := by
  induction updates generalizing s with
  | nil => rfl
  | cons u rest ih =>
      have hrest := ih (s.update u) fun other hmem => hne other (List.mem_cons_of_mem _ hmem)
      calc ((s.update u).after rest).after updates'
          = ((s.update u).after updates').after rest := hrest
        _ = ((s.after updates').update u).after rest := by
            rw [s.after_update (hne u List.mem_cons_self)]

end Store

/-! ## The course of a call -/

namespace Call

/-- Read a key as the position of the version. -/
def reading (version : Version) (key : Key) (next : Reading V → Call (Store V) R) :
    Call (Store V) R :=
  .step (fun w => ⟨w.state, false⟩) fun w => next (w.state.read key version.index)

/-- Write a key as the version, and learn whether the write was taken. -/
def writing (version : Version) (key : Key) (value : V) (next : Bool → Call (Store V) R) :
    Call (Store V) R :=
  .step (fun w => ⟨w.state.write key version value, false⟩)
    fun w => next (w.state.write? key version value).isSome

/-- The call touches the store by reads and writes of its own version alone and, when it has noted
`noted` so far, returns with exactly the keys that it touched by then. -/
inductive Notes [Tracked R] (version : Version) : Access → Call (Store V) R → Prop
  | returned (response : R) : Notes version (Tracked.access response) (.finish (.returned response))
  | unanswered {noted : Access} {result : CallEnd R} (h : ∀ response, result ≠ .returned response) :
      Notes version noted (.finish result)
  | reading {noted : Access} {key : Key} {next : Reading V → Call (Store V) R}
      (h : ∀ found, Notes version (noted.read key) (next found)) :
      Notes version noted (.reading version key next)
  | writing {noted : Access} {key : Key} {value : V} {next : Bool → Call (Store V) R}
      (h : ∀ taken, Notes version (noted.write key) (next taken)) :
      Notes version noted (.writing version key value next)
  | cancel {noted : Access} {next : Call (Store V) R} (h : Notes version noted next) :
      Notes version noted (.step (fun w => ⟨w.state, true⟩) fun _ => next)

structure Course (V R : Type) where
  reads : List Key
  writes : List (Key × V)
  cancels : Bool
  result : CallEnd R

namespace Course

def updates (c : Course V R) (version : Version) : List (Store.Update V) :=
  c.writes.map fun (key, value) => .write key version value

def leave (c : Course V R) (version : Version) (w : World (Store V)) : World (Store V) :=
  ⟨w.state.after (c.updates version), w.cancelled || c.cancels⟩

/-- If the course returned, it answered with `noted` and the keys that it touched. -/
def Answers [Tracked R] (noted : Access) (c : Course V R) : Prop :=
  ∀ response, c.result = .returned response → ∀ key,
    (key ∈ (Tracked.access response).reads ↔ key ∈ noted.reads ∨ key ∈ c.reads) ∧
    (key ∈ (Tracked.access response).writes ↔ key ∈ noted.writes ∨ key ∈ c.writes.map Prod.fst)

theorem position_of_mem_updates {c : Course V R} {version : Version} {u : Store.Update V}
    (hmem : u ∈ c.updates version) : u.position = version.index := by
  obtain ⟨write, -, rfl⟩ := List.mem_map.mp hmem
  rfl

end Course

/-- Two stores that a call at the version cannot tell apart by reading `keys`, or by writing. -/
structure Alike (version : Version) (keys : List Key) (s s' : Store V) : Prop where
  reads : ∀ key ∈ keys, s.read key version.index = s'.read key version.index
  own : ∀ key, s.cell? key version.index = s'.cell? key version.index

theorem Alike.refl (version : Version) (keys : List Key) (s : Store V) :
    Alike version keys s s :=
  ⟨fun _ _ => rfl, fun _ => rfl⟩

theorem Alike.symm {version : Version} {keys : List Key} {s s' : Store V}
    (h : Alike version keys s s') : Alike version keys s' s :=
  ⟨fun key hmem => (h.reads key hmem).symm, fun key => (h.own key).symm⟩

theorem Alike.write {version : Version} {keys : List Key} {s s' : Store V}
    (h : Alike version keys s s') (key : Key) (value : V) :
    Alike version keys (s.write key version value) (s'.write key version value) where
  reads other hmem := by
    have hkeep (s : Store V) : (s.write key version value).read other version.index =
        s.read other version.index :=
      (Store.agreeBelow_update s (u := .write key version value) (Nat.le_refl _)).read
        (Nat.le_refl _) other
    rw [hkeep, hkeep, h.reads other hmem]
  own other := Store.cell?_update_congr (.write key version value) (h.own other)

theorem Alike.taken {version : Version} {keys : List Key} {s s' : Store V}
    (h : Alike version keys s s') (key : Key) (value : V) :
    (s.write? key version value).isSome = (s'.write? key version value).isSome := by
  have hnone : s.write? key version value = none ↔ s'.write? key version value = none := by
    rw [Store.write?_eq_none, Store.write?_eq_none, h.own]
  rw [Bool.eq_iff_iff, Option.isSome_iff_ne_none, Option.isSome_iff_ne_none, Ne, Ne, hnone]

theorem Notes.exists_course [Tracked R] {version : Version} {noted : Access}
    {call : Call (Store V) R} (h : Notes version noted call) (s : Store V) :
    ∃ c : Course V R,
      (∀ w : World (Store V), Alike version c.reads s w.state →
        call.run w = (c.result, c.leave version w)) ∧
      c.Answers noted := by
  induction h generalizing s with
  | returned response =>
      refine ⟨⟨[], [], false, .returned response⟩, fun w _ => ?_, fun response' h key => ?_⟩
      · simp [run, Course.leave, Course.updates, Store.after]
      · cases h
        simp
  | @unanswered noted result h =>
      refine ⟨⟨[], [], false, result⟩, fun w _ => ?_, fun response h' => absurd h' (h response)⟩
      simp [run, Course.leave, Course.updates, Store.after]
  | @reading noted key next h ih =>
      obtain ⟨c, hrun, hkeys⟩ := ih (s.read key version.index) s
      refine ⟨{ c with reads := key :: c.reads }, fun w hlike => ?_, fun response h other => ?_⟩
      · have hread := hlike.reads key List.mem_cons_self
        have hrest : Alike version c.reads s w.state :=
          ⟨fun other hmem => hlike.reads other (List.mem_cons_of_mem _ hmem), hlike.own⟩
        rw [Call.reading, run, ← hread]
        simpa [World.apply, Course.leave, Course.updates] using hrun w hrest
      · obtain ⟨hreads, hwrites⟩ := hkeys response h other
        refine ⟨hreads.trans ?_, hwrites⟩
        simp only [Access.read, Std.ExtTreeSet.mem_insert, Std.LawfulEqOrd.compare_eq_iff_eq,
          List.mem_cons]
        grind
  | @writing noted key value next h ih =>
      obtain ⟨c, hrun, hkeys⟩ :=
        ih (s.write? key version value).isSome (s.write key version value)
      refine ⟨{ c with writes := (key, value) :: c.writes }, fun w hlike => ?_,
        fun response h other => ?_⟩
      · have hnext := hrun ⟨w.state.write key version value, w.cancelled⟩ (hlike.write key value)
        rw [Call.writing, run, ← hlike.taken key value]
        simpa [World.apply, Course.leave, Course.updates, Store.after, Store.update] using hnext
      · obtain ⟨hreads, hwrites⟩ := hkeys response h other
        refine ⟨hreads, hwrites.trans ?_⟩
        simp only [Access.write, Std.ExtTreeSet.mem_insert, Std.LawfulEqOrd.compare_eq_iff_eq,
          List.map_cons, List.mem_cons]
        grind
  | @cancel noted next h ih =>
      obtain ⟨c, hrun, hkeys⟩ := ih s
      refine ⟨{ c with cancels := true }, fun w hlike => ?_, hkeys⟩
      have hnext := hrun ⟨w.state, true⟩ hlike
      rw [run]
      simpa [World.apply, Course.leave, Course.updates] using hnext

/-! ## Who disturbs whom -/

/-- What is done behind its position does not disturb a call. -/
theorem alike_after_of_lt {version : Version} {updates : List (Store.Update V)}
    (hbehind : ∀ u ∈ updates, version.index < u.position) (keys : List Key) (s : Store V) :
    Alike version keys s (s.after updates) := by
  have hnone : Store.below (version.index + 1) updates = [] :=
    List.filter_eq_nil_iff.mpr fun u hmem => by simpa using Nat.succ_le_of_lt (hbehind u hmem)
  have hagree := Store.agreeBelow_after_below (version.index + 1) s updates
  rw [hnone] at hagree
  exact ⟨fun key _ => (hagree.read (Nat.le_succ _) key).symm,
    fun key => (hagree.cells key version.index (Nat.lt_succ_self _)).symm⟩

/-- A course leaves the cells of the keys that it does not write, and of other positions. -/
theorem Course.cell?_after_updates {c : Course V R} {version : Version} {key : Key} {index : Nat}
    (h : ¬(key ∈ c.writes.map Prod.fst ∧ version.index = index)) (s : Store V) :
    (s.after (c.updates version)).cell? key index = s.cell? key index := by
  obtain ⟨reads, writes, cancels, result⟩ := c
  dsimp only [updates] at h ⊢
  induction writes generalizing s with
  | nil => rfl
  | cons head rest ih =>
      obtain ⟨other, value⟩ := head
      have hhead : ¬(other = key ∧ version.index = index) := fun ⟨hkey, hindex⟩ =>
        h ⟨by simp [hkey], hindex⟩
      have hrest := ih (s.write other version value)
        fun ⟨hmem, hindex⟩ => h ⟨List.mem_cons_of_mem _ hmem, hindex⟩
      exact hrest.trans ((s.cell?_write_over other version value key index).trans (if_neg hhead))

/-- A course of another position disturbs only those who read what it writes. -/
theorem Course.alike_after {c : Course V R} {version version' : Version}
    (hne : version.index ≠ version'.index) {keys : List Key}
    (hkeys : ∀ key ∈ keys, key ∉ c.writes.map Prod.fst) (s : Store V) :
    Alike version' keys s (s.after (c.updates version)) where
  reads key hmem := Store.read_congr (Store.base_after s _).symm fun _ _ =>
    (cell?_after_updates (fun h => hkeys key hmem h.1) s).symm
  own _ := (cell?_after_updates (fun h => hne h.2) s).symm

/-- What access sets without a dependency say of the courses behind them. -/
theorem Course.Answers.unread [Tracked R] [Tracked R'] {c : Course V R} {d : Course V R'}
    (hc : c.Answers {}) (hd : d.Answers {}) {response : R} {response' : R'}
    (hcresult : c.result = .returned response) (hdresult : d.result = .returned response')
    (hfree : (Tracked.access response').readsFrom (Tracked.access response) = false) :
    ∀ key ∈ d.reads, key ∉ c.writes.map Prod.fst := by
  intro key hread hwritten
  have hread' := (hd response' hdresult key).1.mpr (.inr hread)
  have hwritten' := (hc response hcresult key).2.mpr (.inr hwritten)
  rw [Access.readsFrom_iff.mpr ⟨key, hread', hwritten'⟩] at hfree
  cases hfree

theorem Course.leave_leave (c : Course V R) (d : Course V R') {version version' : Version}
    (hne : version.index ≠ version'.index) (w : World (Store V)) :
    c.leave version (d.leave version' w) = d.leave version' (c.leave version w) := by
  have hposition : ∀ u ∈ c.updates version, ∀ u' ∈ d.updates version', u.position ≠ u'.position := by
    intro u hmem u' hmem'
    rw [position_of_mem_updates hmem, position_of_mem_updates hmem']
    exact hne
  simp only [leave, w.state.after_comm hposition, Bool.or_right_comm]

/-! ## Both orders -/

structure Both (V R R' : Type) where
  lower : CallEnd R
  upper : CallEnd R'
  world : World (Store V)

/-- Both returned, and the upper one read nothing that the lower one wrote. -/
def Both.Independent [Tracked R] [Tracked R'] (b : Both V R R') : Prop :=
  ∃ response response', b.lower = .returned response ∧ b.upper = .returned response' ∧
    (Tracked.access response').readsFrom (Tracked.access response) = false

def lowerFirst (lower : Call (Store V) R) (upper : Call (Store V) R') (w : World (Store V)) :
    Both V R R' :=
  ⟨(lower.run w).1, (upper.run (lower.run w).2).1, (upper.run (lower.run w).2).2⟩

def upperFirst (lower : Call (Store V) R) (upper : Call (Store V) R') (w : World (Store V)) :
    Both V R R' :=
  ⟨(lower.run (upper.run w).2).1, (upper.run w).1, (lower.run (upper.run w).2).2⟩

/-- **Two calls in either order.** Let two calls at different positions touch the store at their
own versions alone and answer with exactly the keys that they touched. From every world the lower
one ends the same in either order. And if both return in one of the orders, and there the upper
one read no key that the lower one wrote, then the other order gives the same two responses, access
sets included, and leaves the same world. -/
theorem calls_change_places [Tracked R] [Tracked R'] {lower : Call (Store V) R}
    {upper : Call (Store V) R'} {version version' : Version} (hlt : version.index < version'.index)
    (hlower : Notes version {} lower) (hupper : Notes version' {} upper) (w : World (Store V)) :
    (lowerFirst lower upper w).lower = (upperFirst lower upper w).lower ∧
    ((lowerFirst lower upper w).Independent ∨ (upperFirst lower upper w).Independent →
      lowerFirst lower upper w = upperFirst lower upper w) := by
  have hne : version.index ≠ version'.index := Nat.ne_of_lt hlt
  obtain ⟨c, hc, hanswers⟩ := hlower.exists_course w.state
  have hlowerFirst : lower.run w = (c.result, c.leave version w) := hc w (.refl version _ _)
  have hlowerSecond (d : Course V R') : lower.run (d.leave version' w) =
      (c.result, c.leave version (d.leave version' w)) :=
    hc _ (alike_after_of_lt (fun u hmem => by rwa [Course.position_of_mem_updates hmem]) _ _)
  -- If the upper call takes one course in both orders, then the orders come to the same.
  have hsame (d : Course V R') (hfirst : upper.run w = (d.result, d.leave version' w))
      (hsecond : upper.run (c.leave version w) =
        (d.result, d.leave version' (c.leave version w))) :
      lowerFirst lower upper w = upperFirst lower upper w := by
    simp only [lowerFirst, upperFirst, hlowerFirst, hfirst, hsecond, hlowerSecond,
      c.leave_leave d hne]
  obtain ⟨d, hd, hdanswers⟩ := hupper.exists_course w.state
  have hupperFirst : upper.run w = (d.result, d.leave version' w) := hd w (.refl version' _ _)
  refine ⟨by simp only [lowerFirst, upperFirst, hlowerFirst, hupperFirst, hlowerSecond], ?_⟩
  rintro (⟨response, response', hresult, hresult', hfree⟩ |
    ⟨response, response', hresult, hresult', hfree⟩)
  · obtain ⟨e, he, heanswers⟩ := hupper.exists_course (c.leave version w).state
    have hupperSecond := he (c.leave version w) (.refl version' _ _)
    simp only [lowerFirst, hlowerFirst, hupperSecond] at hresult hresult'
    have hunread := hanswers.unread heanswers hresult hresult' hfree
    exact hsame e (he w (Course.alike_after hne hunread w.state).symm) hupperSecond
  · simp only [upperFirst, hupperFirst, hlowerSecond] at hresult hresult'
    have hunread := hanswers.unread hdanswers hresult hresult' hfree
    exact hsame d hupperFirst (hd _ (Course.alike_after hne hunread w.state))

/-- Position 0 reads `a` and writes it, too late for an attempt before. Position 1 writes `a` without
reading it, and learns of `b` what nobody wrote; so nothing it saw can change. -/
theorem blind_write_changes_places :
    let a : Key := ⟨[97]⟩
    let b : Key := ⟨[98]⟩
    let early : Version := ⟨0, 0⟩
    let late : Version := ⟨1, 0⟩
    let lower : Call (Store Nat) Access := .reading early a fun _ => .writing early a 5 fun _ =>
      .finish (.returned ((({} : Access).read a).write a))
    let upper : Call (Store Nat) Access := .writing late a 7 fun _ => .reading late b fun _ =>
      .finish (.returned ((({} : Access).write a).read b))
    let w : World (Store Nat) := ⟨(Store.ofBase (.ofList [(a, 100)])).write a ⟨0, 3⟩ 9, false⟩
    early.index < late.index ∧ lower.Notes early {} ∧ upper.Notes late {} ∧
      (upperFirst lower upper w).Independent ∧
      lowerFirst lower upper w = upperFirst lower upper w := by
  intro a b early late lower upper w
  have hlower : lower.Notes early {} := .reading fun _ => .writing fun _ => .returned _
  have hupper : upper.Notes late {} := .writing fun _ => .reading fun _ => .returned _
  have hfree : (upperFirst lower upper w).Independent := ⟨_, _, rfl, rfl, by decide +kernel⟩
  exact ⟨by decide, hlower, hupper, hfree,
    (calls_change_places (by decide) hlower hupper w).2 (.inr hfree)⟩

/-- An upper call that copies what the lower one writes cannot go first. -/
example :
    let a : Key := ⟨[97]⟩
    let lower : Call (Store Nat) Access := .writing ⟨0, 0⟩ a 5 fun _ =>
      .finish (.returned (({} : Access).write a))
    let upper : Call (Store Nat) Access := .reading ⟨1, 0⟩ a fun found =>
      .writing ⟨1, 0⟩ a (found.value?.getD 0) fun _ =>
        .finish (.returned ((({} : Access).read a).write a))
    let w : World (Store Nat) := ⟨Store.ofBase ∅, false⟩
    ((lowerFirst lower upper w).world.state.read a 2).value? = some 5 ∧
      ((upperFirst lower upper w).world.state.read a 2).value? = some 0 := by
  decide +kernel

end Call

namespace Program

theorem call_read (version : Version) (key : Key) (next : Reading V → Program V R) :
    (read key next).call version = .reading version key fun found => (next found).call version :=
  rfl

theorem call_write (version : Version) (key : Key) (value : V) (next : Program V R) :
    (write key value next).call version = .writing version key value fun _ => next.call version :=
  rfl

end Program

theorem Ledger.executor_notes (accounts : UInt32) (overflow : String) (t : Transfer)
    (version : Version) : Call.Notes version {} (executor accounts overflow t version) := by
  rw [executor, transfer]
  split
  · rw [Program.call_read]
    refine .reading fun source => ?_
    rw [Program.call_read]
    refine .reading fun target => ?_
    cases settle? t (balance source) (balance target) with
    | none => exact .unanswered fun response h => nomatch h
    | some settled =>
        dsimp only
        rw [Program.call_write, Program.call_write]
        exact .writing fun _ => .writing fun _ =>
          .returned (⟨settled.success, settled.source, access t⟩ : Receipt)
  · exact .unanswered fun response h => nomatch h

end TxBatch
