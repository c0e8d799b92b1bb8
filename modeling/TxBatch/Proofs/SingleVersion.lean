import TxBatch.Proofs.Serial

/-!
# The sequential run over plain state

A sequential run keeps layers of versions in its store that nothing makes use of: the requests come
one after the other, so one map of values should do. Here is the run that has no more than that
(`Memory.sequential`). An attempt reads the map as it stood when its request came up, its own writes
are set aside, and they enter the map once the attempt has returned; those of an attempt that aborts
are dropped.

Executions that first clear what earlier attempts of their position left do the same over the
versioned store (`Scheduler.sequential_refines_plain`). The simulation holds between any two attempts
(`Mirrors`): the cells in front of the position add up to the map. During an attempt, the cells at
the position are its writes so far (`Layer`).
-/

namespace TxBatch

variable {V R Req M : Type}

/-! ## One map -/

/-- State that knows one version of each key. -/
structure Memory (V M : Type) where
  /-- The memory that holds the values of a base. -/
  start : KeyMap V → M
  find : M → Key → Reading V
  /-- The memory with the writes of an attempt put in. -/
  commit : M → Version → KeyMap V → M
  values : M → KeyMap V

namespace Memory

/-- The values alone. What was written looks like a part of the base. -/
def bare : Memory V (KeyMap V) where
  start base := base
  find := Store.fallback
  commit m _ writes := m ∪ writes
  values m := m

/-- For each key, what a read of it finds; so it is known which attempt a value comes from. -/
def signed : Memory V (KeyMap (Reading V)) where
  start base := base.map fun _ value => .base value
  find m key := m.getD key .missing
  commit m version writes := m ∪ writes.map fun _ value => .versioned version value
  values m := m.filterMap fun _ found => found.value?

end Memory

/-- What an attempt came to: how it ended, its writes, and whether the batch is cancelled. -/
structure Draft (V R : Type) where
  result : CallEnd R
  writes : KeyMap V
  cancelled : Bool

/-- An attempt that finds `find` at every read. Its writes are set aside. -/
def Program.draft (find : Key → Reading V) : Program V R → KeyMap V → Bool → Draft V R
  | .finish result, writes, cancelled => ⟨result, writes, cancelled⟩
  | .read key next, writes, cancelled => (next (find key)).draft find writes cancelled
  | .write key value next, writes, cancelled => next.draft find (writes.insert key value) cancelled
  | .clear next, _, cancelled => next.draft find ∅ cancelled
  | .cancel next, writes, _ => next.draft find writes true

structure PlainEnd (M A : Type) where
  result : Except Halt A
  memory : M
  cancelled : Bool

namespace Memory

/-- Attempts at one request, from `incarnation` on, until one does not abort. All of them read `m`.
`left` counts the incarnations that the counter has still room for. -/
def attempt (memory : Memory V M) (config : Config) (body : Req → Version → Program V R)
    (index : Nat) (request : Req) (m : M) (left incarnation : Nat) (cancelled : Bool) :
    PlainEnd M R :=
  if cancelled then ⟨.error (.failed .cancelled), m, cancelled⟩
  else
    let version : Version := ⟨index, incarnation⟩
    let draft := (body request version).draft (memory.find m) ∅ cancelled
    match draft.result with
    | .returned response => ⟨.ok response, memory.commit m version draft.writes, draft.cancelled⟩
    | .failed reason =>
      ⟨.error (.failed (.executionFailed index incarnation reason)), m, draft.cancelled⟩
    | .crashed _ => ⟨.error .crashed, m, draft.cancelled⟩
    | .aborted _ =>
      match left with
      | 0 => ⟨.error .crashed, m, draft.cancelled⟩
      | left + 1 =>
        match config.exceeded? (incarnation + 1) with
        | some limit =>
          ⟨.error (.failed (.incarnationLimitExceeded index (incarnation + 1) limit)), m,
            draft.cancelled⟩
        | none => memory.attempt config body index request m left (incarnation + 1) draft.cancelled

def sequentialFrom (memory : Memory V M) (config : Config) (body : Req → Version → Program V R)
    (index : Nat) (m : M) (cancelled : Bool) : List Req → PlainEnd M (List R)
  | [] => ⟨.ok [], m, cancelled⟩
  | request :: rest =>
    let first := memory.attempt config body index request m counterMax 0 cancelled
    match first.result with
    | .error reason => ⟨.error reason, first.memory, first.cancelled⟩
    | .ok response =>
      let others :=
        memory.sequentialFrom config body (index + 1) first.memory first.cancelled rest
      { others with result := others.result.map (response :: ·) }

def sequential (memory : Memory V M) (config : Config) (body : Req → Version → Program V R)
    (base : KeyMap V) (cancelled : Bool) (requests : List Req) : PlainEnd M (List R) :=
  memory.sequentialFrom config body 0 (memory.start base) cancelled requests

end Memory

/-! ## Readings that come to the same -/

/-- What a program does next is the same for any two readings that agree. -/
def Program.Heeds (agree : Reading V → Reading V → Prop) : Program V R → Prop
  | .finish _ => True
  | .read _ next =>
    (∀ found found', agree found found' → next found = next found') ∧
      ∀ found, (next found).Heeds agree
  | .write _ _ next => next.Heeds agree
  | .clear next => next.Heeds agree
  | .cancel next => next.Heeds agree

theorem Program.heeds_eq (program : Program V R) : program.Heeds Eq := by
  induction program with
  | finish _ => trivial
  | read _ next ih => exact ⟨fun _ _ h => congrArg next h, ih⟩
  | write _ _ _ ih => exact ih
  | clear _ ih => exact ih
  | cancel _ ih => exact ih

theorem Program.OnlyValues.heeds {program : Program V R} (h : program.OnlyValues) :
    program.Heeds fun found found' => found.value? = found'.value? := by
  induction program with
  | finish _ => trivial
  | read _ _ ih => exact ⟨h.1, fun found => ih found (h.2 found)⟩
  | write _ _ _ ih => exact ih h
  | clear _ ih => exact ih h
  | cancel _ ih => exact ih h

/-- A memory whose reads agree with those of a store that went through the same commits. -/
structure Memory.Lawful (memory : Memory V M) (agree : Reading V → Reading V → Prop) : Prop where
  start (base : KeyMap V) (key : Key) :
    agree (Store.fallback base key) (memory.find (memory.start base) key)
  written (m : M) (version : Version) {writes : KeyMap V} {key : Key} {value : V}
    (h : writes[key]? = some value) :
    agree (.versioned version value) (memory.find (memory.commit m version writes) key)
  kept (m : M) (version : Version) {writes : KeyMap V} {key : Key} (h : writes[key]? = none) :
    memory.find (memory.commit m version writes) key = memory.find m key
  values {m : M} {key : Key} {found : Reading V} (h : agree found (memory.find m key)) :
    (memory.values m)[key]? = found.value?

theorem Store.value?_fallback (base : KeyMap V) (key : Key) :
    (fallback base key).value? = base[key]? := by
  rw [fallback]
  cases base[key]? <;> rfl

theorem Memory.lawful_bare :
    (bare : Memory V (KeyMap V)).Lawful fun found found' => found.value? = found'.value? where
  start _ _ := rfl
  written m _ writes key value h := by
    show some value = (Store.fallback (m ∪ writes) key).value?
    rw [Store.value?_fallback, Std.ExtTreeMap.getElem?_union, h, Option.some_or]
  kept m _ writes key h := by
    show Store.fallback (m ∪ writes) key = Store.fallback m key
    rw [Store.fallback, Std.ExtTreeMap.getElem?_union, h, Option.none_or]
    rfl
  values h := (Store.value?_fallback _ _).symm.trans h.symm

theorem Memory.lawful_signed : (signed : Memory V (KeyMap (Reading V))).Lawful Eq where
  start base key := by
    show Store.fallback base key = (base.map fun _ value => Reading.base value).getD key .missing
    rw [Store.fallback, Std.ExtTreeMap.getD_eq_getD_getElem?, Std.ExtTreeMap.getElem?_map]
    cases base[key]? <;> rfl
  written m version writes key value h := by
    show _ = (m ∪ writes.map fun _ value => Reading.versioned version value).getD key .missing
    rw [Std.ExtTreeMap.getD_eq_getD_getElem?, Std.ExtTreeMap.getElem?_union,
      Std.ExtTreeMap.getElem?_map, h]
    rfl
  kept m version writes key h := by
    show (m ∪ writes.map fun _ value => Reading.versioned version value).getD key .missing =
      m.getD key .missing
    rw [Std.ExtTreeMap.getD_eq_getD_getElem?, Std.ExtTreeMap.getElem?_union,
      Std.ExtTreeMap.getElem?_map, h, Std.ExtTreeMap.getD_eq_getD_getElem?]
    rfl
  values {m key found} h := by
    subst h
    show (m.filterMap fun _ found => found.value?)[key]? = (m.getD key .missing).value?
    rw [Std.ExtTreeMap.getElem?_filterMap', Std.ExtTreeMap.getD_eq_getD_getElem?]
    cases m[key]? <;> rfl

/-! ## One attempt -/

/-- A store, written below `bound` at most, that position `index` reads like `find`. -/
structure Mirrors (agree : Reading V → Reading V → Prop) (s : Store V) (bound index : Nat)
    (find : Key → Reading V) : Prop where
  below : ∀ {key position cell}, s.cell? key position = some cell → position < bound
  read : ∀ key, agree (s.read key index) (find key)

/-- The cells that a store has at the position of an attempt are the attempt's own writes. -/
def Layer (s : Store V) (version : Version) (writes : KeyMap V) : Prop :=
  ∀ key, s.cell? key version.index = writes[key]?.map (Cell.mk version.incarnation)

theorem Mirrors.mono {agree : Reading V → Reading V → Prop} {s : Store V} {bound bound' index : Nat}
    {find : Key → Reading V} (h : Mirrors agree s bound index find) (hle : bound ≤ bound') :
    Mirrors agree s bound' index find :=
  ⟨fun hcell => Nat.lt_of_lt_of_le (h.below hcell) hle, h.read⟩

section Attempt

variable {agree : Reading V → Reading V → Prop} {s : Store V} {bound : Nat} {version : Version}
  {find : Key → Reading V} {writes : KeyMap V}

/-- A change at the position itself is none for what it reads. -/
theorem Mirrors.of_cell?_eq {s' : Store V} (h : Mirrors agree s bound version.index find)
    (hbound : version.index < bound) (hbase : s'.base = s.base)
    (hcells : ∀ key position, version.index ≠ position →
      s'.cell? key position = s.cell? key position) :
    Mirrors agree s' bound version.index find where
  below {key position cell} hcell := by
    by_cases hne : version.index = position
    · exact hne ▸ hbound
    · exact h.below ((hcells key position hne).symm.trans hcell)
  read key := by
    rw [Store.read_congr hbase fun position hlt => hcells key position (Nat.ne_of_gt hlt)]
    exact h.read key

theorem Layer.write (h : Layer s version writes) (key : Key) (value : V) :
    Layer (s.write key version value) version (writes.insert key value) := by
  intro other
  have hfresh : ∀ cell, s.cell? key version.index = some cell →
      cell.incarnation ≤ version.incarnation := by
    intro cell hcell
    obtain ⟨_, _, rfl⟩ := Option.map_eq_some_iff.mp ((h key).symm.trans hcell)
    exact Nat.le_refl _
  rw [Store.cell?_write hfresh, Std.ExtTreeMap.getElem?_insert]
  by_cases hkey : key = other
  · simp [hkey]
  · simp [hkey, h other]

theorem Layer.clear (s : Store V) (version : Version) :
    Layer (s.clear version.index) version ∅ := by
  intro key
  simp [Store.cell?_clear]

/-- A program over the store ends as its draft, and leaves the writes of it at its position. -/
theorem Program.run_eq_draft {program : Program V R} (hheeds : program.Heeds agree)
    (hbound : version.index < bound) (h : Mirrors agree s bound version.index find)
    (hlayer : Layer s version writes) (cancelled : Bool) :
    let draft := program.draft find writes cancelled
    ∃ s', (program.call version).run ⟨s, cancelled⟩ = (draft.result, ⟨s', draft.cancelled⟩) ∧
      Mirrors agree s' bound version.index find ∧ Layer s' version draft.writes := by
  induction program generalizing s writes cancelled with
  | finish result => exact ⟨s, rfl, h, hlayer⟩
  | read key next ih =>
      have hnext : next (s.read key version.index) = next (find key) := hheeds.1 _ _ (h.read key)
      obtain ⟨s', hrun, h', hlayer'⟩ := ih (find key) (hheeds.2 _) h hlayer cancelled
      refine ⟨s', ?_, h', hlayer'⟩
      rw [← hnext] at hrun
      simpa [call, Call.run, World.apply, draft, ← hnext] using hrun
  | write key value next ih =>
      obtain ⟨s', hrun, hrest⟩ := ih hheeds
        (h.of_cell?_eq hbound (s.base_write key version value) fun other _ hne =>
          s.cell?_write_of_ne key value other hne)
        (hlayer.write key value) cancelled
      exact ⟨s', by simpa [call, Call.run, World.apply, draft] using hrun, hrest⟩
  | clear next ih =>
      obtain ⟨s', hrun, hrest⟩ := ih hheeds
        (h.of_cell?_eq hbound (s.base_clear _) fun other position hne => by
          rw [Store.cell?_clear, if_neg hne])
        (Layer.clear s version) cancelled
      exact ⟨s', by simpa [call, Call.run, World.apply, draft] using hrun, hrest⟩
  | cancel next ih =>
      obtain ⟨s', hrun, hrest⟩ := ih hheeds h hlayer true
      exact ⟨s', by simpa [call, Call.run, World.apply, draft] using hrun, hrest⟩

theorem Mirrors.commit {memory : Memory V M} {m : M} (hlaws : memory.Lawful agree)
    (h : Mirrors agree s (version.index + 1) version.index (memory.find m))
    (hlayer : Layer s version writes) :
    Mirrors agree s (version.index + 1) (version.index + 1)
      (memory.find (memory.commit m version writes)) where
  below := h.below
  read key := by
    cases hwrite : writes[key]? with
    | none =>
        have hcell : s.cell? key version.index = none := by rw [hlayer key, hwrite]; rfl
        rw [Store.read_succ_of_none hcell, hlaws.kept m version hwrite]
        exact h.read key
    | some value =>
        have hcell : s.cell? key version.index = some ⟨version.incarnation, value⟩ := by
          rw [hlayer key, hwrite]; rfl
        rw [Store.read_succ_of_cell hcell]
        exact hlaws.written m version hwrite

end Attempt

/-! ## The whole run -/

/-- A run over the store and one over a map have come to the same. -/
structure Follows {A : Type} (memory : Memory V M) (agree : Reading V → Reading V → Prop)
    (bound : Nat) (real : SequentialEnd (Store V) Req R A) (plain : PlainEnd M A) : Prop where
  result : real.result = plain.result
  cancelled : real.world.cancelled = plain.cancelled
  memory : ∀ {answer}, plain.result = .ok answer →
    Mirrors agree real.world.state bound bound (memory.find plain.memory)

theorem Follows.map {A B : Type} {memory : Memory V M} {agree : Reading V → Reading V → Prop}
    {bound : Nat} {real : SequentialEnd (Store V) Req R A} {plain : PlainEnd M A}
    (h : Follows memory agree bound real plain) (f : A → B) :
    Follows memory agree bound { real with result := real.result.map f }
      { plain with result := plain.result.map f } where
  result := congrArg (Except.map f) h.result
  cancelled := h.cancelled
  memory hok := by
    cases hresult : plain.result with
    | error reason => cases (congrArg (Except.map f) hresult).symm.trans hok
    | ok answer => exact h.memory hresult

/-- Two runs with the same result. If they answer, the second holds what the first one leaves. -/
structure SameOutcome {A : Type} (memory : Memory V M) (real : SequentialEnd (Store V) Req R A)
    (plain : PlainEnd M A) : Prop where
  result : real.result = plain.result
  cancelled : real.world.cancelled = plain.cancelled
  snapshot : ∀ {answer}, real.result = .ok answer →
    real.world.state.snapshot = memory.values plain.memory

namespace Scheduler

variable {s : Scheduler (Store V) Req R} {body : Req → Version → Program V R}

section Simulation

variable {memory : Memory V M} {agree : Reading V → Reading V → Prop}
  (hexecutor : s.executor = fun request version =>
    (Program.clear (body request version)).call version)
  (hheeds : ∀ request version, (body request version).Heeds agree) (hlaws : memory.Lawful agree)

include hexecutor hheeds hlaws

theorem call_follows {store : Store V} {m : M} (request : Req) (version : Version)
    (h : Mirrors agree store (version.index + 1) version.index (memory.find m)) :
    let draft := (body request version).draft (memory.find m) ∅ false
    ∃ store', (s.executor request version).run ⟨store, false⟩ =
        (draft.result, ⟨store', draft.cancelled⟩) ∧
      Mirrors agree store' (version.index + 1) version.index (memory.find m) ∧
      Mirrors agree store' (version.index + 1) (version.index + 1)
        (memory.find (memory.commit m version draft.writes)) := by
  intro draft
  have hcleared : Mirrors agree (store.clear version.index) (version.index + 1) version.index
      (memory.find m) :=
    h.of_cell?_eq (Nat.lt_succ_self _) (store.base_clear _) fun other position hne => by
      rw [Store.cell?_clear, if_neg hne]
  obtain ⟨store', hrun, hmirrors, hlayer⟩ := Program.run_eq_draft (hheeds request version)
    (Nat.lt_succ_self _) hcleared (Layer.clear store version) false
  refine ⟨store', ?_, hmirrors, hmirrors.commit hlaws hlayer⟩
  rw [hexecutor]
  exact hrun

/-- Attempts at one request over the store come to what they do over the map. The cells that the
aborted ones left do no harm: the next one clears them, and no read of the position sees them. -/
theorem attempt_follows (index : Nat) (request : Req) {m : M} (left : Nat) {store : Store V}
    (incarnation : Nat) (cancelled : Bool) (log : List (Event Req R))
    (h : Mirrors agree store (index + 1) index (memory.find m)) :
    Follows memory agree (index + 1)
      (s.attempt index request left incarnation ⟨store, cancelled⟩ log)
      (memory.attempt s.config body index request m left incarnation cancelled) := by
  induction left using Nat.strongRecOn generalizing store incarnation cancelled log with
  | ind left ih =>
    unfold attempt Memory.attempt
    cases cancelled with
    | true => exact ⟨rfl, rfl, fun hok => by cases hok⟩
    | false =>
      obtain ⟨store', hrun, hsame, hnext⟩ :=
        call_follows hexecutor hheeds hlaws request ⟨index, incarnation⟩ h
      simp only [Bool.false_eq_true, if_false, hrun]
      generalize (body request ⟨index, incarnation⟩).draft (memory.find m) ∅ false = draft
        at hnext ⊢
      obtain ⟨result, writes, cancelled⟩ := draft
      cases result with
      | returned response => exact ⟨rfl, rfl, fun _ => hnext⟩
      | failed reason => exact ⟨rfl, rfl, fun hok => by cases hok⟩
      | crashed report => exact ⟨rfl, rfl, fun hok => by cases hok⟩
      | aborted signal =>
        cases left with
        | zero => exact ⟨rfl, rfl, fun hok => by cases hok⟩
        | succ left =>
          dsimp only
          cases s.config.exceeded? (incarnation + 1) with
          | some limit => exact ⟨rfl, rfl, fun hok => by cases hok⟩
          | none => exact ih left (Nat.lt_succ_self left) (incarnation + 1) cancelled _ hsame

theorem sequentialFrom_follows (requests : List Req) :
    ∀ {store : Store V} {m : M} (index : Nat) (cancelled : Bool) (log : List (Event Req R)),
      Mirrors agree store index index (memory.find m) →
      Follows memory agree (index + requests.length)
        (s.sequentialFrom index ⟨store, cancelled⟩ log requests)
        (memory.sequentialFrom s.config body index m cancelled requests) := by
  induction requests with
  | nil => exact fun index cancelled log h => ⟨rfl, rfl, fun _ => h⟩
  | cons request rest ih =>
    intro store m index cancelled log h
    have hfirst := attempt_follows hexecutor hheeds hlaws index request counterMax 0 cancelled log
      (h.mono (Nat.le_succ index))
    unfold sequentialFrom Memory.sequentialFrom
    simp only [hfirst.result]
    cases hplain : (memory.attempt s.config body index request m counterMax 0 cancelled).result with
    | error reason => exact ⟨rfl, hfirst.cancelled, fun hok => by cases hok⟩
    | ok response =>
      have hothers := ih (index + 1)
        (memory.attempt s.config body index request m counterMax 0 cancelled).cancelled
        (s.attempt index request counterMax 0 ⟨store, cancelled⟩ log).log (hfirst.memory hplain)
      rw [← hfirst.cancelled] at hothers
      rw [List.length_cons, Nat.add_comm rest.length, ← Nat.add_assoc, ← hfirst.cancelled]
      exact hothers.map (response :: ·)

/-- What the run over the store answers and leaves is what the run over the map does. -/
theorem sequential_same (hvalid : s.config.validate = .ok ()) (base : KeyMap V) (cancelled : Bool)
    (requests : List Req) :
    SameOutcome memory (s.sequential ⟨.ofBase base, cancelled⟩ requests)
      (memory.sequential s.config body base cancelled requests) := by
  have hstart : Mirrors agree (Store.ofBase base) 0 0 (memory.find (memory.start base)) := by
    refine ⟨fun hcell => by simp at hcell, fun key => ?_⟩
    rw [Store.read_of_none fun index _ => Store.cell?_ofBase base key index]
    exact hlaws.start base key
  have hfollows := sequentialFrom_follows hexecutor hheeds hlaws requests 0 cancelled [] hstart
  rw [sequential, hvalid]
  refine ⟨hfollows.result, hfollows.cancelled, fun hok => ?_⟩
  have hmirrors := hfollows.memory (hfollows.result.symm.trans hok)
  refine Std.ExtTreeMap.ext_getElem? fun key => ?_
  rw [Store.getElem?_snapshot hmirrors.below]
  exact (hlaws.values (hmirrors.read key)).symm

end Simulation

/-- The sequential run over plain state. Let each execution first clear its position and then touch
the state only through the store, at its own position and version. Whatever it reads, writes,
aborts, cancels or fails with, and however that depends on its incarnation, the sequential run gives
the result of the run over one map in which each value is signed by the attempt that wrote it, and
if it answers then its final state is that map. For executions that go by the values they read
alone, the map needs no signatures: it is one of plain values. -/
theorem sequential_refines_plain (hvalid : s.config.validate = .ok ())
    (hexecutor : s.executor = fun request version =>
      (Program.clear (body request version)).call version)
    (base : KeyMap V) (requests : List Req) :
    SameOutcome Memory.signed (s.sequential ⟨.ofBase base, false⟩ requests)
        (Memory.signed.sequential s.config body base false requests) ∧
      ((∀ request version, (body request version).OnlyValues) →
        SameOutcome Memory.bare (s.sequential ⟨.ofBase base, false⟩ requests)
          (Memory.bare.sequential s.config body base false requests)) := by
  refine ⟨?_, fun hvalues => ?_⟩
  · exact sequential_same hexecutor (fun request version => (body request version).heeds_eq)
      Memory.lawful_signed hvalid base false requests
  · exact sequential_same hexecutor (fun request version => (hvalues request version).heeds)
      Memory.lawful_bare hvalid base false requests

/-- Counts a key up and returns what it found. The first attempt spoils the count, leaves a value at
another key and aborts. -/
def stumble (key : Key) (version : Version) : Program Nat (Option Nat) :=
  if version.incarnation = 0 then
    .write key 99 (.write (⟨[3]⟩) 7 (.finish (.aborted .requested)))
  else
    .read key fun found =>
      .write key (found.value?.getD 0 + 1) (.finish (.returned found.value?))

def stumbling : Scheduler (Store Nat) Key (Option Nat) where
  executor request version := (Program.clear (stumble request version)).call version
  validator := Validator.minimal

def counted : KeyMap Nat := {(⟨[1]⟩, 5)}

/-- Nothing of the aborted attempts is left, neither in the store nor in the map. -/
theorem stumbling_refines_plain :
    let real := stumbling.sequential ⟨.ofBase counted, false⟩ [⟨[1]⟩, ⟨[1]⟩, ⟨[2]⟩]
    let plain := Memory.bare.sequential stumbling.config stumble counted false
      [⟨[1]⟩, ⟨[1]⟩, ⟨[2]⟩]
    real.result = .ok [some 5, some 6, none] ∧ plain.result = .ok [some 5, some 6, none] ∧
      real.world.state.snapshot = plain.memory ∧
      plain.memory.toList = [(⟨[1]⟩, 7), (⟨[2]⟩, 1)] := by
  intro real plain
  have hvalues : ∀ request version, (stumble request version).OnlyValues := by
    intro request version
    unfold stumble
    split
    · trivial
    · exact ⟨fun found found' h => by simp only [h], fun _ => trivial⟩
  have hreal : (stumbling.sequential ⟨.ofBase counted, false⟩ [⟨[1]⟩, ⟨[1]⟩, ⟨[2]⟩]).result =
      .ok [some 5, some 6, none] := by decide +kernel
  have hfinal : (Memory.bare.sequential stumbling.config stumble counted false
      [⟨[1]⟩, ⟨[1]⟩, ⟨[2]⟩]).memory.toList = [(⟨[1]⟩, 7), (⟨[2]⟩, 1)] := by decide +kernel
  have hsame := (sequential_refines_plain (s := stumbling) rfl rfl counted
    [⟨[1]⟩, ⟨[1]⟩, ⟨[2]⟩]).2 hvalues
  exact ⟨hreal, hsame.result.symm.trans hreal, hsame.snapshot hreal, hfinal⟩

end Scheduler

end TxBatch
