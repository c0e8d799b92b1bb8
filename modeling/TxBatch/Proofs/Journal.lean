import TxBatch.Program
import TxBatch.Proofs.Cells
import TxBatch.Proofs.Phase.Image

/-!
# Journals

What the calls over a store did, access by access, newest first. The store is what the journal
makes of its base (`replay`), so a call may keep the journal instead of the store
(`Program.journaled`) and do all that it did before (`journaled_maps`); and what a call read is then
part of the state that a run ends with.

The cells of a replayed store are read off the journal: the newest access decides (`cell?_replay`),
as long as no attempt of a position writes after a later attempt of it (`Ordered`).
-/

namespace TxBatch

variable {V R : Type}

/-- One access to the store, with what a read found. -/
inductive Journal.Entry (V : Type) where
  | read (key : Key) (found : Reading V)
  | write (key : Key) (value : V)
  | clear
  | cancel
deriving DecidableEq

/-- Accesses under the versions that made them, newest first. -/
abbrev Journal (V : Type) := List (Version × Journal.Entry V)

namespace Journal

/-- The store that a journal makes of its base. -/
def replay (base : KeyMap V) : Journal V → Store V
  | [] => Store.ofBase base
  | (_, .read _ _) :: older => replay base older
  | (version, .write key value) :: older => (replay base older).write key version value
  | (version, .clear) :: older => (replay base older).clear version.index
  | (_, .cancel) :: older => replay base older

@[simp] theorem base_replay (base : KeyMap V) (journal : Journal V) :
    (replay base journal).base = base := by
  induction journal with
  | nil => rfl
  | cons head older ih =>
      obtain ⟨version, entry⟩ := head
      cases entry <;> simp [replay, ih]

/-- What one attempt did, oldest first. -/
def entriesOf (version : Version) (journal : Journal V) : List (Entry V) :=
  ((journal.filter fun head => head.1 = version).map Prod.snd).reverse

@[simp] theorem entriesOf_cons_self (version : Version) (entry : Entry V) (journal : Journal V) :
    entriesOf version ((version, entry) :: journal) = entriesOf version journal ++ [entry] := by
  simp [entriesOf]

theorem entriesOf_cons_ne {version other : Version} (hne : other ≠ version) (entry : Entry V)
    (journal : Journal V) :
    entriesOf version ((other, entry) :: journal) = entriesOf version journal := by
  simp [entriesOf, hne]

theorem mem_entriesOf {version : Version} {entry : Entry V} {journal : Journal V} :
    entry ∈ entriesOf version journal ↔ (version, entry) ∈ journal := by
  simp [entriesOf]

theorem entriesOf_eq_nil {version : Version} {journal : Journal V}
    (h : ∀ entry, (version, entry) ∉ journal) : entriesOf version journal = [] :=
  List.eq_nil_iff_forall_not_mem.mpr fun entry hmem => h entry (mem_entriesOf.mp hmem)

/-! ## Cells -/

/-- The cell that a journal leaves: that of the newest write to the key at the position, none if
the position was cleared since. -/
def cell? (key : Key) (index : Nat) : Journal V → Option (Cell V)
  | [] => none
  | (version, .write other value) :: older =>
    if other = key ∧ version.index = index then some ⟨version.incarnation, value⟩
    else cell? key index older
  | (version, .clear) :: older => if version.index = index then none else cell? key index older
  | (_, .read _ _) :: older => cell? key index older
  | (_, .cancel) :: older => cell? key index older

/-- No attempt of a position did anything after a later attempt of it. -/
def Ordered (journal : Journal V) : Prop :=
  journal.Pairwise fun newer older =>
    newer.1.index = older.1.index → older.1.incarnation ≤ newer.1.incarnation

theorem mem_of_cell? {key : Key} {index : Nat} {cell : Cell V} (journal : Journal V)
    (h : cell? key index journal = some cell) :
    (⟨index, cell.incarnation⟩, .write key cell.value) ∈ journal := by
  induction journal with
  | nil => cases h
  | cons head older ih =>
      obtain ⟨version, entry⟩ := head
      cases entry with
      | read other found => exact List.mem_cons_of_mem _ (ih h)
      | cancel => exact List.mem_cons_of_mem _ (ih h)
      | clear =>
          unfold cell? at h
          split at h
          · cases h
          · exact List.mem_cons_of_mem _ (ih h)
      | write other value =>
          unfold cell? at h
          split at h
          · rename_i hsame
            obtain ⟨rfl, rfl⟩ := hsame
            cases h
            exact List.mem_cons_self
          · exact List.mem_cons_of_mem _ (ih h)

/-- The store that an ordered journal makes has the cells of the journal. -/
theorem cell?_replay (base : KeyMap V) {journal : Journal V} (h : Ordered journal) (key : Key)
    (index : Nat) : (replay base journal).cell? key index = cell? key index journal := by
  induction journal generalizing key index with
  | nil => simp [replay, cell?]
  | cons head older ih =>
      obtain ⟨version, entry⟩ := head
      obtain ⟨hfirst, hrest⟩ := List.pairwise_cons.mp h
      cases entry with
      | read other found => exact ih hrest key index
      | cancel => exact ih hrest key index
      | clear => simp only [replay, cell?, Store.cell?_clear, ih hrest]
      | write other value =>
          have hfresh : ∀ cell, (replay base older).cell? other version.index = some cell →
              cell.incarnation ≤ version.incarnation := by
            intro cell hcell
            rw [ih hrest] at hcell
            exact hfirst _ (mem_of_cell? older hcell) rfl
          simp only [replay, cell?, Store.cell?_write hfresh, ih hrest]

/-- What a position did not touch is left to it. -/
theorem cell?_append_of_untouched {newer : Journal V} {index : Nat}
    (h : ∀ head ∈ newer, head.1.index ≠ index) (key : Key) (older : Journal V) :
    cell? key index (newer ++ older) = cell? key index older := by
  induction newer with
  | nil => rfl
  | cons head rest ih =>
      obtain ⟨version, entry⟩ := head
      have hne : version.index ≠ index := h _ List.mem_cons_self
      have hrest := ih fun head hmem => h head (List.mem_cons_of_mem _ hmem)
      cases entry <;> simp [cell?, hne, hrest]

/-- What a position did is all that its cells are made of. -/
theorem cell?_append_of_first {older : Journal V} {index : Nat}
    (h : ∀ head ∈ older, head.1.index ≠ index) (key : Key) (newer : Journal V) :
    cell? key index (newer ++ older) = cell? key index newer := by
  induction newer with
  | nil => exact List.append_nil older ▸ cell?_append_of_untouched h key []
  | cons head rest ih =>
      obtain ⟨version, entry⟩ := head
      cases entry <;> simp [cell?, ih]

/-- Behind a clearing of the position a cell is there because of a write since. -/
theorem mem_of_cell?_append_clear {key : Key} {version : Version} {cell : Cell V}
    (newer older : Journal V)
    (h : cell? key version.index (newer ++ (version, .clear) :: older) = some cell) :
    (⟨version.index, cell.incarnation⟩, .write key cell.value) ∈ newer := by
  have hsame : cell? key version.index (newer ++ (version, .clear) :: older) =
      cell? key version.index newer := by
    clear h
    induction newer with
    | nil => simp [cell?]
    | cons head rest ih =>
        obtain ⟨other, entry⟩ := head
        cases entry <;> simp [cell?, ih]
  exact mem_of_cell? newer (hsame ▸ h)

/-! ## Reads -/

/-- Every read found what the journal in front of it makes of the store. -/
def Faithful (base : KeyMap V) (journal : Journal V) : Prop :=
  ∀ newer version key found older, journal = newer ++ (version, .read key found) :: older →
    found = (replay base older).read key version.index

theorem faithful_nil (base : KeyMap V) : Faithful base [] := by
  intro newer version key found older h
  simp at h

theorem Faithful.cons {base : KeyMap V} {journal : Journal V} (h : Faithful base journal)
    {version : Version} {entry : Entry V}
    (hread : ∀ key found, entry = .read key found →
      found = (replay base journal).read key version.index) :
    Faithful base ((version, entry) :: journal) := by
  intro newer version' key found older heq
  rcases List.cons_eq_append_iff.mp heq with ⟨rfl, heq'⟩ | ⟨rest, rfl, heq'⟩
  · obtain ⟨hhead, rfl⟩ := List.cons.inj heq'
    obtain ⟨rfl, rfl⟩ := Prod.mk.inj hhead
    exact hread key found rfl
  · exact h rest version' key found older heq'

end Journal

namespace Program

/-- A way through a program: what it does, with what its reads find, and how it ends. -/
inductive Path : Program V R → List (Journal.Entry V) → CallEnd R → Prop
  | finish (result : CallEnd R) : Path (.finish result) [] result
  | read {key : Key} {next : Reading V → Program V R} (found : Reading V)
      {entries : List (Journal.Entry V)} {result : CallEnd R} (h : Path (next found) entries result) :
      Path (.read key next) (.read key found :: entries) result
  | write {key : Key} {value : V} {next : Program V R} {entries : List (Journal.Entry V)}
      {result : CallEnd R} (h : Path next entries result) :
      Path (.write key value next) (.write key value :: entries) result
  | clear {next : Program V R} {entries : List (Journal.Entry V)} {result : CallEnd R}
      (h : Path next entries result) : Path (.clear next) (.clear :: entries) result
  | cancel {next : Program V R} {entries : List (Journal.Entry V)} {result : CallEnd R}
      (h : Path next entries result) : Path (.cancel next) (.cancel :: entries) result

/-- The program at a version, over the journal in place of the store. -/
def journaled (base : KeyMap V) (version : Version) : Program V R → Call (Journal V) R
  | .finish result => .finish result
  | .read key next =>
    .step
      (fun w =>
        let found := (Journal.replay base w.state).read key version.index
        ⟨(version, .read key found) :: w.state, false⟩)
      (fun w => (next ((Journal.replay base w.state).read key version.index)).journaled base version)
  | .write key value next =>
    .step (fun w => ⟨(version, .write key value) :: w.state, false⟩)
      (fun _ => next.journaled base version)
  | .clear next =>
    .step (fun w => ⟨(version, .clear) :: w.state, false⟩) (fun _ => next.journaled base version)
  | .cancel next =>
    .step (fun w => ⟨(version, .cancel) :: w.state, true⟩) (fun _ => next.journaled base version)

theorem journaled_maps (base : KeyMap V) (version : Version) (program : Program V R) :
    Call.Maps (Journal.replay base) (program.journaled base version) (program.call version) := by
  induction program with
  | finish result => exact .finish result
  | read key next ih => exact .step (fun w => rfl) fun w => ih _
  | write key value next ih => exact .step (fun w => rfl) fun w => ih
  | clear next ih => exact .step (fun w => rfl) fun w => ih
  | cancel next ih => exact .step (fun w => rfl) fun w => ih

end Program

end TxBatch
