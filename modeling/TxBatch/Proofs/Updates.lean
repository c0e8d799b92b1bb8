import Mathlib.Data.List.MinMax
import Mathlib.Order.Bounds.Defs
import TxBatch.Proofs.Cells

/-!
# What any updates leave of a store

The calls of a batch write in no particular order: late, twice, and under incarnations that were
superseded long ago. What a cell holds after all that is told here without the store: among the
writes of its position since the position was cleared last, the one of the highest incarnation
stands (`standing?`). One more update changes that as it changes the cells of the store, so the two
never part (`cell?_after`); what is read, and the final state, follow by the laws of cells.
-/

namespace TxBatch

namespace Store

variable {V : Type}

inductive Update (V : Type) where
  | write (key : Key) (version : Version) (value : V)
  /-- Discards every write of the position. -/
  | clear (index : Nat)
deriving Repr, DecidableEq

def update (s : Store V) : Update V → Store V
  | .write key version value => s.write key version value
  | .clear index => s.clear index

def after (s : Store V) (updates : List (Update V)) : Store V := updates.foldl update s

theorem after_append_singleton (s : Store V) (updates : List (Update V)) (u : Update V) :
    s.after (updates ++ [u]) = (s.after updates).update u := by
  rw [after, List.foldl_append, List.foldl_cons, List.foldl_nil, after]

/-! ## One update -/

def Update.position : Update V → Nat
  | .write _ version _ => version.index
  | .clear index => index

theorem base_update (s : Store V) (u : Update V) : (s.update u).base = s.base := by
  cases u with
  | write key version value => exact base_write s key version value
  | clear index => rfl

theorem cell?_update_of_ne (s : Store V) {u : Update V} {index : Nat} (hne : u.position ≠ index)
    (key : Key) : (s.update u).cell? key index = s.cell? key index := by
  cases u with
  | write other version value => exact cell?_write_of_ne s other value key hne
  | clear position => exact (cell?_clear s position key index).trans (if_neg hne)

theorem cell?_update_congr {s s' : Store V} {key : Key} {index : Nat} (u : Update V)
    (h : s.cell? key index = s'.cell? key index) :
    (s.update u).cell? key index = (s'.update u).cell? key index := by
  cases u with
  | write other version value => rw [update, update, cell?_write_over, cell?_write_over, h]
  | clear position => rw [update, update, cell?_clear, cell?_clear, h]

theorem Compact.update {s : Store V} (h : s.Compact) (u : Update V) : (s.update u).Compact := by
  cases u with
  | write key version value => exact h.write key version value
  | clear index => exact compact_clear s index

/-! ## The write that stands -/

namespace Update

def clears (index : Nat) : Update V → Bool
  | .write .. => false
  | .clear position => position = index

/-- The cell that the update means for `key` at `index`, if it writes there. -/
def cellOf? (key : Key) (index : Nat) : Update V → Option (Cell V)
  | .write other version value =>
    if other = key ∧ version.index = index then some ⟨version.incarnation, value⟩ else none
  | .clear _ => none

end Update

/-- The writes of a key by a position since the position was cleared last, newest first. -/
def writesSince (key : Key) (index : Nat) (updates : List (Update V)) : List (Cell V) :=
  (updates.reverse.takeWhile fun u => !u.clears index).filterMap (Update.cellOf? key index)

/-- Of these writes the one of the highest incarnation, and the newest if several have it. -/
def standing? (key : Key) (index : Nat) (updates : List (Update V)) : Option (Cell V) :=
  (writesSince key index updates).argmax Cell.incarnation

theorem writesSince_append_singleton (key : Key) (index : Nat) (updates : List (Update V))
    (u : Update V) :
    writesSince key index (updates ++ [u]) =
      if u.clears index then []
      else (u.cellOf? key index).toList ++ writesSince key index updates := by
  rw [writesSince, List.reverse_append, List.reverse_singleton, List.singleton_append,
    List.takeWhile_cons]
  cases hclears : u.clears index with
  | true => simp
  | false => cases hcell : u.cellOf? key index <;> simp [hcell, writesSince]

theorem standing?_append_clear (key : Key) (index position : Nat) (updates : List (Update V)) :
    standing? key index (updates ++ [.clear position]) =
      if position = index then none else standing? key index updates := by
  rw [standing?, writesSince_append_singleton]
  simp only [Update.clears, Update.cellOf?, decide_eq_true_eq]
  split <;> rfl

theorem standing?_append_write (key : Key) (index : Nat) (other : Key) (version : Version)
    (value : V) (updates : List (Update V)) :
    standing? key index (updates ++ [.write other version value]) =
      if other = key ∧ version.index = index then
        some (Cell.over ⟨version.incarnation, value⟩ (standing? key index updates))
      else standing? key index updates := by
  rw [standing?, writesSince_append_singleton]
  simp only [Update.clears, Update.cellOf?, Bool.false_eq_true, if_false]
  split
  · rw [Option.toList_some, List.singleton_append, List.argmax_cons]
    rw [standing?]
    cases (writesSince key index updates).argmax Cell.incarnation with
    | none => rfl
    | some old => exact (apply_ite some _ _ _).symm
  · rfl

/-! ## The store after any updates -/

theorem cell?_after (base : KeyMap V) (updates : List (Update V)) (key : Key) (index : Nat) :
    ((ofBase base).after updates).cell? key index = standing? key index updates := by
  induction updates using List.reverseRecOn generalizing key index with
  | nil => exact cell?_ofBase base key index
  | append_singleton updates u ih =>
      rw [after_append_singleton]
      cases u with
      | write other version value =>
          rw [standing?_append_write, update, cell?_write_over, ih]
      | clear position => rw [standing?_append_clear, update, cell?_clear, ih]

theorem after_induction {P : Store V → Prop} {s : Store V} (hs : P s)
    (hupdate : ∀ {s}, P s → ∀ u, P (s.update u)) (updates : List (Update V)) :
    P (s.after updates) := by
  induction updates using List.reverseRecOn with
  | nil => exact hs
  | append_singleton updates u ih =>
      rw [after_append_singleton]
      exact hupdate ih u

theorem base_after (s : Store V) (updates : List (Update V)) : (s.after updates).base = s.base :=
  after_induction (P := fun s' => s'.base = s.base) rfl
    (fun h u => (base_update _ u).trans h) updates

theorem compact_after (base : KeyMap V) (updates : List (Update V)) :
    ((ofBase base).after updates).Compact :=
  after_induction (compact_ofBase base) Compact.update updates

/-- **The store after any updates.** A write is refused exactly if the cell of its position stands
at a later incarnation, and then changes nothing. A reader finds what stands at the highest
position below it, else the base value, else nothing. The final state has the keys of the base and
those where something stands, and holds of each what a reader behind all its positions finds. No key
is kept without a cell, and the base stays. -/
theorem after_reference (base : KeyMap V) (updates : List (Update V)) :
    let s := (ofBase base).after updates
    let live (key : Key) (index : Nat) : Prop := (standing? key index updates).isSome
    (∀ key version value,
      (s.write? key version value = none ↔ ∃ cell,
        standing? key version.index updates = some cell ∧ version.incarnation < cell.incarnation) ∧
      (s.write? key version value = none → s.write key version value = s)) ∧
    (∀ key reader,
      (∃ index cell, IsGreatest {i | i < reader ∧ live key i} index ∧
        standing? key index updates = some cell ∧
        s.read key reader = .versioned ⟨index, cell.incarnation⟩ cell.value) ∨
      (∀ index < reader, ¬live key index) ∧
        s.read key reader =
          match base[key]? with
          | some value => .base value
          | none => .missing) ∧
    (∀ key, key ∈ s.snapshot ↔ key ∈ base ∨ ∃ index, live key index) ∧
    (∀ key bound, (∀ index, live key index → index < bound) →
      s.snapshot[key]? = (s.read key bound).value?) ∧
    (∀ key : Key, s.written[key]? ≠ some ∅) ∧
    s.base = base := by
  intro s live
  have hcell : ∀ key index, s.cell? key index = standing? key index updates :=
    cell?_after base updates
  have hbase : s.base = base := base_after (ofBase base) updates
  refine ⟨fun key version value => ⟨?_, ?_⟩, fun key reader => ?_, fun key => ?_, ?_,
    compact_after base updates, hbase⟩
  · rw [write?_eq_none, hcell]
  · intro hrefused
    rw [write, hrefused, Option.getD_none]
  · rcases read_cases s key reader with ⟨index, cell, h, hlt, hnone, hread⟩ | ⟨hnone, hread⟩
    · have hlive : live key index := Option.isSome_iff_exists.mpr ⟨cell, (hcell ..).symm.trans h⟩
      have hstanding := (hcell key index).symm.trans h
      refine .inl ⟨index, cell, ⟨⟨hlt, hlive⟩, fun other hother => ?_⟩, hstanding, hread⟩
      by_contra habove
      obtain ⟨c, hc⟩ := Option.isSome_iff_exists.mp hother.2
      rw [← hcell, hnone other (Nat.not_le.mp habove) hother.1] at hc
      cases hc
    · refine .inr ⟨fun index hlt hlive => ?_, hbase ▸ hread⟩
      obtain ⟨c, hc⟩ := Option.isSome_iff_exists.mp hlive
      rw [← hcell, hnone index hlt] at hc
      cases hc
  · rw [mem_snapshot, hbase]
    simp only [hcell, live]
  · intro key bound hbound
    refine getElem?_snapshot_of_lt fun {index cell} h => hbound index ?_
    exact Option.isSome_iff_exists.mpr ⟨cell, (hcell ..).symm.trans h⟩

/-- What was cleared counts for nothing, however late its incarnation; of two writes of one attempt
the newer stands. -/
example :
    standing? ⟨[97]⟩ 1 [.write ⟨[97]⟩ ⟨1, 7⟩ 70, .clear 1, .write ⟨[97]⟩ ⟨1, 2⟩ 20,
      .write ⟨[97]⟩ ⟨1, 1⟩ 10, .write ⟨[97]⟩ ⟨1, 2⟩ 21, .write ⟨[97]⟩ ⟨0, 3⟩ 30] =
      some ⟨2, 21⟩ := by decide

end Store

end TxBatch
