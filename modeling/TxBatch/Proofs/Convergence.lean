import Mathlib.Data.List.Nodup
import Mathlib.Data.List.TakeWhile
import TxBatch.Proofs.Updates

/-!
# Writes in any order

The calls of a round write as they come. A write of a superseded incarnation is refused if the newer
one is there already, and overwritten if it comes first; the store that both leave is the same. What
a cell ends with can be told without the order: of the writes to it, the one of the highest
incarnation stands (`standing?_writes`). And a store is told by its cells (`Compact.ext`).

A clearing can change places with any update of another position (`clear_update`), since neither
reaches the cells of the other; with a write of its own position it cannot.
-/

namespace TxBatch

namespace Store

variable {V : Type}

structure Write (V : Type) where
  key : Key
  version : Version
  value : V
deriving Repr, DecidableEq

namespace Write

/-- Where the write goes, and which attempt made it. -/
def attempt (w : Write V) : Key × Version := (w.key, w.version)

def update (w : Write V) : Update V := .write w.key w.version w.value

theorem cellOf?_update {w : Write V} {key : Key} {index : Nat} {cell : Cell V} :
    w.update.cellOf? key index = some cell ↔ w = ⟨key, ⟨index, cell.incarnation⟩, cell.value⟩ := by
  obtain ⟨other, ⟨position, incarnation⟩, value⟩ := w
  obtain ⟨incarnation', value'⟩ := cell
  simp [update, Update.cellOf?, and_assoc]

end Write

/-! ## What a collection of writes leaves -/

/-- Without a clearing in between, each write to the cell counts. -/
theorem mem_writesSince_writes {writes : List (Write V)} {key : Key} {index : Nat} {cell : Cell V} :
    cell ∈ writesSince key index (writes.map Write.update) ↔
      ⟨key, ⟨index, cell.incarnation⟩, cell.value⟩ ∈ writes := by
  have hall : (writes.map Write.update).reverse.takeWhile (fun u => !u.clears index) =
      (writes.map Write.update).reverse := by
    refine List.takeWhile_eq_self_iff.mpr fun u hmem => ?_
    obtain ⟨w, -, rfl⟩ := List.mem_map.mp (List.mem_reverse.mp hmem)
    rfl
  rw [writesSince, hall]
  simp only [List.mem_filterMap, List.mem_reverse, List.mem_map, exists_exists_and_eq_and,
    Write.cellOf?_update, exists_eq_right]

section Standing

variable {writes : List (Write V)} {key : Key} {index : Nat} {cell : Cell V}

theorem mem_of_standing?_writes (h : standing? key index (writes.map Write.update) = some cell) :
    ⟨key, ⟨index, cell.incarnation⟩, cell.value⟩ ∈ writes :=
  mem_writesSince_writes.mp (List.argmax_mem h)

theorem le_of_standing?_writes (h : standing? key index (writes.map Write.update) = some cell)
    {w : Write V} (hmem : w ∈ writes) (hkey : w.key = key) (hindex : w.version.index = index) :
    w.version.incarnation ≤ cell.incarnation := by
  obtain ⟨_, ⟨_, incarnation⟩, value⟩ := w
  obtain rfl := hkey
  obtain rfl := hindex
  have hwritten : ⟨incarnation, value⟩ ∈ writesSince _ _ (writes.map Write.update) :=
    mem_writesSince_writes.mpr hmem
  exact List.le_of_mem_argmax hwritten h

/-- A cell ends with the write of the highest incarnation, if no attempt writes it twice. -/
theorem standing?_writes (hdistinct : (writes.map Write.attempt).Nodup) :
    standing? key index (writes.map Write.update) = some cell ↔
      ⟨key, ⟨index, cell.incarnation⟩, cell.value⟩ ∈ writes ∧
      ∀ w ∈ writes, w.key = key → w.version.index = index →
        w.version.incarnation ≤ cell.incarnation := by
  constructor
  · intro h
    exact ⟨mem_of_standing?_writes h, fun w => le_of_standing?_writes h⟩
  · rintro ⟨hmem, hmax⟩
    cases hstands : standing? key index (writes.map Write.update) with
    | none =>
        have hwritten := mem_writesSince_writes.mpr hmem
        rw [List.argmax_eq_none.mp hstands] at hwritten
        cases hwritten
    | some stands =>
        have hother := mem_of_standing?_writes hstands
        have hincarnation : cell.incarnation = stands.incarnation :=
          Nat.le_antisymm (le_of_standing?_writes hstands hmem rfl rfl) (hmax _ hother rfl rfl)
        have hwrite := List.inj_on_of_nodup_map hdistinct hmem hother
          (by simp [Write.attempt, hincarnation])
        obtain ⟨incarnation, value⟩ := cell
        obtain rfl : incarnation = stands.incarnation := hincarnation
        obtain rfl : value = stands.value := congrArg Write.value hwrite
        rfl

end Standing

theorem after_writes_perm (base : KeyMap V) {writes writes' : List (Write V)}
    (hdistinct : (writes.map Write.attempt).Nodup) (hperm : writes.Perm writes') :
    (ofBase base).after (writes.map Write.update) =
      (ofBase base).after (writes'.map Write.update) := by
  have hdistinct' : (writes'.map Write.attempt).Nodup := (hperm.map _).nodup_iff.mp hdistinct
  refine (compact_after base _).ext (compact_after base _) ?_ fun key index => ?_
  · rw [base_after, base_after]
  · rw [cell?_after, cell?_after]
    refine Option.ext fun cell => ?_
    rw [standing?_writes hdistinct, standing?_writes hdistinct']
    simp only [hperm.mem_iff]

/-! ## Clearing -/

/-- A clearing is the same before an update of another position and after it. -/
theorem clear_update (s : Store V) {index : Nat} {u : Update V} (hne : u.position ≠ index) :
    (s.clear index).update u = (s.update u).clear index := by
  refine ((compact_clear s index).update u).ext (compact_clear _ index) ?_ fun key position => ?_
  · rw [base_update, base_clear, base_clear, base_update]
  · rw [cell?_clear]
    split
    · rename_i hcleared
      subst hcleared
      rw [cell?_update_of_ne _ hne, cell?_clear, if_pos rfl]
    · rename_i hkept
      refine cell?_update_congr u ?_
      rw [cell?_clear, if_neg hkept]

theorem clear_write? (s : Store V) {index : Nat} (key : Key) {version : Version} (value : V)
    (hne : version.index ≠ index) :
    (s.clear index).write? key version value = (s.write? key version value).map (·.clear index) := by
  have hrefused : (s.clear index).write? key version value = none ↔
      s.write? key version value = none := by
    simp only [write?_eq_none, cell?_clear, if_neg hne.symm]
  have hstore : (s.clear index).write key version value = (s.write key version value).clear index :=
    s.clear_update (show (Update.write key version value).position ≠ index from hne)
  rw [write, write] at hstore
  cases h : s.write? key version value with
  | none => exact hrefused.mpr h
  | some s' =>
      cases h' : (s.clear index).write? key version value with
      | none => cases h.symm.trans (hrefused.mp h')
      | some s'' =>
          rw [h, h', Option.getD_some, Option.getD_some] at hstore
          rw [hstore, Option.map_some]

theorem clear_clear (s : Store V) (index other : Nat) :
    (s.clear index).clear other = (s.clear other).clear index := by
  by_cases hne : other = index
  · rw [hne]
  · exact s.clear_update (show (Update.clear other).position ≠ index from hne)

/-- **Writes converge.** Over any base, the writes of a collection in which no attempt writes a key
twice may come in any order: every read finds the same, the final state is the same, and each cell
holds the write of the highest incarnation among those to it. From whatever a store holds, a
clearing may change places with any write of another position, which is refused after it exactly if
it is before, and with any clearing. -/
theorem writes_converge (base : KeyMap V) :
    (∀ writes writes' : List (Write V), (writes.map Write.attempt).Nodup → writes.Perm writes' →
      let s := (ofBase base).after (writes.map Write.update)
      let s' := (ofBase base).after (writes'.map Write.update)
      (∀ key reader, s.read key reader = s'.read key reader) ∧ s.snapshot = s'.snapshot ∧
      ∀ key index cell, s.cell? key index = some cell ↔
        ⟨key, ⟨index, cell.incarnation⟩, cell.value⟩ ∈ writes ∧
        ∀ w ∈ writes, w.key = key → w.version.index = index →
          w.version.incarnation ≤ cell.incarnation) ∧
    ∀ (s : Store V) (index : Nat),
      (∀ key version value, version.index ≠ index →
        (s.clear index).write? key version value =
          (s.write? key version value).map (·.clear index)) ∧
      ∀ other, (s.clear index).clear other = (s.clear other).clear index := by
  refine ⟨fun writes writes' hdistinct hperm => ?_, fun s index => ⟨?_, s.clear_clear index⟩⟩
  · intro s s'
    have hsame : s = s' := after_writes_perm base hdistinct hperm
    refine ⟨fun key reader => by rw [hsame], by rw [hsame], fun key index cell => ?_⟩
    rw [cell?_after]
    exact standing?_writes hdistinct
  · exact fun key version value hne => s.clear_write? key value hne

/-- Position 1 writes under incarnations 0 and 2. Forwards the later write overwrites the earlier
one, backwards the earlier one is refused. -/
theorem late_write_converges :
    let a : Key := ⟨[97]⟩
    let b : Key := ⟨[98]⟩
    let base : KeyMap Nat := .ofList [(b, 100)]
    let writes : List (Write Nat) :=
      [⟨a, ⟨1, 0⟩, 10⟩, ⟨b, ⟨1, 0⟩, 11⟩, ⟨a, ⟨1, 2⟩, 12⟩, ⟨a, ⟨0, 5⟩, 13⟩]
    let s := (ofBase base).after (writes.map Write.update)
    let s' := (ofBase base).after (writes.reverse.map Write.update)
    (writes.map Write.attempt).Nodup ∧ writes.Perm writes.reverse ∧
      s.read a 2 = s'.read a 2 ∧ s.snapshot = s'.snapshot ∧ s.cell? a 1 = some ⟨2, 12⟩ := by
  intro a b base writes s s'
  have hdistinct : (writes.map Write.attempt).Nodup := by decide
  obtain ⟨hread, hsnapshot, hcell⟩ := (writes_converge base).1 writes writes.reverse hdistinct
    (List.reverse_perm writes).symm
  exact ⟨hdistinct, (List.reverse_perm writes).symm, hread a 2, hsnapshot,
    (hcell a 1 ⟨2, 12⟩).mpr ⟨by decide, by decide⟩⟩

/-- Two writes of one attempt do not converge: the newer one stands. -/
example :
    let w : Write Nat := ⟨⟨[97]⟩, ⟨1, 0⟩, 5⟩
    let w' : Write Nat := ⟨⟨[97]⟩, ⟨1, 0⟩, 6⟩
    standing? ⟨[97]⟩ 1 [w.update, w'.update] ≠ standing? ⟨[97]⟩ 1 [w'.update, w.update] := by decide

end Store

end TxBatch
