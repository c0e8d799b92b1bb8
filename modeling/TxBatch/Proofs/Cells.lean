import TxBatch.Store

/-!
# The store, cell by cell

A store over its base is the table of its cells, one a key and a position. What a read finds, what
a write or a clearing changes and what the final state holds are told here by cells, so no later
proof opens a tree. A read looks at the highest cell below its position (`read_cases`); so two
stores with the same cells there are read alike (`read_congr`), and the final state is what a reader
behind all positions would find (`getElem?_snapshot`). A store that keeps no key without a cell, as
every store that is used does, is told by its base and its cells (`Compact.ext`).
-/

namespace TxBatch

variable {V : Type}

namespace History

theorem getLast?_eq_some_of_sorted {l : List (Nat × Cell V)}
    (hsorted : l.Pairwise fun a b => a.1 < b.1) {entry : Nat × Cell V} :
    l.getLast? = some entry ↔ entry ∈ l ∧ ∀ other ∈ l, other.1 ≤ entry.1 := by
  constructor
  · intro h
    obtain ⟨front, rfl⟩ := List.getLast?_eq_some_iff.mp h
    refine ⟨by simp, fun other hmem => ?_⟩
    rcases List.mem_append.mp hmem with hmem | hmem
    · exact Nat.le_of_lt ((List.pairwise_append.mp hsorted).2.2 other hmem entry (by simp))
    · exact Nat.le_of_eq (congrArg Prod.fst (List.mem_singleton.mp hmem))
  · rintro ⟨hmem, hmax⟩
    cases hlast : l.getLast? with
    | none =>
        rw [List.getLast?_eq_none_iff.mp hlast] at hmem
        cases hmem
    | some last =>
        obtain ⟨front, rfl⟩ := List.getLast?_eq_some_iff.mp hlast
        rcases List.mem_append.mp hmem with hmem | hmem
        · have hlt := (List.pairwise_append.mp hsorted).2.2 entry hmem last (by simp)
          have hle := hmax last (by simp)
          omega
        · rw [List.mem_singleton.mp hmem]

theorem latestBelow?_sorted (h : History V) (reader : Nat) :
    (h.toList.filter fun entry => entry.1 < reader).Pairwise fun a b => a.1 < b.1 :=
  (h.ordered_keys_toList.imp fun hlt => Nat.compare_eq_lt.mp hlt).filter _

theorem latestBelow?_eq_some {h : History V} {reader index : Nat} {cell : Cell V} :
    h.latestBelow? reader = some (index, cell) ↔ h[index]? = some cell ∧ index < reader ∧
      ∀ other, index < other → other < reader → h[other]? = none := by
  rw [latestBelow?, getLast?_eq_some_of_sorted (latestBelow?_sorted h reader)]
  simp only [List.mem_filter, Std.ExtTreeMap.mem_toList_iff_getElem?_eq_some, decide_eq_true_eq,
    Prod.forall, and_imp]
  constructor
  · rintro ⟨⟨hcell, hlt⟩, hmax⟩
    refine ⟨hcell, hlt, fun other habove hbelow => ?_⟩
    cases hother : h[other]? with
    | none => rfl
    | some c => exact absurd (hmax other c hother hbelow) (Nat.not_le.mpr habove)
  · rintro ⟨hcell, hlt, hnone⟩
    refine ⟨⟨hcell, hlt⟩, fun other c hother hbelow => Nat.not_lt.mp fun habove => ?_⟩
    rw [hnone other habove hbelow] at hother
    cases hother

theorem latestBelow?_eq_none {h : History V} {reader : Nat} :
    h.latestBelow? reader = none ↔ ∀ index < reader, h[index]? = none := by
  simp only [latestBelow?, List.getLast?_eq_none_iff, List.filter_eq_nil_iff,
    decide_eq_true_eq, Prod.forall, Std.ExtTreeMap.mem_toList_iff_getElem?_eq_some]
  constructor
  · intro hnone index hlt
    cases hcell : h[index]? with
    | none => rfl
    | some cell => exact absurd hlt (hnone index cell hcell)
  · intro hnone index cell hcell hlt
    rw [hnone index hlt] at hcell
    cases hcell

theorem latest?_eq_latestBelow? {h : History V} {bound : Nat}
    (hbound : ∀ {index cell}, h[index]? = some cell → index < bound) :
    h.latest? = h.latestBelow? bound := by
  have hall : (h.toList.filter fun entry => entry.1 < bound) = h.toList := by
    refine List.filter_eq_self.mpr fun entry hmem => ?_
    obtain ⟨index, cell⟩ := entry
    exact decide_eq_true (hbound (Std.ExtTreeMap.mem_toList_iff_getElem?_eq_some.mp hmem))
  rw [latest?, latestBelow?, hall]

theorem latest?_isSome {h : History V} :
    h.latest?.isSome ↔ ∃ index : Nat, h[index]?.isSome := by
  rw [latest?, List.getLast?_isSome]
  constructor
  · intro hne
    obtain ⟨⟨index, cell⟩, hmem⟩ := List.exists_mem_of_ne_nil _ hne
    exact ⟨index, by rw [Std.ExtTreeMap.mem_toList_iff_getElem?_eq_some.mp hmem]; rfl⟩
  · rintro ⟨index, hsome⟩
    obtain ⟨cell, hcell⟩ := Option.isSome_iff_exists.mp hsome
    exact List.ne_nil_of_mem (Std.ExtTreeMap.mem_toList_iff_getElem?_eq_some.mpr hcell)

theorem latest?_empty : (∅ : History V).latest? = none := by
  rw [latest?, Std.ExtTreeMap.toList_eq_nil_iff.mpr rfl]
  rfl

end History

namespace Store

def cell? (s : Store V) (key : Key) (index : Nat) : Option (Cell V) := (s.history key)[index]?

@[simp] theorem cell?_ofBase (base : KeyMap V) (key : Key) (index : Nat) :
    (ofBase base).cell? key index = none := by
  simp [cell?, history, ofBase]

/-! ## Reading -/

/-- What is found where nothing was written. -/
def fallback (base : KeyMap V) (key : Key) : Reading V :=
  match base[key]? with
  | some value => .base value
  | none => .missing

theorem read_of_cell {s : Store V} {key : Key} {reader index : Nat} {cell : Cell V}
    (hcell : s.cell? key index = some cell) (hlt : index < reader)
    (hnone : ∀ other, index < other → other < reader → s.cell? key other = none) :
    s.read key reader = .versioned ⟨index, cell.incarnation⟩ cell.value := by
  rw [read, History.latestBelow?_eq_some.mpr ⟨hcell, hlt, hnone⟩]

theorem read_of_none {s : Store V} {key : Key} {reader : Nat}
    (hnone : ∀ index < reader, s.cell? key index = none) :
    s.read key reader = fallback s.base key := by
  rw [read, History.latestBelow?_eq_none.mpr hnone]
  rfl

theorem read_cases (s : Store V) (key : Key) (reader : Nat) :
    (∃ index cell, s.cell? key index = some cell ∧ index < reader ∧
      (∀ other, index < other → other < reader → s.cell? key other = none) ∧
      s.read key reader = .versioned ⟨index, cell.incarnation⟩ cell.value) ∨
    ((∀ index < reader, s.cell? key index = none) ∧ s.read key reader = fallback s.base key) := by
  cases hlatest : (s.history key).latestBelow? reader with
  | none =>
      have hnone := History.latestBelow?_eq_none.mp hlatest
      exact .inr ⟨hnone, read_of_none hnone⟩
  | some entry =>
      obtain ⟨hcell, hlt, hnone⟩ := History.latestBelow?_eq_some.mp hlatest
      exact .inl ⟨entry.1, entry.2, hcell, hlt, hnone, read_of_cell hcell hlt hnone⟩

/-- What a position wrote is what the next one reads. -/
theorem read_succ_of_cell {s : Store V} {key : Key} {reader : Nat} {cell : Cell V}
    (hcell : s.cell? key reader = some cell) :
    s.read key (reader + 1) = .versioned ⟨reader, cell.incarnation⟩ cell.value :=
  read_of_cell hcell (Nat.lt_succ_self reader) fun other habove hbelow => by omega

/-- Where a position wrote nothing, the next one reads what the position itself does. -/
theorem read_succ_of_none {s : Store V} {key : Key} {reader : Nat}
    (hnone : s.cell? key reader = none) : s.read key (reader + 1) = s.read key reader := by
  rcases read_cases s key reader with ⟨index, cell, hcell, hlt, hbetween, hread⟩ | ⟨hbelow, hread⟩
  · rw [hread, read_of_cell hcell (Nat.lt_succ_of_lt hlt) fun other habove hother => ?_]
    rcases Nat.lt_succ_iff_lt_or_eq.mp hother with hother | rfl
    · exact hbetween other habove hother
    · exact hnone
  · rw [hread, read_of_none fun index hindex => ?_]
    rcases Nat.lt_succ_iff_lt_or_eq.mp hindex with hindex | rfl
    · exact hbelow index hindex
    · exact hnone

theorem read_congr {s s' : Store V} {key : Key} {reader : Nat} (hbase : s.base = s'.base)
    (h : ∀ index < reader, s.cell? key index = s'.cell? key index) :
    s.read key reader = s'.read key reader := by
  rcases read_cases s key reader with ⟨index, cell, hcell, hlt, hnone, hread⟩ | ⟨hnone, hread⟩
  · rw [hread, read_of_cell ((h index hlt).symm.trans hcell) hlt]
    exact fun other habove hbelow => (h other hbelow).symm.trans (hnone other habove hbelow)
  · rw [hread, hbase, read_of_none fun index hlt => (h index hlt).symm.trans (hnone index hlt)]

theorem value_read_congr {s s' : Store V} {key : Key} {reader : Nat} (hbase : s.base = s'.base)
    (h : ∀ index < reader,
      (s.cell? key index).map Cell.value = (s'.cell? key index).map Cell.value) :
    (s.read key reader).value? = (s'.read key reader).value? := by
  have hnone' : ∀ index < reader, s.cell? key index = none → s'.cell? key index = none := by
    intro index hlt hnone
    have heq := h index hlt
    rw [hnone] at heq
    exact Option.map_eq_none_iff.mp heq.symm
  rcases read_cases s key reader with ⟨index, cell, hcell, hlt, hnone, hread⟩ | ⟨hnone, hread⟩
  · have heq := h index hlt
    rw [hcell, Option.map_some] at heq
    obtain ⟨cell', hcell', hvalue⟩ := Option.map_eq_some_iff.mp heq.symm
    rw [hread, read_of_cell hcell' hlt fun other habove hbelow =>
      hnone' other hbelow (hnone other habove hbelow)]
    simp [Reading.value?, hvalue]
  · rw [hread, hbase, read_of_none fun index hlt => hnone' index hlt (hnone index hlt)]

/-! ## Writing -/

@[simp] theorem base_write (s : Store V) (key : Key) (version : Version) (value : V) :
    (s.write key version value).base = s.base := by
  rw [write, write?]
  split <;> rfl

@[simp] theorem base_clear (s : Store V) (index : Nat) : (s.clear index).base = s.base := rfl

/-- A write that no later attempt at its position has preceded sets its cell. -/
theorem cell?_write {s : Store V} {key : Key} {version : Version} {value : V}
    (hfresh : ∀ cell, s.cell? key version.index = some cell →
      cell.incarnation ≤ version.incarnation) (other : Key) (index : Nat) :
    (s.write key version value).cell? other index =
      if key = other ∧ version.index = index then some ⟨version.incarnation, value⟩
      else s.cell? other index := by
  have hstale : s.isStale key version = false := by
    rw [isStale]
    split
    · exact decide_eq_false (Nat.not_lt.mpr (hfresh _ ‹_›))
    · rfl
  simp only [write, write?, hstale, cell?, history, Option.getD_some, Bool.false_eq_true, if_false,
    Std.ExtTreeMap.getD_insert, Std.LawfulEqOrd.compare_eq_iff_eq]
  by_cases hkey : key = other
  · subst hkey
    simp [Std.ExtTreeMap.getElem?_insert]
  · simp [hkey]

theorem cell?_write_of_ne (s : Store V) (key : Key) {version : Version} (value : V) (other : Key)
    {index : Nat} (hne : version.index ≠ index) :
    (s.write key version value).cell? other index = s.cell? other index := by
  rw [write, write?]
  split
  · rfl
  · simp only [cell?, history, Option.getD_some, Std.ExtTreeMap.getD_insert,
      Std.LawfulEqOrd.compare_eq_iff_eq]
    by_cases hkey : key = other
    · subst hkey
      simp [Std.ExtTreeMap.getElem?_insert, hne]
    · simp [hkey]

theorem cell?_write_cases (s : Store V) (key : Key) (version : Version) (value : V) (other : Key)
    (index : Nat) :
    (s.write key version value).cell? other index = s.cell? other index ∨
      key = other ∧ version.index = index ∧
        (s.write key version value).cell? other index = some ⟨version.incarnation, value⟩ := by
  cases hstale : s.isStale key version with
  | true =>
      rw [write, write?, if_pos hstale]
      exact .inl rfl
  | false =>
      rw [cell?_write fun cell hcell => ?_]
      · split
        · rename_i hwritten
          exact .inr ⟨hwritten.1, hwritten.2, rfl⟩
        · exact .inl rfl
      · rw [isStale, show (s.history key)[version.index]? = some cell from hcell] at hstale
        exact Nat.not_lt.mp (of_decide_eq_false hstale)

theorem write?_eq_none {s : Store V} {key : Key} {version : Version} {value : V} :
    s.write? key version value = none ↔
      ∃ cell, s.cell? key version.index = some cell ∧ version.incarnation < cell.incarnation := by
  rw [write?, ite_eq_left_iff, isStale, cell?]
  cases h : (s.history key)[version.index]? <;> simp

/-- Of a write and what its cell held before, the one that stands. -/
def Cell.over (new : Cell V) : Option (Cell V) → Cell V
  | some old => if new.incarnation < old.incarnation then old else new
  | none => new

theorem cell?_write_over (s : Store V) (key : Key) (version : Version) (value : V) (other : Key)
    (index : Nat) :
    (s.write key version value).cell? other index =
      if key = other ∧ version.index = index then
        some (Cell.over ⟨version.incarnation, value⟩ (s.cell? other index))
      else s.cell? other index := by
  cases hwrite : s.write? key version value with
  | none =>
      obtain ⟨cell, hcell, hlt⟩ := write?_eq_none.mp hwrite
      rw [write, hwrite, Option.getD_none]
      split
      · rename_i hsame
        obtain ⟨rfl, rfl⟩ := hsame
        rw [hcell, Cell.over, if_pos hlt]
      · rfl
  | some s' =>
      have hfresh : ∀ cell, s.cell? key version.index = some cell →
          cell.incarnation ≤ version.incarnation := by
        refine fun cell hcell => Nat.not_lt.mp fun hlt => ?_
        cases hwrite.symm.trans (write?_eq_none.mpr ⟨cell, hcell, hlt⟩)
      rw [cell?_write hfresh]
      split
      · rename_i hsame
        obtain ⟨rfl, rfl⟩ := hsame
        cases hcell : s.cell? key version.index with
        | none => rfl
        | some cell => rw [Cell.over, if_neg (Nat.not_lt.mpr (hfresh cell hcell))]
      · rfl

theorem cell?_clear (s : Store V) (position : Nat) (key : Key) (index : Nat) :
    (s.clear position).cell? key index =
      if position = index then none else s.cell? key index := by
  have hhistory : (s.clear position).history key = (s.history key).erase position := by
    simp only [history, clear, Std.ExtTreeMap.getD_eq_getD_getElem?,
      Std.ExtTreeMap.getElem?_filterMap']
    cases s.written[key]? with
    | none => simp
    | some h =>
        simp only [Option.bind_some, Option.getD_some]
        split
        · rename_i hempty
          exact (Std.ExtTreeMap.isEmpty_iff.mp hempty).symm
        · rfl
  simp [cell?, hhistory, Std.ExtTreeMap.getElem?_erase]

/-! ## The final state -/

theorem getElem?_snapshot_latest (s : Store V) (key : Key) :
    s.snapshot[key]? =
      ((s.history key).latest?.map fun entry => entry.2.value).or s.base[key]? := by
  rw [snapshot, Std.ExtTreeMap.getElem?_union, Std.ExtTreeMap.getElem?_filterMap', history,
    Std.ExtTreeMap.getD_eq_getD_getElem?]
  cases s.written[key]? with
  | none => simp [History.latest?_empty]
  | some h => rfl

theorem mem_snapshot {s : Store V} {key : Key} :
    key ∈ s.snapshot ↔ key ∈ s.base ∨ ∃ index, (s.cell? key index).isSome := by
  rw [Std.ExtTreeMap.mem_iff_isSome_getElem?, Std.ExtTreeMap.mem_iff_isSome_getElem?,
    getElem?_snapshot_latest, Option.isSome_or, Option.isSome_map, Bool.or_eq_true, or_comm,
    History.latest?_isSome]
  rfl

/-- The final state holds what a reader behind all positions of the key finds. -/
theorem getElem?_snapshot_of_lt {s : Store V} {key : Key} {bound : Nat}
    (hbound : ∀ {index cell}, s.cell? key index = some cell → index < bound) :
    s.snapshot[key]? = (s.read key bound).value? := by
  have hlatest : (s.history key).latest? = (s.history key).latestBelow? bound :=
    History.latest?_eq_latestBelow? fun hcell => hbound hcell
  rw [getElem?_snapshot_latest, hlatest, read]
  cases (s.history key).latestBelow? bound with
  | none => cases s.base[key]? <;> rfl
  | some entry => rfl

theorem getElem?_snapshot {s : Store V} {bound : Nat}
    (hbound : ∀ {key index cell}, s.cell? key index = some cell → index < bound) (key : Key) :
    s.snapshot[key]? = (s.read key bound).value? :=
  getElem?_snapshot_of_lt hbound

/-! ## No empty history -/

/-- Each key that is kept has a cell. -/
def Compact (s : Store V) : Prop := ∀ key : Key, s.written[key]? ≠ some ∅

theorem compact_ofBase (base : KeyMap V) : (ofBase base).Compact := by
  simp [Compact, ofBase]

theorem Compact.write {s : Store V} (h : s.Compact) (key : Key) (version : Version) (value : V) :
    (s.write key version value).Compact := by
  intro other
  rw [Store.write, write?]
  split
  · exact h other
  · simp only [Option.getD_some, Std.ExtTreeMap.getElem?_insert]
    split
    · simp
    · exact h other

theorem compact_clear (s : Store V) (index : Nat) : (s.clear index).Compact := by
  intro key
  simp only [clear, Std.ExtTreeMap.getElem?_filterMap']
  cases s.written[key]? with
  | none => simp
  | some history =>
      simp only [Option.bind_some]
      split
      · simp
      · rename_i hleft
        intro hempty
        exact hleft (Std.ExtTreeMap.isEmpty_iff.mpr (Option.some.inj hempty))

theorem Compact.getElem?_written {s : Store V} (h : s.Compact) (key : Key) :
    s.written[key]? = if (s.history key).isEmpty then none else some (s.history key) := by
  rw [history, Std.ExtTreeMap.getD_eq_getD_getElem?]
  cases hkey : s.written[key]? with
  | none => simp
  | some cells =>
      have hcells : cells ≠ ∅ := fun hempty => h key (hempty ▸ hkey)
      simp [Std.ExtTreeMap.isEmpty_iff, hcells]

/-- The base and the cells are all there is. -/
theorem Compact.ext {s s' : Store V} (h : s.Compact) (h' : s'.Compact) (hbase : s.base = s'.base)
    (hcells : ∀ key index, s.cell? key index = s'.cell? key index) : s = s' := by
  have hwritten : s.written = s'.written := Std.ExtTreeMap.ext_getElem? fun key => by
    have hhistory : s.history key = s'.history key := Std.ExtTreeMap.ext_getElem? (hcells key)
    rw [h.getElem?_written, h'.getElem?_written, hhistory]
  obtain ⟨base, written⟩ := s
  obtain ⟨base', written'⟩ := s'
  obtain rfl : base = base' := hbase
  obtain rfl : written = written' := hwritten
  rfl

end Store

end TxBatch
