import TxBatch.Key

/-! # Access sets

What one execution touched: the keys it read and the keys it wrote. Comparing the sets of a later
transaction with the writes of an earlier one tells whether the later result can rest on stale
state.
-/

namespace TxBatch

/-- The keys that one execution read and wrote. -/
structure Access where
  reads : KeySet := ∅
  writes : KeySet := ∅
deriving DecidableEq, Inhabited

namespace Access

def read (a : Access) (key : Key) : Access := { a with reads := a.reads.insert key }

def write (a : Access) (key : Key) : Access := { a with writes := a.writes.insert key }

def isEmpty (a : Access) : Bool := a.reads.isEmpty && a.writes.isEmpty

/-- Keys on which a transaction conflicts with an earlier one. -/
structure Conflicts where
  /-- Read by the later, written by the earlier. -/
  readAfterWrite : KeySet
  /-- Written by both. -/
  writeAfterWrite : KeySet
deriving DecidableEq

/-- How many keys conflict; one that is both read and written over counts twice. -/
def Conflicts.total (c : Conflicts) : Nat := c.readAfterWrite.size + c.writeAfterWrite.size

def conflicts (later earlier : Access) : Conflicts where
  readAfterWrite := later.reads ∩ earlier.writes
  writeAfterWrite := later.writes ∩ earlier.writes

def readsFrom (later earlier : Access) : Bool := earlier.writes.toList.any later.reads.contains

def overwrites (later earlier : Access) : Bool := earlier.writes.toList.any later.writes.contains

/-- Running `earlier` again can change what `later` saw, or the last value of a key it wrote. -/
def dependsOn (later earlier : Access) : Bool := later.readsFrom earlier || later.overwrites earlier

theorem readsFrom_iff {later earlier : Access} :
    later.readsFrom earlier = true ↔ ∃ k, k ∈ later.reads ∧ k ∈ earlier.writes := by
  simp [readsFrom, and_comm]

theorem overwrites_iff {later earlier : Access} :
    later.overwrites earlier = true ↔ ∃ k, k ∈ later.writes ∧ k ∈ earlier.writes := by
  simp [overwrites, and_comm]

theorem dependsOn_iff {later earlier : Access} :
    later.dependsOn earlier = true ↔
      ∃ k, k ∈ earlier.writes ∧ (k ∈ later.reads ∨ k ∈ later.writes) := by
  rw [dependsOn, Bool.or_eq_true, readsFrom_iff, overwrites_iff]
  constructor
  · rintro (⟨k, h, w⟩ | ⟨k, h, w⟩)
    · exact ⟨k, w, Or.inl h⟩
    · exact ⟨k, w, Or.inr h⟩
  · rintro ⟨k, w, h | h⟩
    · exact Or.inl ⟨k, h, w⟩
    · exact Or.inr ⟨k, h, w⟩

end Access

/-- Results that tell which keys their execution touched. -/
class Tracked (R : Type) where
  access : R → Access

instance : Tracked Access := ⟨id⟩

end TxBatch
