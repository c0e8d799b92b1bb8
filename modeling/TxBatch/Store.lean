import TxBatch.Key
import TxBatch.Version

/-! # The multi-version store

Every transaction of a batch sees shared state as of its own position: a read at position `i`
finds the newest write of a position below `i`, and the base state if there is none. Each key keeps
one cell a position, with the value of the highest incarnation that wrote it; a late write of a
superseded incarnation is refused. Writes of one position are never seen by positions at or below
it, so transactions that run at the same time disturb each other only through writes that a
validator can find.
-/

namespace TxBatch

/-- What one position last wrote to one key, and at which incarnation. -/
structure Cell (V : Type) where
  incarnation : Nat
  value : V
deriving Repr, DecidableEq

abbrev History (V : Type) := Std.ExtTreeMap Nat (Cell V)

namespace History

variable {V : Type}

/-- The cell of the highest position below `reader`, with its position. -/
def latestBelow? (h : History V) (reader : Nat) : Option (Nat × Cell V) :=
  (h.toList.filter fun entry => entry.1 < reader).getLast?

def latest? (h : History V) : Option (Nat × Cell V) := h.toList.getLast?

end History

inductive Reading (V : Type) where
  /-- Written in this batch, by this attempt. -/
  | versioned (version : Version) (value : V)
  /-- Not written below the reader; taken from the base state. -/
  | base (value : V)
  /-- Nowhere. -/
  | missing
deriving Repr, DecidableEq

namespace Reading

variable {V : Type}

def value? : Reading V → Option V
  | .versioned _ value => some value
  | .base value => some value
  | .missing => none

/-- The attempt that wrote the value, if one of this batch did. -/
def version? : Reading V → Option Version
  | .versioned version _ => some version
  | .base _ => none
  | .missing => none

end Reading

/-- Shared state with one layer of writes a position over a fixed base. -/
structure Store (V : Type) where
  base : KeyMap V := ∅
  /-- The keys written in this batch; none of them without a cell. -/
  written : KeyMap (History V) := ∅

namespace Store

variable {V : Type}

def ofBase (base : KeyMap V) : Store V := { base }

/-- The cells of `key`, none if it was never written. -/
def history (s : Store V) (key : Key) : History V := s.written.getD key ∅

/-- `key` as transaction `reader` sees it. -/
def read (s : Store V) (key : Key) (reader : Nat) : Reading V :=
  match (s.history key).latestBelow? reader with
  | some (index, cell) => .versioned ⟨index, cell.incarnation⟩ cell.value
  | none =>
    match s.base[key]? with
    | some value => .base value
    | none => .missing

/-- A write by `version` is stale if a later incarnation of the same position wrote the key. -/
def isStale (s : Store V) (key : Key) (version : Version) : Bool :=
  match (s.history key)[version.index]? with
  | some cell => version.incarnation < cell.incarnation
  | none => false

/-- Record a write, or refuse a stale one. -/
def write? (s : Store V) (key : Key) (version : Version) (value : V) : Option (Store V) :=
  if s.isStale key version then none
  else some { s with
    written := s.written.insert key
      ((s.history key).insert version.index ⟨version.incarnation, value⟩) }

/-- Record a write; a stale one changes nothing. -/
def write (s : Store V) (key : Key) (version : Version) (value : V) : Store V :=
  (s.write? key version value).getD s

/-- Discard every write of position `index`, and the keys left without a cell. -/
def clear (s : Store V) (index : Nat) : Store V :=
  { s with
    written := s.written.filterMap fun _ history =>
      let left := history.erase index
      if left.isEmpty then none else some left }

/-- The final state: the base, overlaid with the newest write of each key. -/
def snapshot (s : Store V) : KeyMap V :=
  s.base ∪ s.written.filterMap fun _ history => history.latest?.map fun entry => entry.2.value

end Store

end TxBatch
