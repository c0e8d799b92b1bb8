/-! # Versions

A version names one execution attempt: which transaction of the batch, and how many times it had
been sent back before.
-/

namespace TxBatch

/-- One execution attempt of a transaction. -/
structure Version where
  /-- Position of the transaction in its batch. -/
  index : Nat
  /-- How often it was sent back before this attempt. -/
  incarnation : Nat
deriving Repr, DecidableEq, Inhabited

namespace Version

/-- By position, and by incarnation within a position. -/
instance : Ord Version :=
  ⟨compareLex (compareOn Version.index) (compareOn Version.incarnation)⟩

def text (v : Version) : String := s!"({v.index}, {v.incarnation})"

end Version

end TxBatch
