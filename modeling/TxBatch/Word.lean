/-! # Numbers that fit into words

Whole numbers are read without a limit and then fitted into a word; one that does not fit gives
nothing.
-/

namespace TxBatch.Word

def int64? (i : Int) : Option Int64 :=
  if -0x8000000000000000 ≤ i ∧ i < 0x8000000000000000 then some (Int64.ofInt i) else none

def uint32? (i : Int) : Option UInt32 :=
  if 0 ≤ i ∧ i.toNat < UInt32.size then some i.toNat.toUInt32 else none

def uint64? (i : Int) : Option UInt64 :=
  if 0 ≤ i ∧ i.toNat < UInt64.size then some i.toNat.toUInt64 else none

end TxBatch.Word
