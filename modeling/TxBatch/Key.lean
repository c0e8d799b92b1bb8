import Std.Data.ExtTreeMap
import Std.Data.ExtTreeSet
import TxBatch.Hex
import TxBatch.Utf8

/-! # State keys

A key is a byte string. Keys are ordered by their bytes, the shorter of two that agree first; this
is the order in which maps and sets of keys list their content. Both are extensional: two maps
that answer every look-up alike are equal, so "the same memory" is an equation.
-/

namespace TxBatch

/-- The name of one piece of shared state. -/
structure Key where
  bytes : List UInt8
deriving Repr, DecidableEq, Inhabited

namespace Key

def ofText (text : String) : Key := ⟨Utf8.encode text⟩

/-- How a key is shown: as the text that its bytes encode, or in hexadecimal if they encode none. -/
def text (key : Key) : String :=
  match Utf8.decode? key.bytes with
  | some text => text
  | none => Hex.text key.bytes

instance : Ord Key := ⟨fun a b => compare a.bytes b.bytes⟩

theorem compare_def (a b : Key) : compare a b = compare a.bytes b.bytes := rfl

instance : Std.TransOrd Key where
  eq_swap := by
    intro a b
    rw [compare_def, compare_def]
    exact Std.OrientedCmp.eq_swap
  isLE_trans := by
    intro a b c h₁ h₂
    rw [compare_def] at *
    exact Std.TransCmp.isLE_trans h₁ h₂

instance : Std.LawfulEqOrd Key where
  eq_of_compare := by
    intro ⟨a⟩ ⟨b⟩ h
    rw [compare_def] at h
    exact congrArg Key.mk (Std.LawfulEqOrd.eq_of_compare h)

end Key

abbrev KeySet := Std.ExtTreeSet Key

abbrev KeyMap (V : Type) := Std.ExtTreeMap Key V

end TxBatch
