/-! # JSON values

A value keeps all that its text says: numbers keep their digits, since what they may stand for is
decided by those who read them, and an object keeps its members in order, repeated ones too.
-/

namespace TxBatch.Json

structure Number where
  /-- A minus sign stands in front. -/
  negative : Bool := false
  /-- Digits in front of the point, highest first. -/
  whole : List Nat
  /-- Digits behind the point; none if there is no point. -/
  fraction : List Nat := []
  /-- Sign and digits of the exponent, if there is one. -/
  exponent : Option (Bool × List Nat) := none
deriving Repr, DecidableEq

/-- A string; none stands for one with an escaped surrogate that has no partner. Such a string is
well formed, but it is no text. -/
abbrev Text := Option String

inductive Value where
  | null
  | bool (value : Bool)
  | number (value : Number)
  | string (value : Text)
  | array (items : List Value)
  | object (members : List (Text × Value))
deriving Repr

end TxBatch.Json
