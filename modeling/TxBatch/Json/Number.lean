import TxBatch.Decimal
import TxBatch.Json.Value
import TxBatch.Word

/-! # What JSON numbers stand for

A whole number is one without point and exponent; minus zero is none. Any number can be read as a
double, but not always as the nearest one: as many leading digits as fit into 64 bits are kept, and
the result is rounded once as a word and once more when it is scaled by a power of ten. A number
too large for a double is refused.
-/

namespace TxBatch.Json.Number

/-- The whole number that is written, if it is written as one. -/
def int? (n : Number) : Option Int :=
  let size := Decimal.value n.whole
  if n.fraction ≠ [] ∨ n.exponent.isSome ∨ (n.negative ∧ size = 0) then none
  else some (if n.negative then -size else size)

def int64? (n : Number) : Option Int64 := n.int?.bind Word.int64?

def uint32? (n : Number) : Option UInt32 := n.int?.bind Word.uint32?

def uint64? (n : Number) : Option UInt64 := n.int?.bind Word.uint64?

/-- Append digits to a word until the next one would overflow it: the word, and the digits that
did not fit. -/
def absorb (word : Nat) : List Nat → Nat × List Nat
  | [] => (word, [])
  | d :: rest =>
    if 10 * word + d < UInt64.size then absorb (10 * word + d) rest else (word, d :: rest)

/-- A power of ten up to the largest that a double holds, rounded to the nearest double. -/
def power (n : Nat) : Float := Float.ofScientific 1 false n

/-- Divide by a power of ten, in steps of at most the largest such power. -/
def divide (x : Float) (n : Nat) : Float :=
  if h : n ≤ 308 then x / power n
  else if x == 0 then 0
  else divide (x / power 308) (n - 308)
termination_by n
decreasing_by omega

/-- A word times a power of ten, unless it is too large. -/
def scale? (word : Nat) (exponent : Int) : Option Float :=
  let x := word.toUInt64.toFloat
  if exponent < 0 then some (divide x exponent.natAbs)
  else if x == 0 then some 0
  else if 308 < exponent then none
  else
    let y := x * power exponent.toNat
    if y.isInf then none else some y

/-- An exponent of this size or more settles the number without its digits. -/
def exponentLimit : Nat := 0x80000000

/-- The number as a double, unless it is too large. -/
def float? (n : Number) : Option Float :=
  let (word, dropped) := absorb 0 n.whole
  let (word, left) := absorb word n.fraction
  let point : Int := dropped.length - (n.fraction.length - left.length : Nat)
  let size :=
    match n.exponent with
    | none => scale? word point
    | some (negative, digits) =>
      let e := Decimal.value digits
      if exponentLimit ≤ e then if word ≠ 0 ∧ !negative then none else some 0
      else scale? word (if negative then point - e else point + e)
  size.map fun x => if n.negative then -x else x

end TxBatch.Json.Number
