import TxBatch.Decimal

/-! # The shortest decimal of a double

Of all decimals that read back as a given double, the one with the fewest digits is shown, and of
those the nearest. A double is a whole number times a power of two; the decimals that read back as
it lie between the midpoints to its two neighbours, the midpoints included if that whole number is
even. For one digit, two digits and so on, only the two decimals next to the double itself can be
the nearest inside, so trying those is enough. All arithmetic is exact.
-/

namespace TxBatch.Decimal

/-- A positive fraction of whole numbers. -/
structure Ratio where
  num : Nat
  den : Nat

def Ratio.le (a b : Ratio) : Bool := a.num * b.den ≤ b.num * a.den

/-- Whole multiple of a power of ten, as a fraction. -/
def scaled (c : Nat) (k : Int) : Ratio :=
  if 0 ≤ k then ⟨c * Nat.pow 10 k.toNat, 1⟩ else ⟨c, Nat.pow 10 (-k).toNat⟩

/-- A positive double in exact terms: four times its value and four times the two midpoints around
it share the denominator. -/
structure Exact where
  value : Ratio
  low : Ratio
  high : Ratio
  /-- Midpoints read back as this double. -/
  closed : Bool

/-- The exact terms of `mantissa * 2 ^ exponent`. `narrow` says that the neighbour below is only
half as far away as the one above. -/
def Exact.of (mantissa : Nat) (exponent : Int) (narrow : Bool) : Exact :=
  let up : Nat := if 0 ≤ exponent then 1 <<< exponent.toNat else 1
  let den : Nat := if 0 ≤ exponent then 4 else 4 <<< (-exponent).toNat
  { value := ⟨4 * mantissa * up, den⟩
    low := ⟨(4 * mantissa - if narrow then 1 else 2) * up, den⟩
    high := ⟨(4 * mantissa + 2) * up, den⟩
    closed := mantissa % 2 = 0 }

/-- Whether a decimal reads back as the double. -/
def Exact.holds (x : Exact) (d : Ratio) : Bool :=
  if x.closed then x.low.le d && d.le x.high else !d.le x.low && !x.high.le d

/-- The least power of ten above a positive fraction. -/
def magnitude (r : Ratio) : Int :=
  if r.den ≤ r.num then (digits (r.num / r.den)).length
  else
    let inverse := (r.den - 1) / r.num
    1 - (if inverse = 0 then 0 else (digits inverse).length : Nat)

def distance (a b : Ratio) : Nat :=
  (a.num * b.den - b.num * a.den) + (b.num * a.den - a.num * b.den)

/-- Of the two decimals with `count` digits next to the double, the nearer one that reads back; of
two that are equally near, the one that ends in an even digit. -/
def nearest? (x : Exact) (top : Int) (count : Nat) : Option (Nat × Int) :=
  let k := top - count
  let unit := scaled 1 k
  let below := x.value.num * unit.den / (x.value.den * unit.num)
  let lower := scaled below k
  let upper := scaled (below + 1) k
  match x.holds lower && below ≠ 0, x.holds upper with
  | true, true =>
    let toLower := distance x.value lower
    let toUpper := distance x.value upper
    if toLower < toUpper ∨ (toLower = toUpper ∧ below % 2 = 0) then some (below, k)
    else some (below + 1, k)
  | true, false => some (below, k)
  | false, true => some (below + 1, k)
  | false, false => none

/-- Try `count` digits, then one more, as long as tries are left. -/
def search (x : Exact) (top : Int) : (tries count : Nat) → Nat × Int
  | 0, _ => (0, 0)
  | tries + 1, count =>
    match nearest? x top count with
    | some found => found
    | none => search x top tries (count + 1)

/-- A whole number with the power of ten behind it, without trailing zeros. -/
def trim (c : Nat) (k : Int) : Nat × Int :=
  if h : c ≠ 0 ∧ c % 10 = 0 then trim (c / 10) (k + 1) else (c, k)
termination_by c
decreasing_by omega

/-- The leading bit that normal doubles have and do not store. -/
def implicitBit : Nat := 0x10000000000000

def signBit : Nat := 0x8000000000000000

/-- The digits and the power of ten of a positive finite double, from its bits. Seventeen digits
always suffice. -/
def shortest (bits : Nat) : Nat × Int :=
  let field : Nat := bits / implicitBit % 2048
  let fraction : Nat := bits % implicitBit
  let x :=
    if field = 0 then Exact.of fraction (-1074) false
    else Exact.of (implicitBit + fraction) (field - 1075) (fraction = 0 ∧ 1 < field)
  let (c, k) := search x (magnitude x.value) 17 1
  trim c k

structure Layout where
  /-- The point is placed among the digits if its position is above this, ... -/
  least : Int
  /-- ... and not above this; else an exponent is written. -/
  most : Int

/-- Digits `ds` with the point behind the first `point` of them. -/
def Layout.place (layout : Layout) (ds : List Nat) (point : Int) : List Char :=
  let cs := ds.map char
  let zeros (n : Int) : List Char := List.replicate n.toNat '0'
  if ds.length ≤ point ∧ point ≤ layout.most then cs ++ zeros (point - ds.length) ++ ['.', '0']
  else if 0 < point ∧ point ≤ layout.most then
    cs.take point.toNat ++ '.' :: cs.drop point.toNat
  else if layout.least < point ∧ point ≤ 0 then '0' :: '.' :: zeros (-point) ++ cs
  else
    let exponent := 'e' :: intChars (point - 1)
    match cs with
    | [c] => c :: exponent
    | c :: rest => c :: '.' :: rest ++ exponent
    | [] => exponent

def Layout.text (layout : Layout) (x : Float) : String :=
  let bits := x.toBits.toNat
  let sign := if signBit ≤ bits then ['-'] else []
  let magnitude := bits % signBit
  let body :=
    if magnitude = 0 then ['0', '.', '0']
    else
      let (c, k) := shortest magnitude
      layout.place (digits c) ((digits c).length + k)
  String.ofList (sign ++ body)

end TxBatch.Decimal
