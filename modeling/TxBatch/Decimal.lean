/-! # Decimal digits

Whole numbers as rows of decimal digits, highest first. `digits` writes a number without leading
zeros and `value` reads any row, so reading what was written gives the number back and no two
numbers are written alike.
-/

namespace TxBatch.Decimal

/-- The digits of a number, without leading zeros; zero is one digit. -/
def digits (n : Nat) : List Nat :=
  if n < 10 then [n] else digits (n / 10) ++ [n % 10]

/-- The number that a row of digits stands for. -/
def value (ds : List Nat) : Nat := ds.foldl (fun sum d => 10 * sum + d) 0

theorem value_append_singleton (ds : List Nat) (d : Nat) :
    value (ds ++ [d]) = 10 * value ds + d := by
  simp [value, List.foldl_append]

theorem value_digits (n : Nat) : value (digits n) = n := by
  induction n using Nat.strongRecOn with
  | ind n ih =>
    rw [digits]
    split
    · simp [value]
    · rw [value_append_singleton, ih (n / 10) (by omega)]
      omega

theorem lt_ten_of_mem_digits {n d : Nat} (h : d ∈ digits n) : d < 10 := by
  induction n using Nat.strongRecOn with
  | ind n ih =>
    rw [digits] at h
    split at h
    · rw [List.mem_singleton] at h
      omega
    · rcases List.mem_append.1 h with h | h
      · exact ih (n / 10) (by omega) h
      · rw [List.mem_singleton] at h
        omega

def char (d : Nat) : Char := Char.ofNat (48 + d)

def ofChar (c : Char) : Nat := c.toNat - 48

def chars (n : Nat) : List Char := (digits n).map char

def text (n : Nat) : String := String.ofList (chars n)

/-- A whole number as characters, with a sign in front if it is below zero. -/
def intChars (i : Int) : List Char := if i < 0 then '-' :: chars i.natAbs else chars i.natAbs

def intText (i : Int) : String := String.ofList (intChars i)

/-- The digits at the front of a text, and what follows them. -/
def span (cs : List Char) : List Nat × List Char :=
  ((cs.takeWhile Char.isDigit).map ofChar, cs.dropWhile Char.isDigit)

theorem span_length (cs : List Char) :
    (span cs).1.length + (span cs).2.length = cs.length := by
  rw [span, List.length_map, ← List.length_append, List.takeWhile_append_dropWhile]

end TxBatch.Decimal
