/-! # Hexadecimal text of bytes

Two lower-case digits a byte, high half first, so the text has twice as many characters as there
are bytes and names them without loss.
-/

namespace TxBatch.Hex

/-- Digit of a value below 16: ten decimal digits, then `a` to `f`. -/
def digit (n : Nat) : Char :=
  if n < 10 then Char.ofNat (n + 48) else Char.ofNat (n + 87)

/-- The bytes as hexadecimal characters, first byte first. -/
def chars : List UInt8 → List Char
  | [] => []
  | b :: rest => digit (b.toNat / 16) :: digit (b.toNat % 16) :: chars rest

def text (bytes : List UInt8) : String := String.ofList (chars bytes)

theorem length_chars (bytes : List UInt8) : (chars bytes).length = 2 * bytes.length := by
  induction bytes with
  | nil => rfl
  | cons b rest ih => simp only [chars, List.length_cons, ih]; omega

end TxBatch.Hex
