import Mathlib.Data.List.Basic
import TxBatch.Key
import TxBatch.Proofs.Utf8

/-!
# What the text of a key tells

A key of well-formed bytes is shown as the text that they encode, any other key by two digits a
byte, and either way the bytes can be read off again. Only which way was taken is not told: a key
that is no text looks like the text of its own digits. There are no other pairs of keys that look
alike (`Key.text_eq_text_iff`).
-/

namespace TxBatch

/-! ## Digits -/

namespace Hex

/-- The sixteen digits, those of letters in lower case. -/
def digits : List Char := "0123456789abcdef".toList

/-- The value of a digit: its place among the sixteen. -/
def value? (c : Char) : Option Nat := digits.idxOf? c

/-- The bytes that a row of digits spells, two digits a byte. -/
def decode? : List Char → Option (List UInt8)
  | [] => some []
  | [_] => none
  | high :: low :: rest => do
    let high ← value? high
    let low ← value? low
    let rest ← decode? rest
    return .ofNat (16 * high + low) :: rest

/-- The digits of bytes as bytes again, one an ASCII character. -/
def ascii (bytes : List UInt8) : List UInt8 := (chars bytes).map fun c => .ofNat c.toNat

theorem digit_mem_digits : ∀ n < 16, digit n ∈ digits := by decide

theorem value?_digit : ∀ n < 16, value? (digit n) = some n := by decide

theorem ascii_of_mem_digits {c : Char} (h : c ∈ digits) : c.toNat ≤ 0x7F := by
  have hall : (digits.all fun d => d.toNat ≤ 0x7F) = true := by decide
  exact of_decide_eq_true (List.all_eq_true.mp hall c h)

theorem halves_lt (b : UInt8) : b.toNat / 16 < 16 ∧ b.toNat % 16 < 16 := by
  have := b.toNat_lt
  omega

theorem mem_digits_of_mem_chars {bytes : List UInt8} {c : Char} (h : c ∈ chars bytes) :
    c ∈ digits := by
  induction bytes with
  | nil => cases h
  | cons b rest ih =>
      obtain ⟨hhigh, hlow⟩ := halves_lt b
      simp only [chars, List.mem_cons] at h
      obtain rfl | rfl | h := h
      · exact digit_mem_digits _ hhigh
      · exact digit_mem_digits _ hlow
      · exact ih h

theorem decode?_chars (bytes : List UInt8) : decode? (chars bytes) = some bytes := by
  induction bytes with
  | nil => rfl
  | cons b rest ih =>
      obtain ⟨hhigh, hlow⟩ := halves_lt b
      simp only [chars, decode?, value?_digit _ hhigh, value?_digit _ hlow, ih,
        Option.bind_eq_bind, Option.bind_some, Option.pure_def]
      rw [Nat.div_add_mod, UInt8.ofNat_toNat]

theorem text_injective : Function.Injective text := by
  intro a b h
  have hb := decode?_chars b
  rw [← String.ofList_injective h, decode?_chars] at hb
  exact Option.some.inj hb

/-- Digits are ASCII, so each of them is encoded as itself. -/
theorem encode_text (bytes : List UInt8) : Utf8.encode (text bytes) = ascii bytes := by
  rw [Utf8.encode_eq, text, String.toList_ofList, ascii, List.map_eq_flatMap]
  exact List.flatMap_congr fun c hc =>
    Utf8.encodeChar_of_ascii (ascii_of_mem_digits (mem_digits_of_mem_chars hc))

end Hex

/-! ## Keys -/

namespace Key

open Utf8

theorem text_ofText (t : String) : (ofText t).text = t := by
  simp only [text, ofText, decode?_encode]

theorem encode_text {key : Key} (h : WellFormed key.bytes) : encode key.text = key.bytes := by
  obtain ⟨t, ht⟩ := h.exists_text
  rw [text, decode?_eq_some_iff.mpr ht, ht]

theorem text_eq_hex {key : Key} (h : ¬WellFormed key.bytes) : key.text = Hex.text key.bytes := by
  rw [text, decode?_eq_none_iff.mpr h]

/-- The first key is a text, and it is how the second, which is none, is spelled in hexadecimal. -/
def Spells (a b : Key) : Prop :=
  WellFormed a.bytes ∧ ¬WellFormed b.bytes ∧ a.bytes = Hex.ascii b.bytes

theorem text_eq_text_iff_spells {a b : Key} (ha : WellFormed a.bytes) (hb : ¬WellFormed b.bytes) :
    a.text = b.text ↔ a.Spells b := by
  have hspelled : encode b.text = Hex.ascii b.bytes := by rw [text_eq_hex hb, Hex.encode_text]
  rw [← encode_injective.eq_iff, encode_text ha, hspelled]
  exact ⟨fun h => ⟨ha, hb, h⟩, fun h => h.2.2⟩

/-- Two keys look alike only if they are the same, or one of them spells the other. -/
theorem text_eq_text_iff {a b : Key} : a.text = b.text ↔ a = b ∨ a.Spells b ∨ b.Spells a := by
  constructor
  · intro h
    -- Keys shown in the same way can be told apart; only one of each way can look alike.
    by_cases ha : WellFormed a.bytes <;> by_cases hb : WellFormed b.bytes
    · have hbytes : a.bytes = b.bytes := by rw [← encode_text ha, ← encode_text hb, h]
      exact .inl (congrArg Key.mk hbytes)
    · exact .inr (.inl ((text_eq_text_iff_spells ha hb).mp h))
    · exact .inr (.inr ((text_eq_text_iff_spells hb ha).mp h.symm))
    · rw [text_eq_hex ha, text_eq_hex hb] at h
      exact .inl (congrArg Key.mk (Hex.text_injective h))
  · rintro (rfl | h | h)
    · rfl
    · exact (text_eq_text_iff_spells h.1 h.2.1).mpr h
    · exact ((text_eq_text_iff_spells h.1 h.2.1).mpr h).symm

/-- A key made from a text is shown as that text, and any key of well-formed bytes as the text that
they encode. Other bytes are shown as twice as many lower-case digits, from which they can be read.
So of two different keys that look alike, one is a text and spells the other, which is none. -/
theorem text_unambiguous :
    (∀ t : String, (ofText t).text = t) ∧
    (∀ key : Key, WellFormed key.bytes → encode key.text = key.bytes) ∧
    (∀ key : Key, ¬WellFormed key.bytes →
      key.text.length = 2 * key.bytes.length ∧ (∀ c ∈ key.text.toList, c ∈ Hex.digits) ∧
      Hex.decode? key.text.toList = some key.bytes) ∧
    ∀ a b : Key, a.text = b.text ↔ a = b ∨ a.Spells b ∨ b.Spells a := by
  refine ⟨text_ofText, fun _ => encode_text, ?_, fun _ _ => text_eq_text_iff⟩
  intro key h
  have hchars : key.text.toList = Hex.chars key.bytes := by
    rw [text_eq_hex h, Hex.text, String.toList_ofList]
  rw [← String.length_toList, hchars]
  exact ⟨Hex.length_chars _, fun _ => Hex.mem_digits_of_mem_chars, Hex.decode?_chars _⟩

/-- Two bytes that are no text look like the text of their four digits, and like no third key. -/
theorem lookalikes_unambiguous :
    (WellFormed (ofText "ff01").bytes ∧ encode (ofText "ff01").text = (ofText "ff01").bytes) ∧
    (¬WellFormed [0xFF, 0x01] ∧ Hex.decode? (text ⟨[0xFF, 0x01]⟩).toList = some [0xFF, 0x01]) ∧
    (ofText "ff01").text = text ⟨[0xFF, 0x01]⟩ ∧ (ofText "ff01").Spells ⟨[0xFF, 0x01]⟩ := by
  obtain ⟨-, hformed, hill, halike⟩ := text_unambiguous
  have htext : WellFormed (ofText "ff01").bytes := by decide +kernel
  have hnone : ¬WellFormed [0xFF, 0x01] := by decide +kernel
  have hspells : (ofText "ff01").Spells ⟨[0xFF, 0x01]⟩ := ⟨htext, hnone, by decide +kernel⟩
  exact ⟨⟨htext, hformed _ htext⟩, ⟨hnone, (hill ⟨_⟩ hnone).2.2⟩,
    (halike _ _).mpr (.inr (.inl hspells)), hspells⟩

end Key

end TxBatch
