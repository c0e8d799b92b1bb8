import Mathlib.Logic.Function.Basic
import TxBatch.Utf8

/-!
# Well-formed UTF-8

Bytes are well formed if they are put together from forms, the byte patterns of single characters.
A form is told by ranges of bytes alone: the first byte says how many follow, and at four first
bytes the range of the second one is cut short, which leaves out overlong forms, surrogates and
values above `U+10FFFF`.

The forms are those of the characters, one each (`form_encodeChar`, `Form.exists_char`). So the
well-formed byte strings are the encodings of texts, and a text is read from its own encoding and
from nothing else (`decode?_eq_some_iff`).
-/

namespace TxBatch.Utf8

/-- A byte behind the first one of a character. -/
def Trail (b : UInt8) : Prop := 0x80 ≤ b ∧ b ≤ 0xBF

inductive Form : List UInt8 → Prop where
  | one {a : UInt8} : a ≤ 0x7F → Form [a]
  /-- First bytes `C0` and `C1` would be overlong. -/
  | two {a b : UInt8} : 0xC2 ≤ a → a ≤ 0xDF → Trail b → Form [a, b]
  /-- Behind `E0` a low second byte would be overlong, behind `ED` a high one a surrogate. -/
  | three {a b c : UInt8} : 0xE0 ≤ a → a ≤ 0xEF → (a = 0xE0 → 0xA0 ≤ b) → (a = 0xED → b ≤ 0x9F) →
      Trail b → Trail c → Form [a, b, c]
  /-- Behind `F0` a low second byte would be overlong, behind `F4` a high one too large. -/
  | four {a b c d : UInt8} : 0xF0 ≤ a → a ≤ 0xF4 → (a = 0xF0 → 0x90 ≤ b) → (a = 0xF4 → b ≤ 0x8F) →
      Trail b → Trail c → Trail d → Form [a, b, c, d]

inductive WellFormed : List UInt8 → Prop where
  | nil : WellFormed []
  | cons {form rest : List UInt8} : Form form → WellFormed rest → WellFormed (form ++ rest)

/-! ## Forms and characters -/

theorem form_encodeChar (c : Char) : Form (String.utf8EncodeChar c) := by
  have hvalid : c.val.toNat < 0xD800 ∨ 0xDFFF < c.val.toNat ∧ c.val.toNat < 0x110000 := c.valid
  rw [String.utf8EncodeChar]
  generalize c.val.toNat = v at hvalid
  -- One way a length; what a length leaves out of `hvalid` is what bounds the second byte.
  split
  · exact .one (by simp only [UInt8.le_iff_toNat_le, UInt8.toNat_ofNat', UInt8.reduceToNat]; omega)
  split
  · refine .two ?_ ?_ ⟨?_, ?_⟩ <;> simp [UInt8.le_iff_toNat_le] <;> omega
  split
  · refine .three ?_ ?_ ?_ ?_ ⟨?_, ?_⟩ ⟨?_, ?_⟩ <;>
      simp [UInt8.le_iff_toNat_le, ← UInt8.toNat_inj] <;> omega
  · refine .four ?_ ?_ ?_ ?_ ⟨?_, ?_⟩ ⟨?_, ?_⟩ ⟨?_, ?_⟩ <;>
      simp [UInt8.le_iff_toNat_le, ← UInt8.toNat_inj] <;> omega

theorem encodeChar_of_ascii {c : Char} (h : c.toNat ≤ 0x7F) :
    String.utf8EncodeChar c = [.ofNat c.toNat] := by
  rw [String.utf8EncodeChar]
  exact if_pos h

theorem exists_char {v : Nat} (h : v.isValidChar) : ∃ c : Char, c.val.toNat = v :=
  ⟨Char.ofNatAux v h, rfl⟩

/-- Every form is that of a character: the bits behind the marks of its bytes are a value that the
ranges keep valid, and large enough to need as many bytes. -/
theorem Form.exists_char {bytes : List UInt8} (h : Form bytes) :
    ∃ c : Char, String.utf8EncodeChar c = bytes := by
  cases h with
  | @one a ha =>
      have ha : a.toNat ≤ 0x7F := UInt8.le_iff_toNat_le.mp ha
      obtain ⟨ch, hch⟩ := Utf8.exists_char (v := a.toNat) (.inl (by omega))
      refine ⟨ch, ?_⟩
      rw [String.utf8EncodeChar, hch, if_pos ha, UInt8.ofNat_toNat]
  | @two a b hlow hhigh hb =>
      simp only [Trail, UInt8.le_iff_toNat_le, UInt8.reduceToNat] at hlow hhigh hb
      obtain ⟨ch, hch⟩ := Utf8.exists_char (v := a.toNat % 32 * 64 + b.toNat % 64)
        (.inl (by omega))
      refine ⟨ch, ?_⟩
      simp only [String.utf8EncodeChar, hch]
      rw [if_neg (by omega), if_pos (by omega)]
      simp [← UInt8.toNat_inj]
      omega
  | @three a b c hlow hhigh hshort hsurrogate hb hc =>
      simp only [Trail, UInt8.le_iff_toNat_le, UInt8.reduceToNat, ← UInt8.toNat_inj]
        at hlow hhigh hshort hsurrogate hb hc
      obtain ⟨ch, hch⟩ := Utf8.exists_char
        (v := a.toNat % 16 * 4096 + b.toNat % 64 * 64 + c.toNat % 64)
        (by unfold Nat.isValidChar; omega)
      refine ⟨ch, ?_⟩
      simp only [String.utf8EncodeChar, hch]
      rw [if_neg (by omega), if_neg (by omega), if_pos (by omega)]
      simp [← UInt8.toNat_inj]
      omega
  | @four a b c d hlow hhigh hshort hlimit hb hc hd =>
      simp only [Trail, UInt8.le_iff_toNat_le, UInt8.reduceToNat, ← UInt8.toNat_inj]
        at hlow hhigh hshort hlimit hb hc hd
      obtain ⟨ch, hch⟩ := Utf8.exists_char
        (v := a.toNat % 8 * 262144 + b.toNat % 64 * 4096 + c.toNat % 64 * 64 + d.toNat % 64)
        (by unfold Nat.isValidChar; omega)
      refine ⟨ch, ?_⟩
      simp only [String.utf8EncodeChar, hch]
      rw [if_neg (by omega), if_neg (by omega), if_neg (by omega)]
      simp [← UInt8.toNat_inj]
      omega

/-! ## Byte strings and texts -/

theorem encode_eq (text : String) : encode text = text.toList.flatMap String.utf8EncodeChar := by
  have hbytes : text.toByteArray = text.toList.utf8Encode := by
    rw [← String.toByteArray_ofList, String.ofList_toList]
  rw [encode, String.toUTF8_eq_toByteArray, hbytes]
  exact List.toList_data_toByteArray

theorem decode?_encode (text : String) : decode? (encode text) = some text := by
  rw [decode?, encode, Array.toArray_toList, String.fromUTF8?]
  exact dif_pos text.isValidUTF8

theorem encode_injective : Function.Injective encode := by
  intro a b h
  have hb := decode?_encode b
  rw [← h, decode?_encode] at hb
  exact Option.some.inj hb

/-- A text is read from its encoding and from no other bytes. -/
theorem decode?_eq_some_iff {bytes : List UInt8} {text : String} :
    decode? bytes = some text ↔ encode text = bytes := by
  constructor
  · intro h
    unfold decode? String.fromUTF8? at h
    split at h
    · cases h
      rfl
    · cases h
  · rintro rfl
    exact decode?_encode text

theorem wellFormed_encode (text : String) : WellFormed (encode text) := by
  rw [encode_eq]
  induction text.toList with
  | nil => exact .nil
  | cons c cs ih => exact .cons (form_encodeChar c) ih

theorem WellFormed.exists_text {bytes : List UInt8} (h : WellFormed bytes) :
    ∃ text, encode text = bytes := by
  suffices ∃ cs : List Char, cs.flatMap String.utf8EncodeChar = bytes by
    obtain ⟨cs, hcs⟩ := this
    exact ⟨String.ofList cs, by rw [encode_eq, String.toList_ofList, hcs]⟩
  induction h with
  | nil => exact ⟨[], rfl⟩
  | cons hform _ ih =>
      obtain ⟨c, rfl⟩ := hform.exists_char
      obtain ⟨cs, rfl⟩ := ih
      exact ⟨c :: cs, rfl⟩

theorem decode?_eq_none_iff {bytes : List UInt8} : decode? bytes = none ↔ ¬WellFormed bytes := by
  rw [Option.eq_none_iff_forall_ne_some]
  constructor
  · intro hnone hformed
    obtain ⟨text, htext⟩ := hformed.exists_text
    exact hnone text (decode?_eq_some_iff.mpr htext)
  · intro hformed text htext
    exact hformed (decode?_eq_some_iff.mp htext ▸ wellFormed_encode text)

instance (bytes : List UInt8) : Decidable (WellFormed bytes) :=
  decidable_of_iff ((decode? bytes).isSome = true) <| by
    rw [← not_iff_not, ← decode?_eq_none_iff, Bool.not_eq_true, Option.isSome_eq_false_iff,
      Option.isNone_iff_eq_none]

example : WellFormed [0xF0, 0x9F, 0x98, 0x80] ∧ ¬WellFormed [0xC0, 0xAF] ∧
    ¬WellFormed [0xED, 0xA0, 0x80] ∧ ¬WellFormed [0xF4, 0x90, 0x80, 0x80] := by decide +kernel

end TxBatch.Utf8
