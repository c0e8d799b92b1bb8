/-! # Bytes as text

Reading is strict: overlong forms, surrogates, values above `U+10FFFF` and cut-off sequences are
not text. Writing is the encoding of the standard library, which reading inverts.
-/

namespace TxBatch.Utf8

/-- The text that the bytes encode, if they are well formed. -/
def decode? (bytes : List UInt8) : Option String :=
  String.fromUTF8? ⟨bytes.toArray⟩

def encode (text : String) : List UInt8 :=
  text.toUTF8.data.toList

end TxBatch.Utf8
