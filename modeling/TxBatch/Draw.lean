import TxBatch.ChaCha

/-! # Uniform draws

A draw from `size` values multiplies a random word by `size` and keeps the part above the word; a
word whose remainder lies in the incomplete last stretch is refused and the next one is tried, so
that no value is favoured. Each word is refused with probability below one half. A draw that met
nothing but refusals, which needs a row of words that no stream is expected to hold, settles for
the smallest value. That bound is there to make the draws total; what is drawn for takes any source
of draws.
-/

namespace TxBatch.Draw

/-- A source of draws: a number below a size, and the state that the next draw starts from. -/
structure Source (G : Type) where
  below32 : (size : Nat) → G → Nat × G
  below64 : (size : Nat) → G → Nat × G

/-- How many words a draw tries. -/
def patience : Nat := 1024

/-- The largest remainder that is accepted when drawing one of `size` values with one of `span`
words: `size` is doubled as long as a word can hold it, and one is taken off. -/
def zone (span size : Nat) : Nat := size <<< (span.log2 - 1 - size.log2) - 1

/-- The value below `size` that a word gives, unless the word is refused. -/
def accept? (span size word : Nat) : Option Nat :=
  if size = span then some word
  else if word * size % span ≤ zone span size then some (word * size / span)
  else none

/-- A value below `size` from 32-bit words. -/
def below32 (size : Nat) : (tries : Nat) → Generator → Nat × Generator
  | 0, g => (0, g)
  | tries + 1, g =>
    let (word, g) := g.next32
    match accept? UInt32.size size word.toNat with
    | some value => (value, g)
    | none => below32 size tries g

/-- A value below `size` from 64-bit words. -/
def below64 (size : Nat) : (tries : Nat) → Generator → Nat × Generator
  | 0, g => (0, g)
  | tries + 1, g =>
    let (word, g) := g.next64
    match accept? UInt64.size size word.toNat with
    | some value => (value, g)
    | none => below64 size tries g

def uniform : Source Generator := ⟨(below32 · patience), (below64 · patience)⟩

end TxBatch.Draw
