/-! # A stream of random words

The ChaCha stream cipher with twelve rounds, used as a generator: the key comes from a 64-bit seed,
blocks are numbered from zero by a 64-bit counter, and the sixteen words of a block are handed out
in order. The same seed always gives the same words.
-/

namespace TxBatch

namespace ChaCha

/-- The sixteen words that a block is mixed from. -/
abbrev Matrix := Vector UInt32 16

/-- The word with its highest `places` bits moved to the low end; `places` is below 32. -/
def rotateLeft (word places : UInt32) : UInt32 := word <<< places ||| word >>> (32 - places)

def quarter (m : Matrix) (a b c d : Fin 16) : Matrix :=
  let m := m.set a (m[a] + m[b])
  let m := m.set d (rotateLeft (m[d] ^^^ m[a]) 16)
  let m := m.set c (m[c] + m[d])
  let m := m.set b (rotateLeft (m[b] ^^^ m[c]) 12)
  let m := m.set a (m[a] + m[b])
  let m := m.set d (rotateLeft (m[d] ^^^ m[a]) 8)
  let m := m.set c (m[c] + m[d])
  m.set b (rotateLeft (m[b] ^^^ m[c]) 7)

/-- Two rounds: the four columns, then the four diagonals. -/
def doubleRound (m : Matrix) : Matrix :=
  let m := quarter m 0 4 8 12
  let m := quarter m 1 5 9 13
  let m := quarter m 2 6 10 14
  let m := quarter m 3 7 11 15
  let m := quarter m 0 5 10 15
  let m := quarter m 1 6 11 12
  let m := quarter m 2 7 8 13
  quarter m 3 4 9 14

def mix (m : Matrix) : Matrix :=
  Nat.repeat doubleRound 6 m

/-- The matrix of a block: four constants, the key, the block's number and an empty nonce. -/
def matrix (key : Vector UInt32 8) (number : UInt64) : Matrix :=
  #v[0x61707865, 0x3320646e, 0x79622d32, 0x6b206574,
    key[0], key[1], key[2], key[3], key[4], key[5], key[6], key[7],
    number.toUInt32, (number >>> 32).toUInt32, 0, 0]

def block (key : Vector UInt32 8) (number : UInt64) : List UInt32 :=
  let m := matrix key number
  (Vector.zipWith (· + ·) (mix m) m).toList

end ChaCha

/-- A stream of words: what is left of the current block, and the number of the next. -/
structure Generator where
  key : Vector UInt32 8
  number : UInt64 := 0
  words : List UInt32 := []

namespace Generator

/-- One step of the congruential generator that stretches seeds. -/
def stretch (state : UInt64) : UInt64 := state * 6364136223846793005 + 11634580027462260723

/-- The key word that a stretching state gives: its high bits, rotated by its highest. -/
def keyWord (state : UInt64) : UInt32 :=
  let x := (((state >>> 18) ^^^ state) >>> 27).toUInt32
  let places := (state >>> 59).toUInt32
  x >>> places ||| x <<< (32 - places)

/-- Stretch a state once more for every entry, oldest first. -/
def keyWords : Nat → UInt64 → List UInt32
  | 0, _ => []
  | count + 1, state => keyWord (stretch state) :: keyWords count (stretch state)

theorem length_keyWords (count : Nat) (state : UInt64) :
    (keyWords count state).length = count := by
  induction count generalizing state with
  | zero => rfl
  | succ count ih => rw [keyWords, List.length_cons, ih]

def ofSeed (seed : UInt64) : Generator where
  key := ⟨(keyWords 8 seed).toArray, by rw [List.size_toArray, length_keyWords]⟩

def next32 (g : Generator) : UInt32 × Generator :=
  match g.words with
  | word :: rest => (word, { g with words := rest })
  | [] =>
    let fresh := ChaCha.block g.key g.number
    (fresh.headD 0, { g with number := g.number + 1, words := fresh.tail })

/-- The next two words as one, the low half first. -/
def next64 (g : Generator) : UInt64 × Generator :=
  let (low, g) := g.next32
  let (high, g) := g.next32
  (high.toUInt64 <<< 32 ||| low.toUInt64, g)

end Generator

end TxBatch
