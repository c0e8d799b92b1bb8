import TxBatch.Decimal
import TxBatch.Json.Value

/-! # JSON tokens

A text is cut into tokens, with space, tab, line feed and carriage return between them. Everything
else that a token cannot begin with is refused, and so are leading zeros, control characters inside
strings and unknown escapes. Every token takes at least one character, which is why cutting ends.
-/

namespace TxBatch.Json

inductive Token where
  | openObject
  | closeObject
  | openArray
  | closeArray
  | comma
  | colon
  | null
  | bool (value : Bool)
  | number (value : Number)
  | string (value : Text)
deriving Repr, DecidableEq

namespace Token

/-- The characters between tokens. -/
def isBlank (c : Char) : Bool := c = ' ' || c = '\t' || c = '\n' || c = '\r'

/-! ## Numbers -/

/-- Digits behind a point, if there is one; a point without a digit is refused. -/
def fraction? : List Char → Option (List Nat × List Char)
  | '.' :: cs =>
    let (digits, rest) := Decimal.span cs
    if digits.isEmpty then none else some (digits, rest)
  | cs => some ([], cs)

def exponentDigits? (negative : Bool) (cs : List Char) :
    Option (Option (Bool × List Nat) × List Char) :=
  let (digits, rest) := Decimal.span cs
  if digits.isEmpty then none else some (some (negative, digits), rest)

def exponent? : List Char → Option (Option (Bool × List Nat) × List Char)
  | c :: cs =>
    if c = 'e' ∨ c = 'E' then
      match cs with
      | '-' :: cs => exponentDigits? true cs
      | '+' :: cs => exponentDigits? false cs
      | cs => exponentDigits? false cs
    else some (none, c :: cs)
  | [] => some (none, [])

/-- Digits in front of a point: one zero, or digits that do not begin with zero. -/
def wholeOk : List Nat → Bool
  | [] => false
  | [_] => true
  | d :: _ => d ≠ 0

/-- A number behind its sign. -/
def unsigned? (negative : Bool) (cs : List Char) : Option (Number × List Char) :=
  let (whole, cs) := Decimal.span cs
  if wholeOk whole then
    (fraction? cs).bind fun (fraction, cs) =>
      (exponent? cs).map fun (exponent, cs) => ({ negative, whole, fraction, exponent }, cs)
  else none

/-! ## Strings -/

/-- A piece of a string: a character, or a 16-bit code written as an escape. -/
inductive Piece where
  | char (c : Char)
  | code (unit : Nat)

def hexValue? (c : Char) : Option Nat :=
  if c.isDigit then some (c.toNat - '0'.toNat)
  else if 'a' ≤ c ∧ c ≤ 'f' then some (c.toNat - 'a'.toNat + 10)
  else if 'A' ≤ c ∧ c ≤ 'F' then some (c.toNat - 'A'.toNat + 10)
  else none

def hexCode? (a b c d : Char) : Option Nat := do
  return ((← hexValue? a) * 16 + (← hexValue? b)) * 256 + (← hexValue? c) * 16 + (← hexValue? d)

/-- The character of a one-letter escape. -/
def escape? (c : Char) : Option Char :=
  match c with
  | '"' => some '"'
  | '\\' => some '\\'
  | '/' => some '/'
  | 'b' => some '\x08'
  | 'f' => some '\x0c'
  | 'n' => some '\n'
  | 'r' => some '\r'
  | 't' => some '\t'
  | _ => none

/-- The pieces up to the closing quote, and what follows it. `done` holds earlier pieces, newest
first. -/
def pieces? (done : List Piece) : List Char → Option (List Piece × List Char)
  | [] => none
  | '"' :: rest => some (done.reverse, rest)
  | '\\' :: 'u' :: a :: b :: c :: d :: rest =>
    match hexCode? a b c d with
    | some unit => pieces? (.code unit :: done) rest
    | none => none
  | '\\' :: c :: rest =>
    match escape? c with
    | some c => pieces? (.char c :: done) rest
    | none => none
  | c :: rest => if c < ' ' then none else pieces? (.char c :: done) rest

/-- The text of pieces: an escaped high surrogate joins with the escaped low one behind it, and
stands for nothing without it. -/
def join? (done : List Char) : List Piece → Text
  | [] => some (String.ofList done.reverse)
  | .char c :: rest => join? (c :: done) rest
  | .code high :: rest =>
    if high < 0xD800 ∨ 0xDFFF < high then join? (Char.ofNat high :: done) rest
    else if 0xDC00 ≤ high then none
    else
      match rest with
      | .code low :: rest =>
        if 0xDC00 ≤ low ∧ low ≤ 0xDFFF then
          join? (Char.ofNat (0x10000 + (high - 0xD800) * 0x400 + (low - 0xDC00)) :: done) rest
        else none
      | _ => none

/-! ## Tokens -/

/-- The first token of a text that begins with one, and what follows it. -/
def first? : List Char → Option (Token × List Char)
  | '\x7b' :: rest => some (.openObject, rest)
  | '\x7d' :: rest => some (.closeObject, rest)
  | '[' :: rest => some (.openArray, rest)
  | ']' :: rest => some (.closeArray, rest)
  | ',' :: rest => some (.comma, rest)
  | ':' :: rest => some (.colon, rest)
  | 'n' :: 'u' :: 'l' :: 'l' :: rest => some (.null, rest)
  | 't' :: 'r' :: 'u' :: 'e' :: rest => some (.bool true, rest)
  | 'f' :: 'a' :: 'l' :: 's' :: 'e' :: rest => some (.bool false, rest)
  | '"' :: rest => (pieces? [] rest).map fun (pieces, rest) => (.string (join? [] pieces), rest)
  | '-' :: rest => (unsigned? true rest).map fun (n, rest) => (.number n, rest)
  | cs => (unsigned? false cs).map fun (n, rest) => (.number n, rest)

theorem fraction?_length {cs rest : List Char} {digits : List Nat}
    (h : fraction? cs = some (digits, rest)) : rest.length ≤ cs.length := by
  unfold fraction? at h
  split at h
  · rename_i cs
    have := Decimal.span_length cs
    grind
  · grind

theorem exponentDigits?_length {negative : Bool} {cs rest : List Char}
    {e : Option (Bool × List Nat)} (h : exponentDigits? negative cs = some (e, rest)) :
    rest.length ≤ cs.length := by
  have := Decimal.span_length cs
  unfold exponentDigits? at h
  grind

theorem exponent?_length {cs rest : List Char} {e : Option (Bool × List Nat)}
    (h : exponent? cs = some (e, rest)) : rest.length ≤ cs.length := by
  unfold exponent? at h
  split at h
  · split at h
    · split at h
      all_goals
        have := exponentDigits?_length h
        simp only [List.length_cons] at *
        omega
    · grind
  · grind

theorem unsigned?_length {negative : Bool} {cs rest : List Char} {n : Number}
    (h : unsigned? negative cs = some (n, rest)) : rest.length < cs.length := by
  have hspan := Decimal.span_length cs
  unfold unsigned? at h
  split at h
  rename_i whole left hw
  split at h
  · rename_i hok
    have hpos : 0 < whole.length := by
      cases whole with
      | nil => simp [wholeOk] at hok
      | cons => simp
    simp only [Option.bind_eq_some_iff, Option.map_eq_some_iff] at h
    obtain ⟨⟨f, cs₁⟩, hf, ⟨e, cs₂⟩, he, heq⟩ := h
    have h₁ := fraction?_length hf
    have h₂ : cs₂.length ≤ cs₁.length := exponent?_length he
    rw [hw] at hspan
    simp only [Prod.mk.injEq] at heq
    obtain ⟨-, rfl⟩ := heq
    simp only at hspan
    omega
  · simp at h

theorem pieces?_length {done : List Piece} {cs rest : List Char} {ps : List Piece}
    (h : pieces? done cs = some (ps, rest)) : rest.length < cs.length := by
  fun_induction pieces? done cs with
  | case1 => simp at h
  | case2 => grind
  | case3 _ _ _ _ _ _ _ _ ih =>
    have := ih h
    simp only [List.length_cons]
    omega
  | case4 => simp at h
  | case5 _ _ _ _ _ _ ih =>
    have := ih h
    simp only [List.length_cons]
    omega
  | case6 => simp at h
  | case7 => simp at h
  | case8 _ _ _ _ _ _ _ ih =>
    have := ih h
    simp only [List.length_cons]
    omega

theorem first?_length {cs rest : List Char} {t : Token}
    (h : first? cs = some (t, rest)) : rest.length < cs.length := by
  unfold first? at h
  split at h
  case h_10 cs =>
    simp only [Option.map_eq_some_iff] at h
    obtain ⟨⟨ps, r⟩, hp, heq⟩ := h
    have := pieces?_length hp
    grind
  case h_11 cs =>
    simp only [Option.map_eq_some_iff] at h
    obtain ⟨⟨n, r⟩, hn, heq⟩ := h
    have := unsigned?_length hn
    grind
  case h_12 cs _ _ _ _ _ _ _ _ _ _ _ =>
    simp only [Option.map_eq_some_iff] at h
    obtain ⟨⟨n, r⟩, hn, heq⟩ := h
    have := unsigned?_length hn
    grind
  all_goals
    simp only [Option.some.injEq, Prod.mk.injEq] at h
    obtain ⟨-, rfl⟩ := h
    simp only [List.length_cons]
    omega

/-- The tokens of a text. `done` holds earlier tokens, newest first. -/
def scan? (done : List Token) (cs : List Char) : Option (List Token) :=
  match cs with
  | [] => some done.reverse
  | c :: rest =>
    if isBlank c then scan? done rest
    else
      match h : first? (c :: rest) with
      | some (t, left) =>
        have : left.length ≤ rest.length := Nat.le_of_lt_succ (first?_length h)
        scan? (t :: done) left
      | none => none
termination_by cs.length
decreasing_by all_goals simp only [List.length_cons]; omega

end Token

def tokens? (text : String) : Option (List Token) := Token.scan? [] text.toList

end TxBatch.Json
