import Mathlib.Data.List.TakeWhile
import TxBatch.Json.Token

/-!
# Texts that are cut into tokens

A text is written token by token, and it is cut where it was put together, since a token says
itself where it ends, a number apart: that one goes on as long as the text lets it, so it needs
something behind it that no number has (`Bounds`). What is written for a whole number is read as its
digits (`first?_int`), and a name without anything to escape as itself (`first?_name`).
-/

namespace TxBatch

/-! ## Digits -/

namespace Decimal

theorem char_digit : ∀ d < 10, (char d).isDigit = true ∧ ofChar (char d) = d := by decide

theorem digits_ne_nil (n : Nat) : digits n ≠ [] := by
  rw [digits]
  split <;> simp

theorem span_char {d : Nat} (hd : d < 10) (cs : List Char) :
    span (char d :: cs) = (d :: (span cs).1, (span cs).2) := by
  obtain ⟨hdigit, hback⟩ := char_digit d hd
  simp [span, hdigit, hback]

/-- Digits in front of something else are set apart from it. -/
theorem span_append {ds : List Nat} (hds : ∀ d ∈ ds, d < 10) {rest : List Char}
    (hrest : ∀ c ∈ rest.head?, c.isDigit = false) : span (ds.map char ++ rest) = (ds, rest) := by
  induction ds with
  | nil =>
      cases rest with
      | nil => rfl
      | cons c cs => simp [span, hrest c rfl]
  | cons d ds ih =>
      rw [List.map_cons, List.cons_append, span_char (hds d List.mem_cons_self),
        ih fun d hmem => hds d (List.mem_cons_of_mem _ hmem)]

theorem span_chars (n : Nat) {rest : List Char} (hrest : ∀ c ∈ rest.head?, c.isDigit = false) :
    span (chars n ++ rest) = (digits n, rest) :=
  span_append (fun _ => lt_ten_of_mem_digits) hrest

theorem head?_digits {n : Nat} (hpos : 0 < n) : (digits n).head? ≠ some 0 := by
  induction n using Nat.strongRecOn with
  | ind n ih =>
    rw [digits]
    split
    · simpa using Nat.ne_of_gt hpos
    · rw [List.head?_append, Option.or_of_isSome (by simp [digits_ne_nil])]
      exact ih (n / 10) (by omega) (by omega)

end Decimal

namespace Json

/-! ## Numbers -/

/-- A whole number as it is read back from its characters. -/
def Number.ofInt (i : Int) : Number := { negative := i < 0, whole := Decimal.digits i.natAbs }

namespace Token

theorem wholeOk_digits (n : Nat) : wholeOk (Decimal.digits n) = true := by
  cases h : Decimal.digits n with
  | nil => exact absurd h (Decimal.digits_ne_nil n)
  | cons d ds =>
      cases ds with
      | nil => rfl
      | cons d' ds =>
          have hpos : 0 < n := Nat.pos_of_ne_zero fun hzero => by
            rw [hzero, Decimal.digits, if_pos (by decide)] at h
            cases h
          have hhead := Decimal.head?_digits hpos
          rw [h, List.head?_cons] at hhead
          simpa [wholeOk] using fun hzero => hhead (congrArg some hzero)

/-- What stands behind a number: nothing that would go on with it. -/
def Bounds (rest : List Char) : Prop :=
  ∀ c ∈ rest.head?, c.isDigit = false ∧ c ≠ '.' ∧ c ≠ 'e' ∧ c ≠ 'E'

section Bounds

variable {rest : List Char} (h : Bounds rest)

include h

theorem Bounds.fraction? : fraction? rest = some ([], rest) := by
  cases rest with
  | nil => rfl
  | cons c cs =>
      obtain ⟨-, hpoint, -⟩ := h c rfl
      unfold Token.fraction?
      split
      · rename_i heq
        exact absurd (List.cons.inj heq).1 hpoint
      · rfl

theorem Bounds.exponent? : exponent? rest = some (none, rest) := by
  cases rest with
  | nil => rfl
  | cons c cs =>
      obtain ⟨-, -, hlower, hupper⟩ := h c rfl
      exact if_neg (not_or.mpr ⟨hlower, hupper⟩)

theorem Bounds.unsigned? (negative : Bool) (n : Nat) :
    unsigned? negative (Decimal.chars n ++ rest) =
      some ({ negative, whole := Decimal.digits n }, rest) := by
  rw [Token.unsigned?, Decimal.span_chars n fun c hc => (h c hc).1]
  simp [wholeOk_digits, h.fraction?, h.exponent?]

end Bounds

theorem first?_digit {c : Char} (hc : c.isDigit = true) (cs : List Char) :
    first? (c :: cs) = (unsigned? false (c :: cs)).map fun (n, rest) => (.number n, rest) := by
  unfold first?
  split <;> first | rfl | (rename_i heq; cases heq; cases hc)

theorem Bounds.first?_natural {rest : List Char} (h : Bounds rest) (n : Nat) :
    first? (Decimal.chars n ++ rest) = some (.number { whole := Decimal.digits n }, rest) := by
  have hread := h.unsigned? false n
  cases hdigits : Decimal.digits n with
  | nil => exact absurd hdigits (Decimal.digits_ne_nil n)
  | cons d ds =>
      have hd : d < 10 := Decimal.lt_ten_of_mem_digits (hdigits ▸ List.mem_cons_self)
      rw [Decimal.chars, hdigits, List.map_cons, List.cons_append] at hread ⊢
      rw [first?_digit (Decimal.char_digit d hd).1, hread, Option.map_some]

/-- A whole number is read as its sign and its digits. -/
theorem Bounds.first?_int {rest : List Char} (h : Bounds rest) (i : Int) :
    first? (Decimal.intChars i ++ rest) = some (.number (.ofInt i), rest) := by
  rw [Decimal.intChars, Number.ofInt]
  split
  · rename_i hneg
    rw [List.cons_append]
    show (Token.unsigned? true _).map _ = _
    rw [h.unsigned? true, decide_eq_true hneg]
    rfl
  · rename_i hneg
    rw [h.first?_natural, decide_eq_false hneg]

/-! ## Names -/

/-- A character that stands for itself inside a string. -/
def Plain (c : Char) : Prop := c ≠ '"' ∧ c ≠ '\\' ∧ ¬c < ' '

instance (c : Char) : Decidable (Plain c) := inferInstanceAs (Decidable (_ ∧ _ ∧ _))

theorem pieces?_cons {c : Char} (hc : Plain c) (done : List Piece) (rest : List Char) :
    pieces? done (c :: rest) = pieces? (.char c :: done) rest := by
  obtain ⟨hquote, hescape, hcontrol⟩ := hc
  rw [pieces?.eq_def]
  split <;> rename_i heq <;> cases heq
  · exact absurd rfl hquote
  · exact absurd rfl hescape
  · exact absurd rfl hescape
  · exact if_neg hcontrol

theorem pieces?_plain {cs : List Char} (hcs : ∀ c ∈ cs, Plain c) (rest : List Char) :
    ∀ done, pieces? done (cs ++ '"' :: rest) = some (done.reverse ++ cs.map .char, rest) := by
  induction cs with
  | nil => intro done; simp [pieces?]
  | cons c cs ih =>
      intro done
      rw [List.cons_append, pieces?_cons (hcs c List.mem_cons_self),
        ih fun c hmem => hcs c (List.mem_cons_of_mem _ hmem)]
      simp

theorem join?_plain (cs : List Char) :
    ∀ done, join? done (cs.map .char) = some (String.ofList (done.reverse ++ cs)) := by
  induction cs with
  | nil => intro done; simp [join?]
  | cons c cs ih => intro done; simp [join?, ih]

/-- A name without anything to escape is read as itself. -/
theorem first?_name {cs : List Char} (hcs : ∀ c ∈ cs, Plain c) (rest : List Char) :
    first? ('"' :: (cs ++ '"' :: rest)) = some (.string (some (String.ofList cs)), rest) := by
  show (pieces? [] _).map _ = _
  rw [pieces?_plain hcs, Option.map_some]
  simp [join?_plain]

/-! ## Texts -/

theorem first?_blank {c : Char} (hc : isBlank c = true) (cs : List Char) : first? (c :: cs) = none := by
  simp only [isBlank, Bool.or_eq_true, decide_eq_true_eq] at hc
  obtain ((rfl | rfl) | rfl) | rfl := hc <;> rfl

/-- The text goes on with the token, and then with `rest`. -/
theorem scan?_of_first? {cs rest : List Char} {t : Token} (hfirst : first? cs = some (t, rest))
    (done : List Token) : scan? done cs = scan? (t :: done) rest := by
  cases cs with
  | nil => cases hfirst
  | cons c cs =>
      have hblank : ¬isBlank c = true := fun hblank => by
        rw [first?_blank hblank] at hfirst
        cases hfirst
      rw [scan?, if_neg hblank]
      split
      · rename_i heq
        rw [hfirst] at heq
        cases heq
        rfl
      · rename_i heq
        rw [hfirst] at heq
        cases heq

theorem scan?_name {cs : List Char} (hcs : ∀ c ∈ cs, Plain c) (done : List Token)
    (rest : List Char) :
    scan? done ('"' :: (cs ++ '"' :: ':' :: rest)) =
      scan? (.colon :: .string (some (String.ofList cs)) :: done) rest := by
  have hcolon : first? (':' :: rest) = some (.colon, rest) := rfl
  rw [scan?_of_first? (first?_name hcs _), scan?_of_first? hcolon]

end Token

end Json

end TxBatch
