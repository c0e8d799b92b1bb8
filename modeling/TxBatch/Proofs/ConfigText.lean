import TxBatch.Config.Json
import TxBatch.Proofs.Json.Tokens

/-!
# Configurations come back from their texts

The text of a configuration is cut into nine tokens (`Config.tokens?_text`) and put together as an
object with two members (`Config.read?_text`), whose numbers are those that were written, in the
words that they came from. So reading undoes writing, for every configuration (`Config.ofText_text`),
and only then it is asked whether the ceiling is allowed. A ceiling that is none is written as null;
a text that leaves it out would mean the default.
-/

namespace TxBatch

/-! ## Numbers -/

theorem Word.int64?_toInt (w : Int64) : int64? w.toInt = some w := by
  have hle := w.le_toInt
  have hlt := w.toInt_lt
  rw [int64?, if_pos ⟨hle, hlt⟩, Int64.ofInt_toInt]

theorem Word.uint32?_toNat (w : UInt32) : uint32? w.toNat = some w := by
  rw [uint32?, if_pos ⟨Int.natCast_nonneg _, w.toNat_lt⟩, Int.toNat_natCast]
  exact congrArg some UInt32.ofNat_toNat

namespace Json

theorem Number.int?_ofInt (i : Int) : (ofInt i).int? = some i := by
  simp only [ofInt, int?, Decimal.value_digits, decide_eq_true_eq]
  rw [if_neg (by simp; omega)]
  split <;> exact congrArg some (by omega)

theorem Value.int64?_ofInt (w : Int64) : (Value.number (.ofInt w.toInt)).int64? = some w := by
  simp only [Value.int64?, Value.number?, Option.bind_some, Number.int64?, Number.int?_ofInt,
    Word.int64?_toInt]

end Json

namespace Config

open Json

def ceilingToken : Option UInt32 → Token
  | none => .null
  | some limit => .number (.ofInt limit.toNat)

def ceilingValue : Option UInt32 → Value
  | none => .null
  | some limit => .number (.ofInt limit.toNat)

theorem ceiling?_ceilingValue (ceiling : Option UInt32) :
    ceiling? (ceilingValue ceiling) = some ceiling := by
  cases ceiling with
  | none => rfl
  | some limit =>
      simp only [ceilingValue, ceiling?, Number.uint32?, Number.int?_ofInt, Option.bind_some,
        Word.uint32?_toNat, Option.map_some]

/-- What the text of a configuration is cut into. -/
def tokens (c : Config) : List Token := [
  .openObject, .string (some "workers"), .colon, .number (.ofInt c.workers.toInt), .comma,
  .string (some "max_incarnations"), .colon, ceilingToken c.maxIncarnations, .closeObject]

/-- What the text of a configuration says. -/
def value (c : Config) : Value := .object [
  (some "workers", .number (.ofInt c.workers.toInt)),
  (some "max_incarnations", ceilingValue c.maxIncarnations)]

/-! ## Cutting -/

theorem chars_eq (c : Config) :
    c.chars = '\x7b' :: ('"' :: ("workers".toList ++ '"' :: ':' ::
      (Decimal.intChars c.workers.toInt ++ ',' :: ('"' :: ("max_incarnations".toList ++ '"' :: ':' ::
        (ceilingChars c.maxIncarnations ++ ['\x7d'])))))) := by
  -- The two names stay folded, so that `Token.scan?_name` can be said of them.
  have hopen : "\x7b\"workers\":".toList = '\x7b' :: '"' :: ("workers".toList ++ ['"', ':']) := rfl
  have hmiddle : ",\"max_incarnations\":".toList =
      ',' :: '"' :: ("max_incarnations".toList ++ ['"', ':']) := rfl
  have hclose : "\x7d".toList = ['\x7d'] := rfl
  unfold chars
  rw [hopen, hmiddle, hclose]
  simp only [List.cons_append, List.append_assoc, List.nil_append]

theorem first?_ceiling {rest : List Char} (h : Token.Bounds rest) (ceiling : Option UInt32) :
    Token.first? (ceilingChars ceiling ++ rest) = some (ceilingToken ceiling, rest) := by
  cases ceiling with
  | none => rfl
  | some limit => exact h.first?_natural limit.toNat

theorem bounds_close : Token.Bounds ['\x7d'] := by
  rintro _ ⟨⟩
  decide

theorem tokens?_text (c : Config) : tokens? c.text = some c.tokens := by
  have hcomma (cs : List Char) : Token.Bounds (',' :: cs) := by
    rintro _ ⟨⟩
    decide
  -- Token by token, a name together with its colon.
  rw [tokens?, text, String.toList_ofList, chars_eq,
    Token.scan?_of_first? (t := .openObject) rfl,
    Token.scan?_name (by simp [Token.Plain]), Token.scan?_of_first? ((hcomma _).first?_int _),
    Token.scan?_of_first? (t := .comma) rfl,
    Token.scan?_name (by simp [Token.Plain]), Token.scan?_of_first? (first?_ceiling bounds_close _),
    Token.scan?_of_first? (t := .closeObject) rfl, Token.scan?]
  rfl

/-! ## Reading -/

theorem read?_text (c : Config) : Value.read? c.text = some c.value := by
  rw [Value.read?, tokens?_text, Option.bind_some, tokens, value]
  cases c.maxIncarnations <;> rfl

theorem ofValue?_value (c : Config) : ofValue? c.value = some c := by
  have hfields : c.value.fields? ["workers", "max_incarnations"] =
      some [some (.number (.ofInt c.workers.toInt)), some (ceilingValue c.maxIncarnations)] := by
    simp [value, Value.fields?, named]
  rw [ofValue?, hfields]
  simp only [Value.int64?_ofInt, ceiling?_ceilingValue]
  rfl

theorem bind_ofValue?_text (c : Config) : (Value.read? c.text).bind ofValue? = some c := by
  rw [read?_text, Option.bind_some, ofValue?_value]

/-- Reading undoes writing, and then the ceiling is looked at. -/
theorem ofText_text (c : Config) : ofText c.text = c.validate.map fun () => c := by
  simp only [ofText, bind_ofValue?_text]

theorem text_injective : Function.Injective text := by
  intro c d htext
  have hd := bind_ofValue?_text d
  rw [← htext, bind_ofValue?_text] at hd
  exact Option.some.inj hd

/-! ## Allowed ceilings -/

theorem map_validate (c : Config) : (c.validate.map fun () => c) =
    if c.maxIncarnations = some 0 then .error .zeroCeiling else .ok c := by
  rw [validate]
  split <;> rfl

theorem ofText_text_of_ne_zero {c : Config} (h : c.maxIncarnations ≠ some 0) :
    ofText c.text = .ok c := by
  rw [ofText_text, map_validate, if_neg h]

theorem ofText_text_of_zero {c : Config} (h : c.maxIncarnations = some 0) :
    ofText c.text = .error .zeroCeiling := by
  rw [ofText_text, map_validate, if_pos h]

theorem maxIncarnations_ne_zero {t : String} {c : Config} (h : ofText t = .ok c) :
    c.maxIncarnations ≠ some 0 := by
  unfold ofText at h
  split at h
  · cases h
  · rename_i d _
    rw [map_validate] at h
    split at h
    · cases h
    · rename_i hd
      cases h
      exact hd

/-- Every allowed configuration comes back from its text, so what was read once is read again from
what is written for it, and the text of a configuration with a ceiling of zero is refused for that
ceiling. No two configurations have the same text. -/
theorem text_comes_back :
    (∀ c : Config, c.maxIncarnations ≠ some 0 → ofText c.text = .ok c) ∧
    (∀ c d : Config, c ≠ d → c.text ≠ d.text) ∧
    (∀ (t : String) (c : Config), ofText t = .ok c → ofText c.text = .ok c) ∧
    ∀ c : Config, c.maxIncarnations = some 0 → ofText c.text = .error .zeroCeiling :=
  ⟨fun _ => ofText_text_of_ne_zero, fun _ _ => text_injective.ne,
    fun _ _ haccepted => ofText_text_of_ne_zero (maxIncarnations_ne_zero haccepted),
    fun _ => ofText_text_of_zero⟩

/-- The fewest workers without a ceiling come back, the default comes back although it was read from
a text that leaves out both fields, and a ceiling of zero does not. -/
theorem extreme_texts_come_back :
    ofText (text { workers := Int64.minValue, maxIncarnations := none }) =
        .ok { workers := Int64.minValue, maxIncarnations := none } ∧
      text { maxIncarnations := none } ≠ text {} ∧
      (ofText "\x7b\x7d" = .ok {} ∧ ofText (text {}) = .ok {}) ∧
      ofText (text { maxIncarnations := some 0 }) = .error .zeroCeiling := by
  obtain ⟨hback, hdiffer, hagain, hzero⟩ := text_comes_back
  have hread : ofText "\x7b\x7d" = .ok {} := by decide +kernel
  exact ⟨hback _ (by decide), hdiffer _ _ (by decide), ⟨hread, hagain _ _ hread⟩, hzero _ rfl⟩

example : text { workers := -4 } = "\x7b\"workers\":-4,\"max_incarnations\":100\x7d" := by
  decide +kernel

example : text { maxIncarnations := none } = "\x7b\"workers\":0,\"max_incarnations\":null\x7d" := by
  decide +kernel

end Config

end TxBatch
