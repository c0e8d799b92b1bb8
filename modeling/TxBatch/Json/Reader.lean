import TxBatch.Json.Token

/-! # Reading JSON

Tokens are put together by a machine that keeps the containers part way through on a stack, so a
text may nest as deep as it likes. Between two tokens the machine knows what may come next; a
token that may not, or an end that comes too early, refuses the text.
-/

namespace TxBatch.Json

/-- A container part way through; its content newest first. -/
inductive Frame where
  | array (items : List Value)
  | object (members : List (Text × Value))
  /-- An object that waits for the value of its newest name. -/
  | member (members : List (Text × Value)) (name : Text)

inductive Expectation where
  /-- A value, or the end of the array if it is still empty. -/
  | value (orClose : Bool)
  /-- A member's name, or the end of the object if it is still empty. -/
  | name (orClose : Bool)
  | colon
  /-- A value is complete: a comma, the end of the container around it, or the end of the text. -/
  | afterValue (value : Value)

/-- The machine between two tokens. -/
structure Reader where
  stack : List Frame := []
  expected : Expectation := .value false

namespace Reader

/-- Take the next token, if it may come here. -/
def step? (r : Reader) (t : Token) : Option Reader :=
  match r.expected, t, r.stack with
  | .value _, .null, stack => some ⟨stack, .afterValue .null⟩
  | .value _, .bool b, stack => some ⟨stack, .afterValue (.bool b)⟩
  | .value _, .number n, stack => some ⟨stack, .afterValue (.number n)⟩
  | .value _, .string s, stack => some ⟨stack, .afterValue (.string s)⟩
  | .value _, .openArray, stack => some ⟨.array [] :: stack, .value true⟩
  | .value _, .openObject, stack => some ⟨.object [] :: stack, .name true⟩
  | .value true, .closeArray, .array items :: stack =>
    some ⟨stack, .afterValue (.array items.reverse)⟩
  | .name _, .string s, .object members :: stack => some ⟨.member members s :: stack, .colon⟩
  | .name true, .closeObject, .object members :: stack =>
    some ⟨stack, .afterValue (.object members.reverse)⟩
  | .colon, .colon, stack => some ⟨stack, .value false⟩
  | .afterValue v, .comma, .array items :: stack =>
    some ⟨.array (v :: items) :: stack, .value false⟩
  | .afterValue v, .closeArray, .array items :: stack =>
    some ⟨stack, .afterValue (.array (v :: items).reverse)⟩
  | .afterValue v, .comma, .member members name :: stack =>
    some ⟨.object ((name, v) :: members) :: stack, .name false⟩
  | .afterValue v, .closeObject, .member members name :: stack =>
    some ⟨stack, .afterValue (.object ((name, v) :: members).reverse)⟩
  | _, _, _ => none

/-- The value read, if the text may end here. -/
def result? (r : Reader) : Option Value :=
  match r.stack, r.expected with
  | [], .afterValue v => some v
  | _, _ => none

def run? (r : Reader) : List Token → Option Value
  | [] => r.result?
  | t :: rest =>
    match r.step? t with
    | some r => run? r rest
    | none => none

end Reader

/-- The value that a text says, if it is JSON and nothing else. -/
def Value.read? (text : String) : Option Value :=
  (tokens? text).bind fun tokens => Reader.run? {} tokens

end TxBatch.Json
