import TxBatch.Json.Number
import TxBatch.Json.Reader

/-! # Records in JSON

A record is written as an object with a member a field, or as an array of the fields in order.
Members of other names are passed over, but every name has to be a text, and no field may be given
twice. What a missing field means is left to the record.
-/

namespace TxBatch.Json

/-- The values given for a field: the members of its name, in order. -/
def named (name : String) (members : List (Text × Value)) : List Value :=
  members.filterMap fun (n, v) => if n = some name then some v else none

/-- The values of the fields, none for a field that is missing. -/
def Value.fields? (names : List String) : Value → Option (List (Option Value))
  | .array items =>
    if items.length ≤ names.length then
      some (items.map some ++ List.replicate (names.length - items.length) none)
    else none
  | .object members =>
    if members.all (·.1.isSome) ∧ names.all (fun name => (named name members).length ≤ 1) then
      some (names.map fun name => (named name members).head?)
    else none
  | _ => none

def Value.number? : Value → Option Number
  | .number n => some n
  | _ => none

def Value.int64? (v : Value) : Option Int64 := v.number?.bind Number.int64?

def Value.uint64? (v : Value) : Option UInt64 := v.number?.bind Number.uint64?

def Value.float? (v : Value) : Option Float := v.number?.bind Number.float?

/-- A list of values that are all of one kind. -/
def Value.listOf? {α : Type} (item? : Value → Option α) : Value → Option (List α)
  | .array items => items.mapM item?
  | _ => none

end TxBatch.Json
