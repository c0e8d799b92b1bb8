import TxBatch.Config
import TxBatch.Decimal
import TxBatch.Json.Record
import TxBatch.Utf8

/-! # Configurations as JSON

A configuration is a record of two fields. A missing number of workers is zero and a missing
ceiling is one hundred, while a null ceiling means that there is none.
-/

namespace TxBatch

/-- What is found where a file is looked for. -/
inductive FileContent where
  | missing
  /-- Something that the system does not let be read. -/
  | refused (reason : String)
  | bytes (content : List UInt8)
deriving Repr, DecidableEq

namespace Config

/-- A ceiling: null, or a number. -/
def ceiling? : Json.Value → Option (Option UInt32)
  | .null => some none
  | .number n => n.uint32?.map some
  | _ => none

/-- The configuration that a value gives, whether or not its ceiling is allowed. -/
def ofValue? (v : Json.Value) : Option Config :=
  match v.fields? ["workers", "max_incarnations"] with
  | some [workers, ceiling] => do
    let workers ← match workers with
      | some v => v.int64?
      | none => some 0
    let maxIncarnations ← match ceiling with
      | some v => ceiling? v
      | none => some (some 100)
    return { workers, maxIncarnations }
  | _ => none

def ofText (text : String) : Except ConfigFault Config :=
  match (Json.Value.read? text).bind ofValue? with
  | none => .error (.malformed "no configuration in JSON")
  | some config => config.validate.map fun () => config

def ofFile (path : String) (content : FileContent) : Except ConfigFault Config :=
  match content with
  | .missing => .error (.unreadable path .missing)
  | .refused reason => .error (.unreadable path (.refused reason))
  | .bytes bytes =>
    match Utf8.decode? bytes with
    | none => .error (.unreadable path .notText)
    | some text => ofText text

def ceilingChars : Option UInt32 → List Char
  | none => ['n', 'u', 'l', 'l']
  | some limit => Decimal.chars limit.toNat

def chars (c : Config) : List Char :=
  "\x7b\"workers\":".toList ++ Decimal.intChars c.workers.toInt ++
    (",\"max_incarnations\":".toList ++ ceilingChars c.maxIncarnations ++ "\x7d".toList)

def text (c : Config) : String := String.ofList c.chars

end Config

end TxBatch
