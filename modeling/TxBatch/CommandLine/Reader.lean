import TxBatch.CommandLine
import TxBatch.Word

/-! # Reading command lines

Arguments are read from left to right. A value may be attached to its option by an equals sign or
follow as an argument of its own. An attached value is checked at once; a separate one waits until
the next known option or the end, so an argument that is not known at all is found out first. An
argument that begins with a hyphen is no value, unless it is a hyphen alone, or a negative number
right behind the option for workers.
-/

namespace TxBatch.CommandLine

/-- Why a command line gives nothing to run. -/
inductive Refusal where
  | help
  | version
  /-- An argument is neither known nor the value of an option. -/
  | unknownArgument
  /-- A number does not parse or does not fit. -/
  | invalidNumber
  /-- An option lacks its value, or a path is empty. -/
  | missingValue
  /-- An option is given twice, or two options exclude each other. -/
  | conflict
  /-- A switch is given a value. -/
  | unexpectedValue
deriving Repr, DecidableEq

def Refusal.message : Refusal → String
  | .help => "help requested"
  | .version => "version requested"
  | .unknownArgument => "unexpected argument"
  | .invalidNumber => "invalid number"
  | .missingValue => "a value is required"
  | .conflict => "arguments cannot be used together"
  | .unexpectedValue => "a flag takes no value"

/-- Options that take a value. -/
inductive Setting where
  | config
  | workers
  | maxIncarnations
  | transactions
  | accounts
  | initialBalance
  | maxAmount
  | seed
  | logLevel
deriving Repr, DecidableEq

def Setting.ofName? (name : String) : Option Setting :=
  match name with
  | "config" => some .config
  | "workers" => some .workers
  | "max-incarnations" => some .maxIncarnations
  | "transactions" => some .transactions
  | "accounts" => some .accounts
  | "initial-balance" => some .initialBalance
  | "max-amount" => some .maxAmount
  | "seed" => some .seed
  | "log-level" => some .logLevel
  | _ => none

/-- Options that take none. -/
inductive Switch where
  | noRetryLimit
  | help
  | version
deriving Repr, DecidableEq

def Switch.ofName? (name : String) : Option Switch :=
  match name with
  | "no-retry-limit" => some .noRetryLimit
  | "help" => some .help
  | "version" => some .version
  | _ => none

def Switch.ofLetter? (letter : Char) : Option Switch :=
  match letter with
  | 'h' => some .help
  | 'V' => some .version
  | _ => none

/-! ## Values -/

/-- A row of at least one digit. -/
def digits? (cs : List Char) : Option Nat :=
  if cs ≠ [] ∧ cs.all Char.isDigit then some (Decimal.value (cs.map Decimal.ofChar)) else none

/-- A number that may have a plus sign. -/
def unsigned? : List Char → Option Nat
  | '+' :: cs => digits? cs
  | cs => digits? cs

/-- A number that may have a sign. -/
def signed? : List Char → Option Int
  | '-' :: cs => (digits? cs).map fun n => -(n : Int)
  | cs => (unsigned? cs).map Int.ofNat

def int64? (cs : List Char) : Option Int64 := (signed? cs).bind Word.int64?

/-- A number below 2³²; it may be a negative zero. -/
def uint32? (cs : List Char) : Option UInt32 := (signed? cs).bind Word.uint32?

/-- A number below 2⁶⁴; it has no minus sign. -/
def uint64? (cs : List Char) : Option UInt64 := (unsigned? cs).bind fun n => Word.uint64? n

/-- The command line with an option set to a value. -/
def set (c : CommandLine) (setting : Setting) (value : List Char) : Except Refusal CommandLine :=
  let number {α : Type} (parsed : Option α) (update : α → CommandLine) :
      Except Refusal CommandLine :=
    match parsed with
    | some n => .ok (update n)
    | none => .error .invalidNumber
  match setting with
  | .config =>
    if value.isEmpty then .error .missingValue
    else .ok { c with config := some (String.ofList value) }
  | .logLevel => .ok { c with logLevel := String.ofList value }
  | .workers => number (int64? value) fun n => { c with workers := some n }
  | .maxIncarnations => number (uint32? value) fun n => { c with maxIncarnations := some n }
  | .transactions => number (uint64? value) fun n => { c with transactions := n }
  | .accounts => number (uint32? value) fun n => { c with accounts := n }
  | .initialBalance => number (uint64? value) fun n => { c with initialBalance := n }
  | .maxAmount => number (uint64? value) fun n => { c with maxAmount := n }
  | .seed => number (uint64? value) fun n => { c with seed := n }

/-! ## Arguments -/

/-- A command line read up to some argument. -/
structure Reader where
  line : CommandLine := {}
  /-- Options that have their value. -/
  given : List Setting := []
  /-- The option last named, with its separate value if that has come. -/
  pending : Option (Setting × Option (List Char)) := none

namespace Reader

def accept (r : Reader) (setting : Setting) (value : List Char) : Except Refusal Reader :=
  if setting ∈ r.given then .error .conflict
  else (r.line.set setting value).map fun line => { r with line, given := setting :: r.given }

/-- Check the option that waits. -/
def resolve (r : Reader) : Except Refusal Reader :=
  match r.pending with
  | none => .ok r
  | some (_, none) => .error .missingValue
  | some (setting, some value) => { r with pending := none }.accept setting value

def throw (r : Reader) (switch : Switch) : Except Refusal Reader :=
  r.resolve.bind fun r =>
    match switch with
    | .help => .error .help
    | .version => .error .version
    | .noRetryLimit =>
      if r.line.noRetryLimit then .error .conflict
      else .ok { r with line := { r.line with noRetryLimit := true } }

/-- An argument behind two hyphens. -/
def long (r : Reader) (cs : List Char) : Except Refusal Reader :=
  let name := String.ofList (cs.takeWhile (· ≠ '='))
  let value := (cs.dropWhile (· ≠ '=')).tail?
  match Setting.ofName? name, Switch.ofName? name, value with
  | some setting, _, some value => r.resolve.bind fun r => r.accept setting value
  | some setting, _, none => r.resolve.map fun r => { r with pending := some (setting, none) }
  | none, some _, some _ => .error .unexpectedValue
  | none, some switch, none => r.throw switch
  | none, none, _ => .error .unknownArgument

/-- Digits, with at most one point that is not in front and at most one exponent letter behind it,
small or capital, that is neither in front nor last. -/
def looksNumeric (cs : List Char) : Bool :=
  let whole := cs.dropWhile Char.isDigit
  let rest :=
    match whole with
    | '.' :: rest => if whole.length < cs.length then rest.dropWhile Char.isDigit else whole
    | _ => whole
  match rest with
  | [] => true
  | letter :: exponent =>
    (letter = 'e' || letter = 'E') && rest.length < cs.length && !exponent.isEmpty &&
      exponent.all Char.isDigit

/-- An argument that stands by itself: the value of the option in front of it, or nothing known. -/
def plain (r : Reader) (cs : List Char) : Except Refusal Reader :=
  match r.pending with
  | some (setting, none) => .ok { r with pending := some (setting, some cs) }
  | _ => .error .unknownArgument

/-- An argument behind one hyphen: letters of switches, or a negative number of workers. -/
def short (r : Reader) (letter : Char) (rest : List Char) : Except Refusal Reader :=
  if r.pending = some (.workers, none) ∧ looksNumeric (letter :: rest) then
    r.plain ('-' :: letter :: rest)
  else
    match Switch.ofLetter? letter with
    | some switch => r.throw switch
    | none => .error .unknownArgument

def take (r : Reader) : List Char → Except Refusal Reader
  | '-' :: '-' :: cs => r.long cs
  | '-' :: letter :: rest => r.short letter rest
  | cs => r.plain cs

/-- The end of the arguments. A ceiling and no ceiling exclude each other. -/
def finish (r : Reader) : Except Refusal CommandLine :=
  r.resolve.bind fun r =>
    if r.line.noRetryLimit ∧ r.line.maxIncarnations.isSome then .error .conflict else .ok r.line

/-- Read the arguments that are left. Behind two bare hyphens nothing is an option any more. -/
def run (r : Reader) : List String → Except Refusal CommandLine
  | [] => r.finish
  | arg :: rest =>
    if arg = "--" then if rest.isEmpty then r.finish else .error .unknownArgument
    else (r.take arg.toList).bind fun r => run r rest

end Reader

def read (args : List String) : Except Refusal CommandLine := Reader.run {} args

end TxBatch.CommandLine
