import TxBatch.Decimal

/-! # Writing JSON

What is to be written is a tree of finished texts, written on one line or indented. Names of
members are written as they are, so they hold nothing that would have to be escaped.
-/

namespace TxBatch.Json

inductive Output where
  /-- A finished text, such as a number. -/
  | atom (text : String)
  | list (items : List Output)
  | record (members : List (String × Output))

namespace Output

def word (n : Nat) : Output := .atom (Decimal.text n)

def bool (b : Bool) : Output := .atom (if b then "true" else "false")

/-- A name with the colon behind it. -/
def name (n : String) : String := "\"" ++ n ++ "\":"

mutual

/-- On one line, without spaces. -/
def compact : Output → String
  | .atom text => text
  | .list items => "[" ++ String.intercalate "," (compactItems items) ++ "]"
  | .record members => "\x7b" ++ String.intercalate "," (compactMembers members) ++ "\x7d"

def compactItems : List Output → List String
  | [] => []
  | item :: rest => compact item :: compactItems rest

def compactMembers : List (String × Output) → List String
  | [] => []
  | (n, value) :: rest => (name n ++ compact value) :: compactMembers rest

end

/-- A new line at a depth of nesting, two spaces a level. -/
def newLine (depth : Nat) : String := "\n" ++ String.ofList (List.replicate (2 * depth) ' ')

/-- Entries between two brackets, a line each; nothing between them if there are none. -/
def block (opening closing : String) (depth : Nat) (entries : List String) : String :=
  if entries.isEmpty then opening ++ closing
  else
    opening ++ newLine (depth + 1) ++ String.intercalate ("," ++ newLine (depth + 1)) entries ++
      newLine depth ++ closing

mutual

/-- Indented, at a depth of nesting. -/
def pretty (depth : Nat) : Output → String
  | .atom text => text
  | .list items => block "[" "]" depth (prettyItems (depth + 1) items)
  | .record members => block "\x7b" "\x7d" depth (prettyMembers (depth + 1) members)

def prettyItems (depth : Nat) : List Output → List String
  | [] => []
  | item :: rest => pretty depth item :: prettyItems depth rest

def prettyMembers (depth : Nat) : List (String × Output) → List String
  | [] => []
  | (n, value) :: rest => (name n ++ " " ++ pretty depth value) :: prettyMembers depth rest

end

end Output

end TxBatch.Json
