/-
  Layers of settings: defaults, a file, and environment variables, each laid over the one before.
  Tables are merged key by key, anything else is replaced. Keys are compared in lower case.
-/
import Attest.Config.Basic
import Attest.Datum
import Attest.Number.Read
import Attest.Text.Split

namespace Attest

open Number (lowerAscii)

def lower (s : String) : String := String.ofList (lowerAscii s.toList)

/-- The entries of a table; anything else has none. -/
def Datum.entries : Datum → List (String × Datum)
  | .table entries => entries
  | _ => []

mutual

/-- Lays a datum over another. -/
def Datum.over : Datum → Datum → Datum
  | .table entries, old => Datum.entriesOver entries old
  | x, _ => x

/-- Lays entries over a datum, which becomes a table if there is at least one. -/
def Datum.entriesOver : List (String × Datum) → Datum → Datum
  | [], old => old
  | (key, x) :: rest, old =>
    let table := old.entries
    let below := (table.lookup (lower key)).getD (.table [])
    Datum.entriesOver rest (.table (assign (lower key) (x.over below) table))

end

/-- Lays a datum over the one at a path, making tables on the way. -/
def Datum.overAt (x : Datum) : List String → Datum → Datum
  | [], old => x.over old
  | key :: path, old =>
    let table := old.entries
    let below := (table.lookup (lower key)).getD (.table [])
    .table (assign (lower key) (x.overAt path below) table)

def isKeyCharacter (c : Char) : Bool := c.isAlphanum || [' ', '_', '-'].contains c

/-- The path that a key of a layer stands for: names with points between them. A key of any other
form is one name. -/
def keyPath (key : String) : List String :=
  let parts := Text.split '.' key.toList
  if parts.all fun part => !part.isEmpty && part.all isKeyCharacter then parts.map String.ofList
  else [key]

/-- Lays the entries of a layer over the settings so far. -/
def layOver (layer : List (String × Datum)) (settings : Datum) : Datum :=
  layer.foldl (fun settings (key, x) => x.overAt (keyPath key) settings) settings

/-! ## Defaults -/

/-- The settings of a configuration as data. -/
def Config.data (c : Config) : Datum :=
  .table [
    ("resolver", .table [
      ("enabled", .bool c.resolver.enabled),
      ("entry_point", .text c.resolver.entryPoint),
      ("source_roots", .list (c.resolver.sourceRoots.map .text))]),
    ("formatter", .table [("max_value_len", .int c.formatter.maxLength)])]

/-! ## Environment variables -/

def variableStart : List Char := "verdict_".toList

def sourceRootsKey : String := "resolver.source_roots"

/-- The key that a variable sets. Two underscores stand for the point between two names. -/
def keyOfVariable? (name : String) : Option String :=
  let cs := lowerAscii name.toList
  if variableStart.isPrefixOf cs then
    some (String.ofList (Text.replacePairs '_' ['.'] (cs.drop variableStart.length)))
  else none

/-- What a variable's text means: the first of a truth value, an integer, a number, for the source
roots a list with commas between its items, and else a text. -/
def datumOfVariable (key value : String) : Datum :=
  let word := lower value
  if word = "true" then .bool true
  else if word = "false" then .bool false
  else
    match (Number.signed 64).read? 10 value.toList with
    | some i => .int i
    | none =>
      match Number.double.read? value.toList with
      | some x => .float x
      | none =>
        if key = sourceRootsKey then .list ((Text.splitString ',' value).map .text)
        else .text value

/-- The layer of the environment variables. -/
def variableLayer (settings : List (String × String)) : List (String × Datum) :=
  settings.filterMap fun (name, value) =>
    (keyOfVariable? name).map fun key => (key, datumOfVariable key value)

end Attest
