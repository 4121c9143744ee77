/-
  Tables of TOML while they are being defined. A table may be defined in several places, but each
  only in one way: by its header, by dotted keys, or by the headers of tables inside it.
-/
import Attest.Datum

namespace Attest.Toml

/-- How a table came to be. `implied` tables are those that a header passes through. -/
inductive Origin where
  | header
  | implied
  | dotted
deriving DecidableEq, Repr

inductive Item where
  | value (d : Datum)
  | table (origin : Origin) (entries : List (String × Item))
  | elements (tables : List (List (String × Item)))
deriving Repr

abbrev Table := List (String × Item)

mutual

def Item.data : Item → Datum
  | .value d => d
  | .table _ entries => .table (Table.data entries)
  | .elements tables => .list (Table.dataOfEach tables)

def Table.data : Table → List (String × Datum)
  | [] => []
  | (key, item) :: rest => (key, item.data) :: Table.data rest

def Table.dataOfEach : List Table → List Datum
  | [] => []
  | t :: ts => .table (Table.data t) :: Table.dataOfEach ts

end

namespace Table

/-- Changes the table at a path, the last one where the path meets an array of tables. Tables that
are missing are made. Dotted keys do not enter a table that has a header. -/
def change? (dotted : Bool) (f : Origin → Table → Option Table) :
    List String → Origin → Table → Option Table
  | [], origin, t => f origin t
  | key :: path, _, t =>
    match t.lookup key with
    | none =>
      let origin := if dotted then Origin.dotted else .implied
      (change? dotted f path origin []).map fun sub => assign key (.table origin sub) t
    | some (.value _) => none
    | some (.table origin sub) =>
      if dotted && origin == .header then none
      else (change? dotted f path origin sub).map fun sub' => assign key (.table origin sub') t
    | some (.elements tables) =>
      match tables.getLast? with
      | none => none
      | some last => (change? dotted f path .header last).map fun last' =>
          assign key (.elements (tables.dropLast ++ [last'])) t

/-- Gives a new key a value. The tables on the way to it must be dotted ones. -/
def addValue? (path : List String) (value : Datum) (origin : Origin) (t : Table) : Option Table :=
  let parents := path.dropLast
  let key := path.getLast?.getD ""
  change? true
    (fun origin t =>
      if (origin == .dotted) == parents.isEmpty || (t.lookup key).isSome then none
      else some (assign key (.value value) t))
    parents origin t

/-- The table of the keys and values between braces. -/
def ofPairs? (pairs : List (List String × Datum)) : Option Table :=
  pairs.foldl (fun t? (path, value) => t?.bind (addValue? path value .header)) (some [])

/-- Begins a table with a header of its own, which is new or so far only implied. -/
def addHeader? (key : String) (t : Table) : Option Table :=
  match t.lookup key with
  | none => some (assign key (.table .header []) t)
  | some (.table .implied sub) => some (assign key (.table .header sub) t)
  | _ => none

/-- Begins the next table of an array. -/
def addElement? (key : String) (t : Table) : Option Table :=
  match t.lookup key with
  | none => some (assign key (.elements [[]]) t)
  | some (.elements tables) => some (assign key (.elements (tables ++ [[]])) t)
  | _ => none

/-- Changes the table that holds the last part of a path. -/
def atParent? (f : String → Table → Option Table) (path : List String) (t : Table) : Option Table :=
  change? false (fun _ => f (path.getLast?.getD "")) path.dropLast .header t

end Table

end Attest.Toml
