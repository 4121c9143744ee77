/-
  A disk as a tree of directories and regular files, and the meaning of paths on it. Names are
  followed one at a time: each must exist, and every one but the last must be a directory. A dot
  stays, two dots go up, and a slash at the end asks for a directory.
-/
import Attest.Files.Environment

namespace Attest

/-- The names from the root to a place. -/
abbrev Place := List String

/-- Directories and files by their place. The root is always there. -/
structure Disk where
  nodes : List (Place × Option ByteArray) := []

namespace Disk

/-- `some none` is a directory. -/
def node? (d : Disk) (place : Place) : Option (Option ByteArray) :=
  if place.isEmpty then some none else (d.nodes.find? fun n => n.1 == place).map (·.2)

def isDirectory (d : Disk) (place : Place) : Bool :=
  match d.node? place with
  | some none => true
  | _ => false

def longestName : Nat := 255

/-- Follows names from a place that exists. -/
def walk (d : Disk) (place : Place) : List String → Except PathFault Place
  | [] => .ok place
  | name :: rest =>
    if !d.isDirectory place then .error .notDirectory
    else if name = "" || name = "." then d.walk place rest
    else if name = ".." then d.walk place.dropLast rest
    else if longestName < name.utf8ByteSize then .error .nameTooLong
    else if (d.node? (place ++ [name])).isNone then .error .missing
    else d.walk (place ++ [name]) rest

/-- The place of a path, a relative one taken from the current directory if there is one. -/
def find (d : Disk) (current : Option Place) (path : String) : Except PathFault Place :=
  if path.isEmpty then .error .missing
  else if path.toList.contains '\x00' then .error .nul
  else
    let names := Text.splitString '/' path
    if Path.isAbsolute path then d.walk [] names
    else
      match current with
      | some here => d.walk here names
      | none => .error .missing

def entry (d : Disk) (current : Option Place) (path : String) : Entry :=
  match d.find current path with
  | .error fault => .none fault
  | .ok place =>
    match d.node? place with
    | some (some bytes) => .file bytes
    | some none => .directory
    | none => .none .missing

/-! ## Changes -/

/-- Where a path leads by its names alone. -/
def placeOf (path : String) : Place :=
  (Text.splitString '/' path).foldl
    (fun place name =>
      if name = "" || name = "." then place
      else if name = ".." then place.dropLast
      else place ++ [name])
    []

def put (d : Disk) (place : Place) (content : Option ByteArray) : Disk :=
  ⟨(place, content) :: d.nodes.filter fun n => n.1 != place⟩

/-- A directory and the directories around it. Nothing changes if a file is in the way. -/
def makeDirectory (d : Disk) (place : Place) : Disk :=
  let around := (List.range (place.length + 1)).map fun n => place.take n
  if around.any fun p => (d.node? p).isSome && !d.isDirectory p then d
  else around.foldl (fun d p => if (d.node? p).isSome then d else d.put p none) d

/-- A file with its content, in directories that are made if they are missing. -/
def write (d : Disk) (place : Place) (bytes : ByteArray) : Disk :=
  let d := d.makeDirectory place.dropLast
  if d.isDirectory place.dropLast && !d.isDirectory place then d.put place (some bytes) else d

/-- Removes a file, or a directory with all that lies in it. -/
def remove (d : Disk) (place : Place) : Disk :=
  ⟨d.nodes.filter fun n => !place.isPrefixOf n.1⟩

def pathOf (place : Place) : String := "/" ++ String.intercalate "/" place

end Disk

/-- The environment of a run on a disk. -/
def Disk.environment (d : Disk) (current : Option Place) (settings : List (String × String))
    (home : Option String) : Environment :=
  ⟨d.entry current, current.map Disk.pathOf, settings, home⟩

end Attest
