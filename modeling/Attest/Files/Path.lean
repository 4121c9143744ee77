/-
  Paths as texts: names with slashes between them. Nothing here looks at a disk.
-/
import Attest.Text.Split

namespace Attest.Path

def isAbsolute (path : String) : Bool := path.toList.head? == some '/'

/-- The path of something found in a directory. An absolute path stays as it is, and the empty
path names the directory itself, with a slash at its end. -/
def join (base path : String) : String :=
  if isAbsolute path then path
  else if base.isEmpty || base.toList.getLast? == some '/' then base ++ path
  else base ++ "/" ++ path

/-- Does a part between two slashes name something? An empty part does not, nor does a dot, except
as the first part of a relative path. -/
def isName (first : Bool) (part : List Char) : Bool :=
  !part.isEmpty && (first || part != ['.'])

/-- The beginnings of a path that end with a name, shortest first, `before` standing in front of
the parts. -/
def beginnings (before : List Char) (first : Bool) : List (List Char) → List (List Char)
  | [] => []
  | part :: parts =>
    let here := before ++ part
    let rest := beginnings (here ++ ['/']) false parts
    if isName first part then here :: rest else rest

/-- The names of a path. A dot counts only at the start of a relative path. -/
def names (path : String) : List (List Char) :=
  let parts := Text.split '/' path.toList
  match parts with
  | [] => []
  | part :: rest =>
    (if isName (!isAbsolute path) part then [part] else []) ++ rest.filter (isName false)

/-- Two spellings of one path. -/
def same (a b : String) : Bool := isAbsolute a == isAbsolute b && names a == names b

/-- The path itself and then, nearest first, the directories that it lies in as far as its text
tells: down to the root, or to the empty path. -/
def ancestors (path : String) : List String :=
  let base := if isAbsolute path then "/" else ""
  let starts := (beginnings [] (!isAbsolute path) (Text.split '/' path.toList)).map String.ofList
  path :: (base :: starts).reverse.drop 1

/-- What follows the last dot of the last name, if something precedes that dot. -/
def extension? (path : String) : Option String :=
  match (names path).getLast? with
  | none => none
  | some name =>
    let parts := Text.split '.' name
    if parts.length < 2 || (Text.join '.' parts.dropLast).isEmpty then none
    else parts.getLast?.map String.ofList

end Attest.Path
