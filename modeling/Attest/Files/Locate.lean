/-
  Finding a source file by the path that a compiler reported. Such a path is relative to the
  directory the compiler ran in, which is not known; so it is tried against the configured source
  roots, then the package's directory and each directory around it, then the current directory
  and each directory around that.
-/
import Attest.Files.Environment

namespace Attest

/-- The variable that names the package's directory. -/
def manifestVariable : String := "CARGO_MANIFEST_DIR"

/-- Directories that are searched together with all directories around them. The current
directory is left out if it is the package's. -/
def searchBases (e : Environment) : List String :=
  let manifest := (e.valueOf manifestVariable).toList
  let current := e.currentDirectory.toList
  manifest ++ current.filter fun c => !manifest.any fun m => Path.same m c

/-- The paths at which the file may be, in the order of the search. -/
def placesOf (e : Environment) (roots : List String) (reported : String) : List String :=
  if Path.isAbsolute reported then [reported]
  else (roots ++ (searchBases e).flatMap Path.ancestors).map fun base => Path.join base reported

/-- The first place where there is a regular file. -/
def locate (e : Environment) (roots : List String) (reported : String) : Except Error String :=
  match (placesOf e roots reported).find? fun path => (e.entry path).isFile with
  | some path => .ok path
  | none => .error (.sourceNotFound reported)

end Attest
