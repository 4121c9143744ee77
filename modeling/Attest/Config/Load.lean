/-
  Loading a configuration: the defaults, then one file if it exists, then the environment
  variables. The file is the one asked for, or else the project's, or else the user's.
-/
import Attest.Config.Convert
import Attest.Files.Environment
import Attest.Json
import Attest.Toml

namespace Attest

/-- The configuration file of a project, in the current directory. -/
def projectFile : String := "verdict.toml"

/-- The configuration file of a user, in the home directory. -/
def userFile (home : String) : String := Path.join (Path.join home ".verdict") "config.toml"

/-- What a name ends in says how its file is written. -/
def readLayer? (extension text : String) : Option (List (String × Datum)) :=
  let body := String.ofList (Toml.dropMark text.toList)
  if extension = "toml" then Toml.read? body
  else if extension = "json" then
    match Json.read? body with
    | some (.table entries) => some entries
    | _ => none
  else none

/-- The layer in the file at a path. -/
def fileLayer? (e : Environment) (path : String) : Option (List (String × Datum)) := do
  let extension ← Path.extension? path
  let text ← (e.entry path).text.toOption
  readLayer? extension text

/-- A path without slashes at its end. -/
def withoutEndSlashes (path : String) : String :=
  String.ofList (path.toList.reverse.dropWhile (· == '/')).reverse

/-- The files that a directory may stand for: those beside it with its name and an extension. -/
def besideDirectory (path : String) : List String :=
  ["toml", "json"].map fun extension => withoutEndSlashes path ++ "." ++ extension

/-- The layer at a path. Nothing there is an empty layer, and a directory stands for the first file
that it may stand for. -/
def layerAt (e : Environment) (path : String) : Except ConfigFault (List (String × Datum)) :=
  let found := match e.entry path with
    | .none _ => some []
    | .file _ => fileLayer? e path
    | .directory =>
      ((besideDirectory path).find? fun p => (e.entry p).isFile).bind (fileLayer? e)
  match found with
  | some layer => .ok layer
  | none => .error .unbuildable

namespace Config

/-- All layers, converted and validated. -/
def ofLayers (file system : List (String × Datum)) : Except ConfigFault Config := do
  let settings := layOver system (layOver file (({} : Config).data))
  match Conversions.loose.config? settings with
  | none => throw .mistyped
  | some c =>
    c.validate
    return c

/-- The configuration with the file at a path, which may be missing. -/
def fromFile (e : Environment) (path : String) : Except ConfigFault Config := do
  let layer ← layerAt e path
  ofLayers layer (variableLayer e.settings)

/-- The file that is read when none is asked for. -/
def defaultFile (e : Environment) : String :=
  if (e.entry projectFile).exists? then projectFile
  else match e.home with
    | some home => userFile home
    | none => projectFile

def load (e : Environment) (path : Option String) : Except ConfigFault Config :=
  fromFile e (path.getD (defaultFile e))

end Config

end Attest
