/-
  The paths that a run looks at: first those of the configuration files, then the places where the
  source of a call may be. Whoever knows what lies there knows all of the disk that an answer
  depends on.
-/
import Attest.CommandLine.Command
import Attest.Config.Load

namespace Attest.CommandLine

/-- The configuration files that a run may read, with those that stand for a directory. -/
def configPaths (home : Option String) (path : Option String) : List String :=
  let files := match path with
    | some path => [path]
    | none => projectFile :: (home.map userFile).toList
  files.flatMap fun file => file :: besideDirectory file

/-- The places of the source that a command asks for. -/
def sourcePaths (e : Environment) (c : Config) : Option Command → List String
  | some (.explain request _) => placesOf e c.resolver.sourceRoots request.file
  | _ => []

/-- The variables that a run may read, the settings in capitals. -/
def variableNames : List String :=
  [manifestVariable, "VERDICT_RESOLVER", "VERDICT_RESOLVER__ENABLED",
    "VERDICT_RESOLVER__ENTRY_POINT", "VERDICT_RESOLVER__SOURCE_ROOTS", "VERDICT_FORMATTER",
    "VERDICT_FORMATTER__MAX_VALUE_LEN"]

end Attest.CommandLine
