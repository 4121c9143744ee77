/-
  The program. It looks at the paths that the run may read, answers from what it saw, and prints.
-/
import Attest.CommandLine.Answer
import Attest.CommandLine.Reads

namespace Attest.CommandLine

/-- What lies at a path now. The system tells a directory and a name under a file apart by number. -/
def look (path : String) : IO (String × Entry) := do
  try
    return (path, .file (← IO.FS.readBinFile path))
  catch
    | .inappropriateType _ 20 _ => return (path, .none .notDirectory)
    | .inappropriateType _ 21 _ => return (path, .directory)
    | _ => return (path, .none .missing)

/-- The environment as far as it has been looked at. -/
def environment (seen : List (String × Entry)) (home : Option String) : IO Environment := do
  let here ← (some <$> IO.currentDir) <|> pure none
  let settings ← variableNames.filterMapM fun name => do
    return (← IO.getEnv name).map (name, ·)
  return ⟨fun path => (seen.lookup path).getD (.none .missing), here.map (·.toString),
    settings, home⟩

/-- An environment that holds all that the answer depends on. -/
def environmentFor : Invocation → IO Environment
  | .run path command => do
    let home := (← IO.getEnv "HOME").filter (· != "")
    let seen ← (configPaths home path).mapM look
    let first ← environment seen home
    match Config.load first path with
    | .error _ => return first
    | .ok c => environment (seen ++ (← (sourcePaths first c command).mapM look)) home
  | _ => environment [] none

end Attest.CommandLine

open Attest.CommandLine in
def main (arguments : List String) : IO UInt32 := do
  let invocation := Invocation.ofArguments arguments
  let given := answer (← environmentFor invocation) invocation
  IO.print given.output
  IO.eprint given.errors
  return given.code.toUInt32
