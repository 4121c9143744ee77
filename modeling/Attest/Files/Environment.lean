/-
  What a run sees of the system around it: the entries at paths, relative ones taken from the
  current directory; that directory; what the environment variables are set to; and the user's
  home directory.
-/
import Attest.Files.Entry
import Attest.Files.Path

namespace Attest

structure Environment where
  entry : String → Entry
  currentDirectory : Option String
  settings : List (String × String)
  home : Option String

namespace Environment

def valueOf (e : Environment) (name : String) : Option String := e.settings.lookup name

/-- The text of the file at a path. An error says which file could not be read. -/
def read (e : Environment) (path : String) : Except Error String :=
  match (e.entry path).text with
  | .ok s => .ok s
  | .error cause => .error (.within ("Failed to read " ++ path) cause)

end Environment

end Attest
