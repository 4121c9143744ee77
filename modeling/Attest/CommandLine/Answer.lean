/-
  Answers of the command line: exit code and texts, as a function of the arguments and of the
  environment.
-/
import Attest.CommandLine.Command
import Attest.Config.Load
import Attest.Config.Written

namespace Attest.CommandLine

structure Answer where
  code : Nat
  output : String := ""
  errors : String := ""
deriving DecidableEq, Repr

def failed (e : Error) : Answer := ⟨1, "", "Error: " ++ e.message ++ "\n"⟩

/-- An overflow ends the program. -/
def broken (cause : Call.Overflow) : Answer := ⟨101, "", cause.message ++ "\n"⟩

def runCommand (e : Environment) (c : Config) : Option Command → Answer
  | none => ⟨0, commandHint, ""⟩
  | some .config =>
    match c.toToml with
    | .ok text => ⟨0, text, ""⟩
    | .error fault => failed (.config fault)
  | some (.explain request json) =>
    match Attest.explain e c request with
    | .ok report => ⟨0, (if json then report.json else report.text) ++ "\n", ""⟩
    | .error cause => broken cause

/-- The configuration is loaded before any command. -/
def answer (e : Environment) : Invocation → Answer
  | .print text => ⟨0, text, ""⟩
  | .misuse => ⟨2, "", usageHint⟩
  | .run path command =>
    match Config.load e path with
    | .ok c => runCommand e c command
    | .error fault => failed (.config fault)

end Attest.CommandLine
