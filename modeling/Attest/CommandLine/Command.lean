/-
  Commands of the command line, read from its arguments. Some options may stand before the command
  or behind it; what stands behind it counts.
-/
import Attest.CommandLine.Arguments
import Attest.CommandLine.Help
import Attest.Explain

namespace Attest.CommandLine

inductive Command where
  | explain (request : ExplainRequest) (json : Bool)
  | config
deriving DecidableEq, Repr

/-- What the arguments ask for. -/
inductive Invocation where
  | run (config : Option String) (command : Option Command)
  | print (text : String)
  | misuse
deriving DecidableEq, Repr

/-! ## Options -/

def isPath (s : String) : Bool := !s.isEmpty

/-- Line numbers are natural numbers of 64 bits. -/
def readLineNumber? (s : String) : Option Nat :=
  ((Number.unsigned 64).read? 10 s.toList).map Int.toNat

def commonOptions : List Switch :=
  [⟨"config", some 'c', .required isPath, false⟩, ⟨"verbose", some 'v', .absent, false⟩,
    ⟨"help", some 'h', .absent, false⟩]

def mainOptions : List Switch := commonOptions ++ [⟨"version", some 'V', .absent, false⟩]

def explainOptions : List Switch :=
  commonOptions ++
    [⟨"file", none, .required isPath, false⟩,
      ⟨"line", none, .required fun s => (readLineNumber? s).isSome, false⟩,
      ⟨"method", none, .required fun _ => true, false⟩,
      ⟨"expected", none, .required fun _ => true, true⟩,
      ⟨"sequence", none, .absent, false⟩,
      ⟨"test", none, .required fun _ => true, false⟩,
      ⟨"json", none, .absent, false⟩]

/-! ## Commands -/

/-- The file, the line and the method must be given. -/
def explainCommand? (given : List Given) : Option Command := do
  let file ← valueOf? given "file"
  let line ← (valueOf? given "line").bind readLineNumber?
  let method ← valueOf? given "method"
  return .explain ⟨file, line, method, valuesOf given "expected", has given "sequence",
    valueOf? given "test"⟩ (has given "json")

def ofStop (help : String) : Stop → Invocation
  | .usage => .misuse
  | .help => .print help
  | .version => .print versionText

/-- Reads the options behind a command, where no other words may stand. -/
def readCommand (options : List Switch) (help : String) (config : Option String)
    (command? : List Given → Option Command) (arguments : List String) : Invocation :=
  match readOptions options [] arguments with
  | .error stop => ofStop help stop
  | .ok (given, []) =>
    match command? given with
    | some command => .run ((valueOf? given "config").or config) (some command)
    | none => .misuse
  | .ok _ => .misuse

/-- The help on a command. -/
def helpOn : List String → Invocation
  | [] => .print mainHelp
  | ["explain"] => .print explainHelp
  | ["config"] => .print configHelp
  | ["help"] => .print mainHelp
  | _ => .misuse

def Invocation.ofArguments (arguments : List String) : Invocation :=
  match readOptions mainOptions [] arguments with
  | .error stop => ofStop mainHelp stop
  | .ok (given, rest) =>
    let config := valueOf? given "config"
    match rest with
    | [] => .run config none
    | "explain" :: rest => readCommand explainOptions explainHelp config explainCommand? rest
    | "config" :: rest => readCommand commonOptions configHelp config (fun _ => some .config) rest
    | "help" :: rest => helpOn rest
    | _ => .misuse

end Attest.CommandLine
