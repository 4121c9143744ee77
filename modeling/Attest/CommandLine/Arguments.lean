/-
  Command line arguments: options by a long name or a letter, and words. The value of an option
  stands behind an equals sign or is the next argument, which then does not begin with a dash.
-/
import Attest.Text.Split

namespace Attest.CommandLine

/-- What follows an option, and whether a text is good for it. -/
inductive Operand where
  | absent
  | required (valid : String → Bool)

/-- An option: its long name, its letter if it has one, and what it takes. -/
structure Switch where
  name : String
  letter : Option Char := none
  operand : Operand := .absent
  repeatable : Bool := false

/-- An option that was given, with its value. -/
structure Given where
  name : String
  value : String
deriving DecidableEq, Repr

/-- Why the arguments are not read to their end. -/
inductive Stop where
  | usage
  | help
  | version
deriving DecidableEq, Repr

abbrev Result := Except Stop

/-- Adds an option to those given so far. Help and version are asked for by options. -/
def add (given : List Given) (o : Switch) (value : String) : Result (List Given) :=
  if o.name = "help" then .error .help
  else if o.name = "version" then .error .version
  else if !o.repeatable && given.any (·.name == o.name) then .error .usage
  else
    match o.operand with
    | .absent => .ok (given ++ [⟨o.name, value⟩])
    | .required valid => if valid value then .ok (given ++ [⟨o.name, value⟩]) else .error .usage

/-- A dash alone is a word. -/
def looksLikeOption (argument : String) : Bool :=
  match argument.toList with
  | '-' :: _ :: _ => true
  | _ => false

/-- What an argument gives: options that are complete, and one that waits for its value. -/
structure Reading where
  given : List Given
  waiting : Option Switch := none

/-- Letters behind one dash. The first that takes a value takes the rest, after an equals sign if
there is one. -/
def readLetters (options : List Switch) (given : List Given) : List Char → Result Reading
  | [] => .ok ⟨given, none⟩
  | c :: cs =>
    match options.find? fun o => o.letter == some c with
    | none => .error .usage
    | some o =>
      match o.operand with
      | .absent => (add given o "").bind fun given => readLetters options given cs
      | .required _ =>
        match cs with
        | [] => .ok ⟨given, some o⟩
        | '=' :: value => (add given o (String.ofList value)).map (⟨·, none⟩)
        | value => (add given o (String.ofList value)).map (⟨·, none⟩)

/-- A long name, with its value if there is an equals sign. -/
def readName (options : List Switch) (given : List Given) (cs : List Char) : Result Reading :=
  let name := cs.takeWhile (· != '=')
  let attached := (cs.dropWhile (· != '=')).tail?
  match options.find? fun o => o.name.toList == name with
  | none => .error .usage
  | some o =>
    match o.operand, attached with
    | .absent, none => (add given o "").map (⟨·, none⟩)
    | .absent, some _ => .error .usage
    | .required _, some value => (add given o (String.ofList value)).map (⟨·, none⟩)
    | .required _, none => .ok ⟨given, some o⟩

def readOption (options : List Switch) (given : List Given) (argument : String) :
    Result Reading :=
  match argument.toList with
  | '-' :: '-' :: name => readName options given name
  | '-' :: letters => readLetters options given letters
  | _ => .error .usage

/-- Reads options up to the first word, and gives back the arguments from there on. After two
dashes there are only words. -/
def readOptions (options : List Switch) (given : List Given) :
    List String → Result (List Given × List String)
  | [] => .ok (given, [])
  | argument :: rest =>
    if argument = "--" then if rest.isEmpty then .ok (given, []) else .error .usage
    else if looksLikeOption argument then
      match readOption options given argument with
      | .error stop => .error stop
      | .ok reading =>
        match reading.waiting with
        | none => readOptions options reading.given rest
        | some o =>
          match rest with
          | [] => .error .usage
          | value :: rest' =>
            if looksLikeOption value then .error .usage
            else
              match add reading.given o value with
              | .error stop => .error stop
              | .ok given' => readOptions options given' rest'
    else .ok (given, argument :: rest)

def valueOf? (given : List Given) (name : String) : Option String :=
  (given.find? (·.name == name)).map (·.value)

def valuesOf (given : List Given) (name : String) : List String :=
  (given.filter (·.name == name)).map (·.value)

def has (given : List Given) (name : String) : Bool := given.any (·.name == name)

end Attest.CommandLine
