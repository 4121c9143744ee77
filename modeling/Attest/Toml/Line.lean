/-
  Lines of a TOML document: headers and entries. A line is what ends at a line end; an array may
  take several lines of the text.
-/
import Attest.Toml.Quoted
import Attest.Toml.Number
import Attest.Toml.Date
import Attest.Toml.Table

namespace Attest.Toml

/-- How deep values may nest and how many parts a key may have. -/
def maxDepth : Nat := 79

/-! ## Keys -/

def isBareKey (c : Char) : Bool :=
  c.isAlphanum || c == '_' || c == '-'

/-- One part of a key: bare, or quoted on one line. -/
def readPart? (cs : List Char) : Option (String × List Char) :=
  let quoted (s : Style) (rest : List Char) : Option (String × List Char) :=
    (s.read? rest).map fun (text, rest') => (String.ofList text, rest')
  match cs with
  | '"' :: rest => quoted .basic rest
  | '\'' :: rest => quoted .literal rest
  | _ =>
    let bare := cs.takeWhile isBareKey
    if bare.isEmpty then none else some (String.ofList bare, cs.dropWhile isBareKey)

/-- Parts with points between them, spaces around each. -/
def readPath? : Nat → List Char → Option (List String × List Char)
  | 0, _ => none
  | n + 1, cs => do
    let (part, rest) ← readPart? (skipSpaces cs)
    match skipSpaces rest with
    | '.' :: rest' => do
      let (path, rest'') ← readPath? n rest'
      return (part :: path, rest'')
    | rest' => return ([part], rest')

/-- A key up to its equals sign. -/
def readKey? (cs : List Char) : Option (List String × List Char) :=
  (readPath? maxDepth cs).bind fun (path, rest) =>
    match rest with
    | '=' :: rest' => some (path, skipSpaces rest')
    | _ => none

/-! ## Values -/

/-- Leaves out spaces, line ends and comments. Stops in front of what can be none of these. -/
def skipLines (comment : Bool) : List Char → List Char
  | [] => []
  | c :: cs =>
    if c = '\n' then skipLines false cs
    else if c = '\r' then if atLineEnd (c :: cs) then skipLines comment cs else c :: cs
    else if comment then if isControl c then c :: cs else skipLines true cs
    else if isSpace c then skipLines false cs
    else if c = '#' then skipLines true cs
    else c :: cs

/-- Items up to the closing bracket, a comma behind each but perhaps the last. -/
def readItems? {α : Type} (item : List Char → Option (α × List Char)) :
    Nat → List Char → Option (List α × List Char)
  | 0, _ => none
  | n + 1, cs =>
    match skipLines false cs with
    | ']' :: rest => some ([], rest)
    | cs' =>
      (item cs').bind fun (x, rest) =>
        match skipLines false rest with
        | ']' :: rest' => some ([x], rest')
        | ',' :: rest' => (readItems? item n rest').map fun (xs, rest'') => (x :: xs, rest'')
        | _ => none

/-- Keys with values up to the closing brace, a comma between any two. -/
def readPairs? {α : Type} (value : List Char → Option (α × List Char)) :
    Nat → List Char → Option (List (List String × α) × List Char)
  | 0, _ => none
  | n + 1, cs =>
    (readKey? cs).bind fun (path, rest) =>
      (value rest).bind fun (x, rest') =>
        match skipSpaces rest' with
        | '\x7d' :: rest'' => some ([(path, x)], rest'')
        | ',' :: rest'' =>
          (readPairs? value n rest'').map fun (pairs, rest''') => ((path, x) :: pairs, rest''')
        | _ => none

/-- A date, a number with a fraction or exponent, or an integer, tried in this order. -/
def readNumeric? (cs : List Char) : Option (Datum × List Char) :=
  ((readDate? cs).map fun (d, rest) => (Datum.date d, rest)).or
    (((readFloat? cs).map fun (x, rest) => (Datum.float x, rest)).or
      ((readInteger? cs).map fun (i, rest) => (Datum.int i, rest)))

/-- A value that holds no other. -/
def readAtom? (cs : List Char) : Option (Datum × List Char) :=
  match cs with
  | '"' :: _ => (readQuoted? cs).map fun (s, rest) => (.text s, rest)
  | '\'' :: _ => (readQuoted? cs).map fun (s, rest) => (.text s, rest)
  | 't' :: 'r' :: 'u' :: 'e' :: rest => some (.bool true, rest)
  | 'f' :: 'a' :: 'l' :: 's' :: 'e' :: rest => some (.bool false, rest)
  | _ => readNumeric? cs

/-- A value with at most `depth` brackets around its parts. -/
def readValue? : Nat → List Char → Option (Datum × List Char)
  | depth, '[' :: cs =>
    match depth with
    | 0 => none
    | d + 1 => (readItems? (readValue? d) (cs.length + 1) cs).map fun (items, rest) =>
        (.list items, rest)
  | depth, '\x7b' :: cs =>
    match depth with
    | 0 => none
    | d + 1 =>
      match skipSpaces cs with
      | '\x7d' :: rest => some (.table [], rest)
      | cs' =>
        (readPairs? (readValue? d) (cs'.length + 1) cs').bind fun (pairs, rest) =>
          (Table.ofPairs? pairs).map fun t => (.table (Table.data t), rest)
  | _, cs => readAtom? cs

/-! ## Lines -/

inductive Line where
  | blank
  | header (path : List String)
  | element (path : List String)
  | entry (path : List String) (value : Datum)
deriving Repr

/-- Reads to the end of the line, where only spaces and a comment may stand. -/
def readEnd? (cs : List Char) : Option (List Char) :=
  let rest := match skipSpaces cs with
    | '#' :: comment => comment.dropWhile fun c => !isControl c
    | cs' => cs'
  if rest.isEmpty then some [] else if atLineEnd rest then some (dropLineEnd rest) else none

/-- A key up to its closing brackets. -/
def readHeader? (brackets : Nat) (cs : List Char) : Option (List String × List Char) :=
  (readPath? maxDepth cs).bind fun (path, rest) =>
    if rest.take brackets = List.replicate brackets ']' then
      (readEnd? (rest.drop brackets)).map (path, ·)
    else none

def readLine? (cs : List Char) : Option (Line × List Char) :=
  match skipSpaces cs with
  | [] => some (.blank, [])
  | '[' :: '[' :: rest => (readHeader? 2 rest).map fun (path, rest') => (.element path, rest')
  | '[' :: rest => (readHeader? 1 rest).map fun (path, rest') => (.header path, rest')
  | c :: rest =>
    if c = '#' || atLineEnd (c :: rest) then (readEnd? (c :: rest)).map (.blank, ·)
    else
      (readKey? (c :: rest)).bind fun (path, rest') =>
        (readValue? maxDepth rest').bind fun (value, rest'') =>
          (readEnd? rest'').map (.entry path value, ·)

def readLines? : Nat → List Char → Option (List Line)
  | _, [] => some []
  | 0, _ => none
  | n + 1, cs => (readLine? cs).bind fun (line, rest) => (readLines? n rest).map (line :: ·)

end Attest.Toml
