/-
  JSON documents. `Json.read?` takes a whole text to the datum that it holds, or to nothing if the
  text is no document. A key that comes twice has its last value.
-/
import Attest.Datum
import Attest.Json.Text

namespace Attest.Json

open Number

/-- How deep values may nest. -/
def maxDepth : Nat := 127

def isSpace (c : Char) : Bool := c == ' ' || c == '\n' || c == '\t' || c == '\r'

def skipSpaces (cs : List Char) : List Char := cs.dropWhile isSpace

/-! ## Numbers -/

/-- Digits, without zeros in front of others. -/
def readWhole? (cs : List Char) : Option (List Char × List Char) :=
  let ds := cs.takeWhile isDigit
  match ds with
  | [] => none
  | '0' :: _ :: _ => none
  | _ => some (ds, cs.dropWhile isDigit)

def readFraction? : List Char → Option (List Char × List Char)
  | '.' :: cs =>
    let ds := cs.takeWhile isDigit
    if ds.isEmpty then none else some ('.' :: ds, cs.dropWhile isDigit)
  | cs => some ([], cs)

def readPower? : List Char → Option (List Char × List Char)
  | [] => some ([], [])
  | c :: cs =>
    if c = 'e' || c = 'E' then
      let (sign, body) := match cs with
        | '+' :: r => (['+'], r)
        | '-' :: r => (['-'], r)
        | r => ([], r)
      let ds := body.takeWhile isDigit
      if ds.isEmpty then none else some (c :: sign ++ ds, body.dropWhile isDigit)
    else some ([], c :: cs)

/-- Integers of 64 bits are integers; other numbers are rounded and must stay finite. Zero behind
a minus sign is no integer. -/
def numberOf? (sign whole more : List Char) : Option Datum :=
  let integer? := if more.isEmpty then (signed 64).read? 10 (sign ++ whole) else none
  match integer? with
  | some i =>
    if i = 0 && !sign.isEmpty then some (.float (.finite true 0 double.least)) else some (.int i)
  | none =>
    match double.read? (sign ++ whole ++ more) with
    | some (.infinite _) => none
    | some x => some (.float x)
    | none => none

def readNumber? (cs : List Char) : Option (Datum × List Char) := do
  let (sign, body) := match cs with
    | '-' :: r => (['-'], r)
    | r => ([], r)
  let (whole, rest) ← readWhole? body
  let (fraction, rest) ← readFraction? rest
  let (power, rest) ← readPower? rest
  let number ← numberOf? sign whole (fraction ++ power)
  return (number, rest)

/-! ## Values -/

/-- A value that holds no other. -/
def readAtom? (cs : List Char) : Option (Datum × List Char) :=
  match cs with
  | '"' :: rest => (readText? rest).map fun (s, rest') => (.text (String.ofList s), rest')
  | 'n' :: 'u' :: 'l' :: 'l' :: rest => some (.null, rest)
  | 't' :: 'r' :: 'u' :: 'e' :: rest => some (.bool true, rest)
  | 'f' :: 'a' :: 'l' :: 's' :: 'e' :: rest => some (.bool false, rest)
  | _ => readNumber? cs

/-- One or more parts with commas between them, up to the closing bracket. -/
def readParts? {α : Type} (close : Char) (part : List Char → Option (α × List Char)) :
    Nat → List Char → Option (List α × List Char)
  | 0, _ => none
  | n + 1, cs =>
    (part (skipSpaces cs)).bind fun (x, rest) =>
      match skipSpaces rest with
      | c :: rest' =>
        if c = close then some ([x], rest')
        else if c = ',' then (readParts? close part n rest').map fun (xs, r) => (x :: xs, r)
        else none
      | [] => none

/-- A key and its value. -/
def readMember? (value : List Char → Option (Datum × List Char)) (cs : List Char) :
    Option ((String × Datum) × List Char) :=
  match cs with
  | '"' :: rest => do
    let (key, rest) ← readText? rest
    match skipSpaces rest with
    | ':' :: rest' => do
      let (x, rest'') ← value (skipSpaces rest')
      return ((String.ofList key, x), rest'')
    | _ => none
  | _ => none

/-- Parts in brackets, of which there may be none. -/
def readBracketed? {α : Type} (close : Char) (part : List Char → Option (α × List Char))
    (cs : List Char) : Option (List α × List Char) :=
  match skipSpaces cs with
  | [] => none
  | c :: rest => if c = close then some ([], rest) else readParts? close part (cs.length + 1) cs

def tableOf (entries : List (String × Datum)) : Datum :=
  .table (entries.foldl (fun t (key, x) => assign key x t) [])

/-- A value with at most `depth` brackets around its parts. -/
def readValue? : Nat → List Char → Option (Datum × List Char)
  | depth, '[' :: cs =>
    match depth with
    | 0 => none
    | d + 1 => (readBracketed? ']' (readValue? d) cs).map fun (items, rest) => (.list items, rest)
  | depth, '\x7b' :: cs =>
    match depth with
    | 0 => none
    | d + 1 => (readBracketed? '\x7d' (readMember? (readValue? d)) cs).map fun (entries, rest) =>
        (tableOf entries, rest)
  | _, cs => readAtom? cs

def read? (text : String) : Option Datum :=
  (readValue? maxDepth (skipSpaces text.toList)).bind fun (x, rest) =>
    if (skipSpaces rest).isEmpty then some x else none

end Attest.Json
