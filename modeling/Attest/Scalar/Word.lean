/-
  Scalars given as words, as on a command line. A word is read as the first of: absence, a truth
  value, an integer, a number with a point or an exponent, a character in single quotes, a text
  in double quotes, and else as the text that it is. Nothing is unescaped.
-/
import Attest.Scalar

namespace Attest

open Number

/-- Digits, points, signs and exponent marks, a digit among them; so `inf` and `NaN` are texts. -/
def looksNumeric (cs : List Char) : Bool :=
  cs.any isDigit && cs.all fun c => isDigit c || ['.', '-', '+', 'e', 'E'].contains c

/-- What stands between two quotation marks. -/
def between? (mark : Char) (cs : List Char) : Option (List Char) :=
  match cs with
  | [] => none
  | c :: rest =>
    if c = mark && rest.getLast? == some mark then some rest.dropLast else none

namespace Scalar

def ofNumeric? (cs : List Char) : Option Scalar :=
  match scalarRange.read? 10 cs with
  | some i => some (int i)
  | none => if looksNumeric cs then (double.read? cs).map float else none

def ofCharacter? (cs : List Char) : Option Scalar :=
  match between? '\'' cs with
  | some [c] => some (char c)
  | _ => none

def ofWord (w : String) : Scalar :=
  if w = "null" then null
  else if w = "true" then bool true
  else if w = "false" then bool false
  else
    let cs := w.toList
    ((ofNumeric? cs).or (ofCharacter? cs)).getD
      (text (((between? '"' cs).map String.ofList).getD w))

end Scalar

/-- One word is one scalar unless a sequence is asked for. -/
def Expected.ofWords (sequence : Bool) (ws : List String) : Expected :=
  match ws, sequence with
  | [w], false => .scalar (.ofWord w)
  | _, _ => .sequence (ws.map .ofWord)

end Attest
