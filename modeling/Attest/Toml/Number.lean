/-
  Numbers of TOML. An underscore may stand between two digits. A decimal number has no zero in
  front of other digits, integers have 64 bits, and a number too large to be finite is none.
-/
import Attest.Number.Read

namespace Attest.Toml

open Number

/-- The digits that the text begins with, without their underscores. An underscore that no digit
follows is an error. -/
def digitsTail (radix : Nat) : List Char → Option (List Char × List Char)
  | [] => some ([], [])
  | [c] =>
    if (digitValue? radix c).isSome then some ([c], [])
    else if c = '_' then none else some ([], [c])
  | c :: d :: cs =>
    if (digitValue? radix c).isSome then
      (digitsTail radix (d :: cs)).map fun (ds, rest) => (c :: ds, rest)
    else if c = '_' then
      if (digitValue? radix d).isSome then digitsTail radix (d :: cs) else none
    else some ([], c :: d :: cs)

/-- At least one digit, and no underscore in front of it. -/
def digits? (radix : Nat) (cs : List Char) : Option (List Char × List Char) :=
  match cs with
  | [] => none
  | c :: _ => if (digitValue? radix c).isSome then digitsTail radix cs else none

/-- The sign that the text begins with. -/
def splitSign : List Char → List Char × List Char
  | '+' :: cs => (['+'], cs)
  | '-' :: cs => (['-'], cs)
  | cs => ([], cs)

/-- A zero, or digits that begin with another one. -/
def decimalDigits? (cs : List Char) : Option (List Char × List Char) :=
  match cs with
  | '0' :: rest => some (['0'], rest)
  | _ => digits? 10 cs

def integerRange : Range := signed 64

def radixInteger? (radix : Nat) (cs : List Char) : Option (Int × List Char) :=
  (digits? radix cs).bind fun (ds, rest) => (integerRange.read? radix ds).map (·, rest)

/-- A number with a radix has no sign. -/
def readInteger? : List Char → Option (Int × List Char)
  | '0' :: 'x' :: cs => radixInteger? 16 cs
  | '0' :: 'o' :: cs => radixInteger? 8 cs
  | '0' :: 'b' :: cs => radixInteger? 2 cs
  | cs =>
    let (sign, body) := splitSign cs
    (decimalDigits? body).bind fun (ds, rest) =>
      (integerRange.read? 10 (sign ++ ds)).map (·, rest)

/-- The exponent part, letter and all. -/
def exponent? : List Char → Option (List Char × List Char)
  | c :: cs =>
    if c = 'e' || c = 'E' then
      let (sign, body) := splitSign cs
      (digits? 10 body).map fun (ds, rest) => (c :: sign ++ ds, rest)
    else none
  | [] => none

/-- The fraction part, point and all. -/
def fraction? : List Char → Option (List Char × List Char)
  | '.' :: cs => (digits? 10 cs).map fun (ds, rest) => ('.' :: ds, rest)
  | _ => none

/-- A fraction, an exponent, or both in this order. -/
def fractional? (cs : List Char) : Option (List Char × List Char) :=
  match fraction? cs with
  | some (point, rest) =>
    match rest with
    | c :: _ =>
      if c = 'e' || c = 'E' then
        (exponent? rest).map fun (power, rest') => (point ++ power, rest')
      else some (point, rest)
    | [] => some (point, [])
  | none => exponent? cs

def word? : List Char → Option (List Char × List Char)
  | 'i' :: 'n' :: 'f' :: rest => some (['i', 'n', 'f'], rest)
  | 'n' :: 'a' :: 'n' :: rest => some (['n', 'a', 'n'], rest)
  | _ => none

/-- Digits with a fraction or an exponent, or a word. -/
def readFloat? (cs : List Char) : Option (Floating × List Char) :=
  let (sign, body) := splitSign cs
  match (decimalDigits? body).bind fun (ds, rest) =>
      (fractional? rest).map fun (more, rest') => (ds ++ more, rest') with
  | some (ds, rest) =>
    match double.read? (sign ++ ds) with
    | some (.infinite false) => none
    | some x => some (x, rest)
    | none => none
  | none => (word? body).bind fun (w, rest) => (double.read? (sign ++ w)).map (·, rest)

end Attest.Toml
