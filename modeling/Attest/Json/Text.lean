/-
  Text in JSON: between double quotes, with escapes for the quote, the backslash and controls.
-/
import Attest.Number.Read

namespace Attest.Json

open Number (digitValue?)

/-! ## Writing -/

/-- Two lower-case hexadecimal digits. -/
def hexTwo (n : Nat) : List Char := [Nat.digitChar (n / 16), Nat.digitChar (n % 16)]

def encodeChar (c : Char) : List Char :=
  if c = '"' then ['\\', '"']
  else if c = '\\' then ['\\', '\\']
  else if c = '\x08' then ['\\', 'b']
  else if c = '\x0c' then ['\\', 'f']
  else if c = '\n' then ['\\', 'n']
  else if c = '\r' then ['\\', 'r']
  else if c = '\t' then ['\\', 't']
  else if c.toNat < 32 then ['\\', 'u', '0', '0'] ++ hexTwo c.toNat
  else [c]

def quote (s : String) : String := String.ofList ('"' :: s.toList.flatMap encodeChar ++ ['"'])

/-! ## Reading -/

/-- The 16-bit unit that four hexadecimal digits stand for. -/
def unit? (a b c d : Char) : Option Nat := do
  let a ← digitValue? 16 a
  let b ← digitValue? 16 b
  let c ← digitValue? 16 c
  let d ← digitValue? 16 d
  return ((a * 16 + b) * 16 + c) * 16 + d

/-- The character of a unit that stands alone. -/
def single? (n : Nat) : Option Char :=
  if h : n.isValidChar then some (Char.ofNatAux n h) else none

/-- The character of two units, the first from the high half of the surrogates and the second
from the low half. -/
def paired? (high low : Nat) : Option Char :=
  if 0xd800 ≤ high && high < 0xdc00 && 0xdc00 ≤ low && low < 0xe000 then
    single? (0x10000 + (high - 0xd800) * 0x400 + (low - 0xdc00))
  else none

def simpleEscape? : Char → Option Char
  | '"' => some '"'
  | '\\' => some '\\'
  | '/' => some '/'
  | 'b' => some '\x08'
  | 'f' => some '\x0c'
  | 'n' => some '\n'
  | 'r' => some '\r'
  | 't' => some '\t'
  | _ => none

/-- Reads what follows the opening quote, up to the closing one. -/
def readText? : List Char → Option (List Char × List Char)
  | [] => none
  | '"' :: rest => some ([], rest)
  | '\\' :: 'u' :: a :: b :: c :: d :: rest =>
    (unit? a b c d).bind fun first =>
      match single? first with
      | some x => (readText? rest).map fun (xs, r) => (x :: xs, r)
      | none =>
        match rest with
        | '\\' :: 'u' :: a' :: b' :: c' :: d' :: rest' =>
          (unit? a' b' c' d').bind fun second => (paired? first second).bind fun x =>
            (readText? rest').map fun (xs, r) => (x :: xs, r)
        | _ => none
  | '\\' :: e :: rest =>
    (simpleEscape? e).bind fun x => (readText? rest).map fun (xs, r) => (x :: xs, r)
  | c :: rest =>
    if c = '\\' || c.toNat < 32 then none
    else (readText? rest).map fun (xs, r) => (c :: xs, r)

end Attest.Json
