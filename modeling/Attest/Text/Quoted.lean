/-
  Quoted text: a string in double quotes or a character in single quotes, with an escape for
  every character that would not show as itself.
-/
import Attest.Text.Printable

namespace Attest.Text

/-- Lower-case hexadecimal digits, without leading zeros. -/
def hexDigits (n : Nat) : List Char := Nat.toDigits 16 n

/-- `\u`, then the code point in braces. -/
def escapeCodePoint (c : Char) : List Char :=
  ['\\', 'u', '\x7b'] ++ hexDigits c.toNat ++ ['\x7d']

/-- One character inside the quotation mark `mark`. The mark and the backslash take a backslash,
four controls have letters, and what has no glyph of its own is written by its code point. -/
def escapeChar (mark c : Char) : List Char :=
  if c = '\x00' then ['\\', '0']
  else if c = '\t' then ['\\', 't']
  else if c = '\r' then ['\\', 'r']
  else if c = '\n' then ['\\', 'n']
  else if c = '\\' || c = mark then ['\\', c]
  else if isExtender c || !isPrintable c then escapeCodePoint c
  else [c]

def quoteChars (mark : Char) (cs : List Char) : List Char :=
  mark :: cs.flatMap (escapeChar mark) ++ [mark]

def quoteString (s : String) : String := String.ofList (quoteChars '"' s.toList)

def quoteChar (c : Char) : String := String.ofList (quoteChars '\'' [c])

end Attest.Text
