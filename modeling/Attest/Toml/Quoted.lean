/-
  Quoted text of TOML: four styles, by quotation mark and by whether the text may run over
  several lines. Double quotes know escapes, single quotes hold text as it is. `Style.encode`
  writes a text in a style, `Style.read?` reads one, and `Style.forText` says which style a text
  is written in.
-/
import Attest.Number.Read

namespace Attest.Toml

open Number (digitValue?)

/-- A multi-line text has its mark three times at either end. -/
structure Style where
  mark : Char
  multiline : Bool
deriving DecidableEq, Repr

namespace Style

def basic : Style := ⟨'"', false⟩
def literal : Style := ⟨'\'', false⟩
def multilineBasic : Style := ⟨'"', true⟩
def multilineLiteral : Style := ⟨'\'', true⟩

def escapes (s : Style) : Bool := s.mark == '"'

def delimiter (s : Style) : List Char := List.replicate (if s.multiline then 3 else 1) s.mark

end Style

/-- Controls other than the tab, and the delete character. -/
def isControl (c : Char) : Bool := (c.toNat < 32 && c != '\t') || c.toNat == 127

/-! ## Reading -/

/-- The number that hexadecimal digits stand for. -/
def hexValue? (cs : List Char) : Option Nat :=
  cs.foldl (fun n? c => n?.bind fun n => (digitValue? 16 c).map (16 * n + ·)) (some 0)

/-- The character with the code point that the digits give, if there is one. -/
def codePoint? (cs : List Char) : Option Char :=
  (hexValue? cs).bind fun n => if h : n.isValidChar then some (Char.ofNatAux n h) else none

/-- Escapes of one letter. -/
def simpleEscape? : Char → Option Char
  | 'b' => some '\x08'
  | 't' => some '\t'
  | 'n' => some '\n'
  | 'f' => some '\x0c'
  | 'r' => some '\r'
  | '"' => some '"'
  | '\\' => some '\\'
  | _ => none

/-- Does a line end here? -/
def atLineEnd : List Char → Bool
  | '\n' :: _ => true
  | '\r' :: '\n' :: _ => true
  | _ => false

/-- The text without the line end that it begins with, if it does. -/
def dropLineEnd : List Char → List Char
  | '\n' :: cs => cs
  | '\r' :: '\n' :: cs => cs
  | cs => cs

def isSpace (c : Char) : Bool := c == ' ' || c == '\t'

def skipSpaces (cs : List Char) : List Char := cs.dropWhile isSpace

/-- A line that ends in a backslash goes on at the next character that is no white space. -/
def isContinuation (cs : List Char) : Bool := atLineEnd (skipSpaces cs)

/-- If the text ends here: the marks in front of the delimiter, at most two, that belong to it,
and what follows the delimiter. -/
def Style.closing? (s : Style) (cs : List Char) : Option (List Char × List Char) :=
  if s.multiline then
    match cs with
    | a :: b :: c :: rest =>
      if a = s.mark && b = s.mark && c = s.mark then
        match rest with
        | d :: e :: rest' =>
          if d = s.mark then
            if e = s.mark then some ([d, e], rest') else some ([d], e :: rest')
          else some ([], rest)
        | [d] => if d = s.mark then some ([d], []) else some ([], rest)
        | [] => some ([], [])
      else none
    | _ => none
  else
    match cs with
    | a :: rest => if a = s.mark then some ([], rest) else none
    | [] => none

/-- Puts a character in front of a text that has been read. -/
def cons? (c : Char) (read : Option (List Char × List Char)) : Option (List Char × List Char) :=
  read.map fun (text, rest) => (c :: text, rest)

/-- Reads up to the delimiter. While `skipping`, white space and line ends are left out. -/
def Style.readFrom (s : Style) (skipping : Bool) : List Char → Option (List Char × List Char)
  | [] => none
  | c :: cs =>
    if skipping && (isSpace c || atLineEnd (c :: cs)) then s.readFrom true cs
    else
      match s.closing? (c :: cs) with
      | some done => some done
      | none =>
        if s.escapes && c = '\\' then
          if s.multiline && isContinuation cs then s.readFrom true cs
          else
            match cs with
            | 'u' :: h₁ :: h₂ :: h₃ :: h₄ :: rest =>
              (codePoint? [h₁, h₂, h₃, h₄]).bind fun x => cons? x (s.readFrom false rest)
            | 'U' :: h₁ :: h₂ :: h₃ :: h₄ :: h₅ :: h₆ :: h₇ :: h₈ :: rest =>
              (codePoint? [h₁, h₂, h₃, h₄, h₅, h₆, h₇, h₈]).bind fun x =>
                cons? x (s.readFrom false rest)
            | e :: rest => (simpleEscape? e).bind fun x => cons? x (s.readFrom false rest)
            | [] => none
        else if c = '\n' then
          if s.multiline then cons? '\n' (s.readFrom false cs) else none
        else if c = '\r' then
          match cs with
          | '\n' :: _ => if s.multiline then s.readFrom false cs else none
          | _ => none
        else if isControl c then none
        else cons? c (s.readFrom false cs)

/-- Reads what follows the opening delimiter. The first line end of a multi-line text is left out,
and every other one is read as a line feed. -/
def Style.read? (s : Style) (cs : List Char) : Option (List Char × List Char) :=
  s.readFrom false (if s.multiline then dropLineEnd cs else cs)

/-- The style that the text in front of us is written in, and the text behind the delimiter. -/
def opening? : List Char → Option (Style × List Char)
  | '"' :: '"' :: '"' :: cs => some (.multilineBasic, cs)
  | '\'' :: '\'' :: '\'' :: cs => some (.multilineLiteral, cs)
  | '"' :: cs => some (.basic, cs)
  | '\'' :: cs => some (.literal, cs)
  | _ => none

/-- A text in any style. -/
def readQuoted? (cs : List Char) : Option (String × List Char) :=
  (opening? cs).bind fun (s, rest) =>
    (s.read? rest).map fun (text, rest') => (String.ofList text, rest')

/-! ## Writing -/

/-- Four upper-case hexadecimal digits. -/
def hexFour (n : Nat) : List Char :=
  let ds := (Nat.toDigits 16 n).map Char.toUpper
  List.replicate (4 - ds.length) '0' ++ ds

/-- A character between double quotes, double quotes themselves apart. -/
def encodeChar (multiline : Bool) (c : Char) : List Char :=
  if c = '\x08' then ['\\', 'b']
  else if c = '\t' then ['\\', 't']
  else if c = '\n' then if multiline then ['\n'] else ['\\', 'n']
  else if c = '\x0c' then ['\\', 'f']
  else if c = '\r' then ['\\', 'r']
  else if c = '\\' then ['\\', '\\']
  else if isControl c then '\\' :: 'u' :: hexFour c.toNat
  else [c]

/-- Text between double quotes, `run` of them standing in front of it. Only as many may stand in
a row as do not close the text. -/
def encodeFrom (multiline : Bool) (run : Nat) : List Char → List Char
  | [] => []
  | c :: cs =>
    if c = '"' then
      if multiline && run < 2 then '"' :: encodeFrom multiline (run + 1) cs
      else '\\' :: '"' :: encodeFrom multiline 0 cs
    else encodeChar multiline c ++ encodeFrom multiline 0 cs

/-- A multi-line text that has lines begins on a line of its own. -/
def Style.encode (s : Style) (cs : List Char) : List Char :=
  s.delimiter ++ (if s.multiline && cs.contains '\n' then ['\n'] else []) ++
    (if s.escapes then encodeFrom s.multiline 0 cs else cs) ++ s.delimiter

/-- The longest row of one character, `run` of them standing in front of the text. -/
def longestRun (x : Char) (run : Nat) : List Char → Nat
  | [] => run
  | c :: cs => if c = x then longestRun x (run + 1) cs else max run (longestRun x 0 cs)

/-- The plainest style that holds the text without escapes; if none does, double quotes. -/
def Style.forText (cs : List Char) : Style :=
  let controls := cs.any fun c => isControl c && c != '\n'
  let lines := cs.contains '\n'
  let singles := longestRun '\'' 0 cs
  let doubles := longestRun '"' 0 cs
  let verbatim := !controls && !cs.contains '\\'
  if verbatim && !lines && doubles == 0 then .basic
  else if !controls && !lines && singles == 0 then .literal
  else if verbatim && doubles ≤ 2 then .multilineBasic
  else if !controls && singles ≤ 2 then .multilineLiteral
  else if lines then .multilineBasic
  else .basic

def quote (s : String) : String :=
  String.ofList ((Style.forText s.toList).encode s.toList)

end Attest.Toml
