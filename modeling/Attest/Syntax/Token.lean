/-
  Tokens of Rust source: words, literals, comments, and single punctuation marks. Blanks are
  not kept; every token knows its first byte and its row. A mark is one character: operators of
  several characters are put together by whoever reads the tokens.
-/
import Attest.Text.Blank
import Attest.Text.Identifier

namespace Attest.Syntax

open Text (isBlank isNameStart isNameContinue)

inductive TokenKind where
  | word
  | integer
  | float
  | char
  | text
  | rawText
  | mark
  | lineComment
  | blockComment
deriving DecidableEq, Repr

/-- Rows are counted from 0, at line feeds. -/
structure Token where
  kind : TokenKind
  text : String
  start : Nat
  row : Nat
deriving DecidableEq, Repr

namespace Token

def stop (t : Token) : Nat := t.start + t.text.utf8ByteSize

def isComment (t : Token) : Bool := t.kind == .lineComment || t.kind == .blockComment

def isMark (t : Token) (c : String) : Bool := t.kind == .mark && t.text == c

def isWord (t : Token) (w : String) : Bool := t.kind == .word && t.text == w

end Token

/-! ## Lexemes

Each function reads the characters of one lexeme off the front of the text, or says that none
is there. -/

/-- Comments nest; one that is not closed runs to the end. -/
def blockCommentRest : Nat → List Char → List Char
  | _, [] => []
  | depth, '/' :: '*' :: cs => '/' :: '*' :: blockCommentRest (depth + 1) cs
  | 0, '*' :: '/' :: _ => ['*', '/']
  | depth + 1, '*' :: '/' :: cs => '*' :: '/' :: blockCommentRest depth cs
  | depth, c :: cs => c :: blockCommentRest depth cs

def comment? : List Char → Option (TokenKind × List Char)
  | '/' :: '/' :: cs => some (.lineComment, '/' :: '/' :: cs.takeWhile (· != '\n'))
  | '/' :: '*' :: cs => some (.blockComment, '/' :: '*' :: blockCommentRest 0 cs)
  | _ => none

/-- Up to and including the closing quotation mark, where a backslash keeps the next character. -/
def quotedRest : List Char → List Char
  | [] => []
  | '\\' :: c :: cs => '\\' :: c :: quotedRest cs
  | c :: cs => if c = '"' then [c] else c :: quotedRest cs

/-- `"…"`, `b"…"` or `c"…"`. -/
def text? : List Char → Option (List Char)
  | '"' :: cs => some ('"' :: quotedRest cs)
  | 'b' :: '"' :: cs => some ('b' :: '"' :: quotedRest cs)
  | 'c' :: '"' :: cs => some ('c' :: '"' :: quotedRest cs)
  | _ => none

/-- Up to and including a quotation mark with the closing hashes behind it. -/
def rawRest (hashes : List Char) : List Char → List Char
  | [] => []
  | c :: cs => if c = '"' && hashes.isPrefixOf cs then c :: hashes else c :: rawRest hashes cs

/-- `r"…"` or `r#"…"#` with any number of hashes. -/
def rawBody? : List Char → Option (List Char)
  | 'r' :: cs =>
    let hashes := cs.takeWhile (· == '#')
    match cs.dropWhile (· == '#') with
    | '"' :: rest => some ('r' :: hashes ++ '"' :: rawRest hashes rest)
    | _ => none
  | _ => none

def rawText? : List Char → Option (List Char)
  | 'b' :: cs => (rawBody? cs).map ('b' :: ·)
  | 'c' :: cs => (rawBody? cs).map ('c' :: ·)
  | cs => rawBody? cs

def isHexDigit (c : Char) : Bool :=
  ('0' ≤ c && c ≤ '9') || ('a' ≤ c && c ≤ 'f') || ('A' ≤ c && c ≤ 'F')

/-- What follows the backslash of an escape. -/
def escape? : List Char → Option (List Char)
  | 'x' :: a :: b :: _ => if isHexDigit a && isHexDigit b then some ['x', a, b] else none
  | 'x' :: _ => none
  | 'u' :: '\x7b' :: cs =>
    let digits := cs.takeWhile isHexDigit
    match digits, cs.dropWhile isHexDigit with
    | _ :: _, '\x7d' :: _ => some ('u' :: '\x7b' :: digits ++ ['\x7d'])
    | _, _ => none
  | 'u' :: cs =>
    let digits := (cs.take 4).takeWhile isHexDigit
    if digits.length = 4 then some ('u' :: digits) else none
  | c :: _ => some [c]
  | [] => none

/-- A character literal from its first quotation mark on: nothing, one character or one escape
between the marks. -/
def charBody? : List Char → Option (List Char)
  | '\'' :: '\'' :: _ => some ['\'', '\'']
  | '\'' :: '\\' :: cs =>
    match escape? cs with
    | some e => if (cs.drop e.length).head? = some '\'' then some ('\'' :: '\\' :: e ++ ['\''])
      else none
    | none => none
  | '\'' :: c :: '\'' :: _ => some ['\'', c, '\'']
  | _ => none

def char? : List Char → Option (List Char)
  | 'b' :: cs => (charBody? cs).map ('b' :: ·)
  | cs => charBody? cs

/-- A name, also in its raw form `r#…`. -/
def word? : List Char → Option (List Char)
  | 'r' :: '#' :: c :: cs =>
    if isNameStart c then some ('r' :: '#' :: c :: cs.takeWhile isNameContinue) else some ['r']
  | c :: cs => if isNameStart c then some (c :: cs.takeWhile isNameContinue) else none
  | [] => none

def isDecimal (c : Char) : Bool := '0' ≤ c && c ≤ '9'

def isDecimalPart (c : Char) : Bool := c == '_' || isDecimal c

def isLatinLetter (c : Char) : Bool := ('a' ≤ c && c ≤ 'z') || ('A' ≤ c && c ≤ 'Z')

/-- A point and the digits behind it. A letter or a second point behind it makes it no fraction:
`1.max(2)` calls a method, `1..2` is a range. `none` says so, `some []` that there is no point. -/
def fraction? : List Char → Option (List Char)
  | '.' :: cs =>
    match cs with
    | c :: _ => if isLatinLetter c || c = '.' then none else some ('.' :: cs.takeWhile isDecimalPart)
    | [] => some ['.']
  | _ => some []

/-- A power of ten with at least one digit; `some []` for a mark without digits, which is not
part of the number but makes it a float. -/
def exponent? : List Char → Option (List Char)
  | c :: cs =>
    if c = 'e' || c = 'E' then
      let sign := cs.take 1 |>.filter fun s => s == '+' || s == '-'
      match (cs.drop sign.length).takeWhile isDecimalPart with
      | [] => some []
      | digits => some (c :: sign ++ digits)
    else none
  | [] => none

/-- A letter `f`, `u` or `i` and at least one digit. -/
def floatSuffix : List Char → List Char
  | c :: cs =>
    if c = 'f' || c = 'u' || c = 'i' then
      match cs.takeWhile isDecimal with
      | [] => []
      | digits => c :: digits
    else []
  | [] => []

/-- Digits with a fraction, an exponent, or both. -/
def float? (cs : List Char) : Option (List Char) :=
  let whole := cs.takeWhile isDecimalPart
  match fraction? (cs.drop whole.length) with
  | none => none
  | some fraction =>
    let body := whole ++ fraction
    match exponent? (cs.drop body.length) with
    | some [] => some body
    | some exponent =>
      let body := body ++ exponent
      some (body ++ floatSuffix (cs.drop body.length))
    | none => if fraction.isEmpty then none else some (body ++ floatSuffix (cs.drop body.length))

def numericTypes : List String :=
  ["u128", "i128", "isize", "usize", "u16", "i16", "u32", "i32", "u64", "i64", "f32", "f64", "u8", "i8"]

def integerSuffix (cs : List Char) : List Char :=
  ((numericTypes.map String.toList).find? fun s => s.isPrefixOf cs).getD []

/-- Digits after a radix mark; without any, the zero alone is the number. -/
def radixDigits (mark : Char) (accepts : Char → Bool) (cs : List Char) : List Char :=
  match cs.takeWhile accepts with
  | [] => ['0']
  | digits => '0' :: mark :: digits

def integerDigits : List Char → List Char
  | '0' :: 'x' :: cs => radixDigits 'x' (fun c => c == '_' || isHexDigit c) cs
  | '0' :: 'o' :: cs => radixDigits 'o' (fun c => c == '_' || ('0' ≤ c && c ≤ '7')) cs
  | '0' :: 'b' :: cs => radixDigits 'b' (fun c => c == '_' || c == '0' || c == '1') cs
  | cs => cs.takeWhile isDecimalPart

def integer (cs : List Char) : List Char :=
  let digits := integerDigits cs
  digits ++ integerSuffix (cs.drop digits.length)

/-- A number that starts with a digit. Behind the point of a member access there are only
integers: `a.0.1` has two members. -/
def number? (member : Bool) (cs : List Char) : Option (TokenKind × List Char) :=
  match cs with
  | c :: _ =>
    if isDecimal c then
      match member, float? cs with
      | false, some f => some (.float, f)
      | _, _ => some (.integer, integer cs)
    else none
  | [] => none

/-- The lexeme at the front of a text; what is nothing else is a mark. -/
def lexeme (member : Bool) (cs : List Char) : TokenKind × List Char :=
  let labelled (k : TokenKind) (l : Option (List Char)) := l.map ((k, ·))
  ((comment? cs).or <| (labelled .rawText (rawText? cs)).or <| (labelled .text (text? cs)).or <|
    (labelled .char (char? cs)).or <| (number? member cs).or <| labelled .word (word? cs)).getD
    (.mark, cs.take 1)

/-! ## Scanning -/

/-- Where the scanner is, and how many points it has read in a row. -/
structure Place where
  offset : Nat
  row : Nat
  points : Nat
deriving DecidableEq, Repr

def Place.step (p : Place) (c : Char) : Place :=
  ⟨p.offset + c.utf8Size, if c = '\n' then p.row + 1 else p.row, p.points⟩

def Place.advance (p : Place) (cs : List Char) : Place := cs.foldl Place.step p

/-- Comments do not interrupt a row of points. -/
def Place.after (p : Place) (kind : TokenKind) (cs : List Char) : Place :=
  let q := p.advance cs
  match kind with
  | .lineComment | .blockComment => q
  | _ => { q with points := if cs = ['.'] then p.points + 1 else 0 }

/-- Reads at most `fuel` blanks and tokens. -/
def scanFrom : Nat → Place → List Char → List Token
  | 0, _, _ => []
  | _, _, [] => []
  | fuel + 1, p, c :: cs =>
    if isBlank c then scanFrom fuel (p.step c) cs
    else
      let (kind, l) := lexeme (p.points == 1) (c :: cs)
      ⟨kind, String.ofList l, p.offset, p.row⟩ ::
        scanFrom fuel (p.after kind l) ((c :: cs).drop l.length)

/-- A byte order mark in front of the text is skipped. -/
def skipOrderMark (p : Place) : List Char → Place × List Char
  | [] => (p, [])
  | c :: cs => if c = '\ufeff' then (p.step c, cs) else (p, c :: cs)

/-- An interpreter line: `#!` and anything but a bracket behind it, up to the end of the line. -/
def shebang? : List Char → Option (List Char)
  | '#' :: '!' :: cs =>
    let line := cs.takeWhile (· != '\n')
    if cs.length = line.length || line.head? = some '[' then none else some ('#' :: '!' :: line)
  | _ => none

/-- The tokens of a source text. An interpreter line at its start counts as a comment. -/
def scan (source : String) : List Token :=
  let (p, cs) := skipOrderMark ⟨0, 0, 0⟩ source.toList
  let blank := cs.takeWhile isBlank
  let body := cs.drop blank.length
  match shebang? body with
  | some line =>
    let q := p.advance blank
    ⟨.lineComment, String.ofList line, q.offset, q.row⟩ ::
      scanFrom body.length (q.advance line) (body.drop line.length)
  | none => scanFrom cs.length p cs

end Attest.Syntax
