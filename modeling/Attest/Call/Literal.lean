/-
  Literals in source, and whether one denotes a given scalar. Signs and parentheses around a
  number belong to the literal. What an escape or a digit string means is decided here, not by
  the grammar, so a literal may be well formed and still denote nothing.
-/
import Attest.Syntax.Tree
import Attest.Scalar

namespace Attest.Call

open Syntax Number

/-- Arithmetic that leaves the integers a scalar can hold. -/
inductive Overflow where
  | negation
deriving DecidableEq, Repr

def Overflow.message : Overflow → String
  | negation => "attempt to negate with overflow"

/-- A literal as it is written. -/
inductive Literal where
  | integer (digits : List Char)
  | float (digits : List Char)
  | bool (b : Bool)
  | char (quoted : List Char)
  | text (quoted : List Char)
  | rawText (quoted : List Char)
deriving DecidableEq, Repr

namespace Literal

/-- A minus sign in front of a number. -/
def negate? : Literal → Option Literal
  | integer ds => some (integer ('-' :: ds))
  | float ds => some (float ('-' :: ds))
  | _ => none

def ofToken? (kind : Kind) (text : String) : Option Literal :=
  match kind with
  | .integer => some (integer text.toList)
  | .float => some (float text.toList)
  | .boolean => some (bool (text == "true"))
  | .char => some (char text.toList)
  | .text => some (Literal.text text.toList)
  | .rawText => some (rawText text.toList)
  | _ => none

/-- Does the expression begin with a minus sign? -/
def isMinus (children : List Tree) : Bool :=
  match children with
  | t :: _ => t.text == "-"
  | [] => false

mutual

/-- The literal that an expression is: a literal token, one in parentheses, or a number behind a
minus sign. -/
def ofTree? : Tree → Option Literal
  | .leaf _ kind t => ofToken? kind t.text
  | .node _ kind _ cs =>
    match kind with
    | .unary => if isMinus cs then (ofLast? cs).bind negate? else none
    | .paren => ofFirst? cs
    | _ => none

/-- The literal that the first named child is. -/
def ofFirst? : List Tree → Option Literal
  | [] => none
  | t :: ts => if t.isNamed then ofTree? t else ofFirst? ts

/-- The literal that the last named child is. -/
def ofLast? : List Tree → Option Literal
  | [] => none
  | t :: ts => if ts.any Tree.isNamed then ofLast? ts else if t.isNamed then ofTree? t else none

end

/-! ## Numbers -/

/-- The radix that a number names by its first characters, and the digits behind them. -/
def radixOf : List Char → Nat × List Char
  | '0' :: 'x' :: ds => (16, ds)
  | '0' :: 'o' :: ds => (8, ds)
  | '0' :: 'b' :: ds => (2, ds)
  | ds => (10, ds)

/-- Digits without underscores, up to a type suffix: no digit is an `i` or a `u`. -/
def bareDigits (ds : List Char) : List Char :=
  (ds.filter (· != '_')).takeWhile fun c => c != 'i' && c != 'u'

def magnitude? (body : List Char) : Option Int :=
  let (radix, ds) := radixOf body
  scalarRange.read? radix (bareDigits ds)

/-- The least integer has no opposite. -/
def opposite (i : Int) : Except Overflow Int :=
  if scalarRange.has (-i) then .ok (-i) else .error .negation

/-- The value of an integer literal, if it has one. The digits may carry one sign of their own. -/
def integerValue (text : List Char) : Except Overflow (Option Int) :=
  match text with
  | '-' :: rest =>
    match magnitude? (Text.skipBlanks rest) with
    | some i => (opposite i).map some
    | none => .ok none
  | body => .ok (magnitude? body)

/-- Takes a text off the end, if it stands there. -/
def dropEnd? (tail cs : List Char) : Option (List Char) :=
  if tail.isSuffixOf cs then some (cs.take (cs.length - tail.length)) else none

/-- The value of a float literal: without underscores, blanks and the suffix of its type. -/
def floatValue? (text : List Char) : Option Floating :=
  let bare := text.filter fun c => c != '_' && !Text.isBlank c
  double.read? (((dropEnd? ['f', '3', '2'] bare).or (dropEnd? ['f', '6', '4'] bare)).getD bare)

/-! ## Characters and texts -/

/-- What stands between two delimiters. -/
def inside? (delimiter : Char) : List Char → Option (List Char)
  | c :: cs => if c = delimiter then dropEnd? [delimiter] cs else none
  | [] => none

/-- A number in a radix, as natural number below `bound`. -/
def readBelow? (bound : Nat) (digits : List Char) : Option Nat :=
  ((Range.mk 0 (bound - 1 : Nat)).read? 16 digits).map Int.toNat

/-- The character of a code point that is one. -/
def charAt? (n : Nat) : Option Char := if n.isValidChar then some (Char.ofNat n) else none

/-- Escapes of one letter. -/
def simpleEscape? : Char → Option Char
  | 'n' => some '\n'
  | 't' => some '\t'
  | 'r' => some '\r'
  | '0' => some '\x00'
  | '\\' => some '\\'
  | '\'' => some '\''
  | '"' => some '"'
  | _ => none

/-- What the scan of a text body has open: nothing, a backslash, the hexadecimal digits of an
escape (two of them, or up to a brace), or the blanks behind an escaped line break. -/
inductive Pending where
  | none
  | escape
  | byte (digits : List Char)
  | brace
  | codePoint (digits : List Char)
  | continuation
deriving DecidableEq, Repr

def byteChar? (digits : List Char) : Option Char := (readBelow? 256 digits).bind charAt?

def codePointChar? (digits : List Char) : Option Char :=
  (readBelow? (Nat.pow 2 32) (digits.filter (· != '_'))).bind charAt?

/-- The text that a body denotes. Two digits make a byte escape, fewer only at the end; braces
that are not closed count as closed at the end. -/
def unescapeFrom : Pending → List Char → Option (List Char)
  | .none, [] => some []
  | .none, c :: cs => if c = '\\' then unescapeFrom .escape cs else (unescapeFrom .none cs).map (c :: ·)
  | .escape, [] => Option.none
  | .escape, c :: cs =>
    if c = 'x' then unescapeFrom (.byte []) cs
    else if c = 'u' then unescapeFrom .brace cs
    else if c = '\n' then unescapeFrom .continuation cs
    else
      match simpleEscape? c with
      | some d => (unescapeFrom .none cs).map (d :: ·)
      | Option.none => Option.none
  | .byte ds, [] => (byteChar? ds).map ([·])
  | .byte [], c :: cs => unescapeFrom (.byte [c]) cs
  | .byte (d :: _), c :: cs =>
    match byteChar? [d, c] with
    | some x => (unescapeFrom .none cs).map (x :: ·)
    | Option.none => Option.none
  | .brace, [] => Option.none
  | .brace, c :: cs => if c = '\x7b' then unescapeFrom (.codePoint []) cs else Option.none
  | .codePoint ds, [] => (codePointChar? ds).map ([·])
  | .codePoint ds, c :: cs =>
    if c = '\x7d' then
      match codePointChar? ds with
      | some x => (unescapeFrom .none cs).map (x :: ·)
      | Option.none => Option.none
    else unescapeFrom (.codePoint (ds ++ [c])) cs
  | .continuation, [] => some []
  | .continuation, c :: cs =>
    if Text.isBlank c then unescapeFrom .continuation cs
    else if c = '\\' then unescapeFrom .escape cs
    else (unescapeFrom .none cs).map (c :: ·)

def unescape? (body : List Char) : Option (List Char) := unescapeFrom .none body

def textValue? (quoted : List Char) : Option (List Char) := (inside? '"' quoted).bind unescape?

/-- A character literal denotes exactly one character. -/
def charValue? (quoted : List Char) : Option Char :=
  match (inside? '\'' quoted).bind unescape? with
  | some [c] => some c
  | _ => none

/-- What stands between the quotation marks of a raw text. -/
def rawValue? : List Char → Option (List Char)
  | 'r' :: cs =>
    let hashes := cs.takeWhile (· == '#')
    match cs.drop hashes.length with
    | '"' :: rest => (dropEnd? hashes rest).bind (dropEnd? ['"'])
    | _ => none
  | _ => none

/-! ## Comparison -/

/-- Does the literal denote the scalar? Literals of another kind do not; an integer literal may
denote a float. -/
def denotes (l : Literal) (s : Scalar) : Except Overflow Bool :=
  match l, s with
  | integer ds, .int i => (integerValue ds).map fun v => v == some i
  | integer ds, .float x => (integerValue ds).map fun v =>
      match v with
      | some i => (ofInt i).beq x
      | none => false
  | float ds, .float x => .ok (match floatValue? ds with
      | some y => y.beq x
      | none => false)
  | bool b, .bool b' => .ok (b == b')
  | char q, .char c => .ok (charValue? q == some c)
  | Literal.text q, .text s => .ok ((textValue? q).map String.ofList == some s)
  | rawText q, .text s => .ok ((rawValue? q).map String.ofList == some s)
  | _, _ => .ok false

end Literal

/-- Outcome of comparing an argument with a scalar. -/
inductive Comparison where
  | notLiteral
  | equal
  | notEqual
deriving DecidableEq, Repr

def compare (argument : Tree) (s : Scalar) : Except Overflow Comparison :=
  match Literal.ofTree? argument with
  | none => .ok .notLiteral
  | some l => (l.denotes s).map fun d => if d then .equal else .notEqual

end Attest.Call
