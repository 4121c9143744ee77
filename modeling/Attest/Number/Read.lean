/-
  Numbers from text: integers of a bounded range in a radix, and decimal fractions rounded to a
  floating-point format.
-/
import Attest.Number.Format

namespace Attest.Number

/-! ## Integers -/

/-- Why a text is no integer of the range. -/
inductive Misread where
  | empty
  | invalidDigit
  | tooLarge
  | tooSmall
deriving DecidableEq, Repr

/-- The integers of a type, both ends included. -/
structure Range where
  low : Int
  high : Int
deriving DecidableEq, Repr

def Range.has (r : Range) (i : Int) : Bool := r.low ≤ i && i ≤ r.high

def signed (bits : Nat) : Range := ⟨-(Nat.pow 2 (bits - 1)), Nat.pow 2 (bits - 1) - 1⟩

def unsigned (bits : Nat) : Range := ⟨0, Nat.pow 2 bits - 1⟩

/-- The value of a digit, letters of either case standing for ten and more. -/
def digitValue? (radix : Nat) (c : Char) : Option Nat :=
  let n := c.toNat
  let v :=
    if '0' ≤ c && c ≤ '9' then n - 48
    else if 'a' ≤ c && c ≤ 'z' then n - 87
    else if 'A' ≤ c && c ≤ 'Z' then n - 55
    else radix
  if v < radix then some v else none

/-- Reads digits into an accumulator and stops at the first that is none or that leaves the
range. -/
def readDigits (radix limit : Nat) (overflow : Misread) : Nat → List Char → Except Misread Nat
  | acc, [] => .ok acc
  | acc, c :: cs =>
    match digitValue? radix c with
    | none => .error .invalidDigit
    | some d =>
      let next := acc * radix + d
      if next ≤ limit then readDigits radix limit overflow next cs else .error overflow

/-- A sign, which may be missing, and at least one digit. The minus sign is a digit, and an
invalid one, where the range has no negative numbers. -/
def Range.read (r : Range) (radix : Nat) (cs : List Char) : Except Misread Int :=
  match cs with
  | [] => .error .empty
  | ['+'] => .error .invalidDigit
  | ['-'] => .error .invalidDigit
  | '+' :: rest => (readDigits radix r.high.toNat .tooLarge 0 rest).map Int.ofNat
  | '-' :: rest =>
    if r.low < 0 then
      (readDigits radix r.low.natAbs .tooSmall 0 rest).map fun n => -(n : Int)
    else .error .invalidDigit
  | rest => (readDigits radix r.high.toNat .tooLarge 0 rest).map Int.ofNat

def Range.read? (r : Range) (radix : Nat) (cs : List Char) : Option Int := (r.read radix cs).toOption

/-- The integers that a scalar can hold. -/
def scalarRange : Range := signed 128

/-! ## Decimal fractions -/

/-- Digits `d` and a power of ten. -/
structure Decimal where
  negative : Bool
  digits : Nat
  exponent : Int
deriving DecidableEq, Repr

def isDigit (c : Char) : Bool := '0' ≤ c && c ≤ '9'

def digitsValue (cs : List Char) : Nat := cs.foldl (fun n c => 10 * n + (c.toNat - 48)) 0

/-- An exponent: a sign, which may be missing, and at least one digit. -/
def readExponent? (cs : List Char) : Option Int :=
  let (negative, ds) := match cs with
    | '+' :: r => (false, r)
    | '-' :: r => (true, r)
    | r => (false, r)
  if ds.isEmpty || !ds.all isDigit then none
  else some (if negative then -(digitsValue ds : Int) else digitsValue ds)

/-- Digits, a point that may be missing, and an exponent that may be missing; at least one digit
stands before or behind the point. -/
def readUnsigned? (negative : Bool) (cs : List Char) : Option Decimal :=
  let whole := cs.takeWhile isDigit
  let rest := cs.dropWhile isDigit
  let (fraction, rest) := match rest with
    | '.' :: r => (r.takeWhile isDigit, r.dropWhile isDigit)
    | r => ([], r)
  if whole.isEmpty && fraction.isEmpty then none
  else
    let d := digitsValue (whole ++ fraction)
    let shift : Int := -fraction.length
    match rest with
    | [] => some ⟨negative, d, shift⟩
    | c :: r => if c = 'e' || c = 'E' then (readExponent? r).map fun x => ⟨negative, d, x + shift⟩
      else none

/-- Rounds to the format. A decimal far outside its range is zero or infinite without the power
of ten being computed. -/
def Decimal.toFloating (f : Format) (x : Decimal) : Floating :=
  if x.digits = 0 then .finite x.negative 0 f.least
  else
    let places : Int := (Nat.toDigits 10 x.digits).length + x.exponent
    if 400 < places then .infinite x.negative
    else if places < -400 then .finite x.negative 0 f.least
    else if 0 ≤ x.exponent then f.round x.negative (x.digits * Nat.pow 10 x.exponent.toNat) 1
    else f.round x.negative x.digits (Nat.pow 10 (-x.exponent).toNat)

def lowerAscii (cs : List Char) : List Char := cs.map Char.toLower

/-- The words for the numbers that have no digits, in any case. -/
def readWord? (negative : Bool) (cs : List Char) : Option Floating :=
  let word := String.ofList (lowerAscii cs)
  if word == "inf" || word == "infinity" then some (.infinite negative)
  else if word == "nan" then some .nan
  else none

/-- A sign, which may be missing, and a decimal fraction or a word. -/
def Format.read? (f : Format) (cs : List Char) : Option Floating :=
  let (negative, body) := match cs with
    | '+' :: r => (false, r)
    | '-' :: r => (true, r)
    | r => (false, r)
  match readUnsigned? negative body with
  | some d => some (d.toFloating f)
  | none => readWord? negative body

end Attest.Number
