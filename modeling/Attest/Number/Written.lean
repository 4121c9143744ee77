/-
  The text of a floating-point number: its shortest digits, laid out with a point or with a
  power of ten.
-/
import Attest.Number.Shortest

namespace Attest.Number

/-- `0.d₁d₂… · 10^k` is written with a point when `k` lies strictly between the two bounds
(always, if there are none), and with a power of ten otherwise. A whole number written with a
point ends in `.0` if `fraction` says so. -/
structure Layout where
  bounds : Option (Int × Int)
  fraction : Bool
deriving Repr

/-- Numbers from 10⁻⁴ up to 10¹⁶ have a point, and every number shows that it is not an
integer. -/
def exactLayout : Layout := ⟨some (-4, 17), true⟩

/-- Never a power of ten, and whole numbers look like integers. -/
def plainLayout : Layout := ⟨none, false⟩

def Layout.positional (l : Layout) (k : Int) : Bool :=
  match l.bounds with
  | none => true
  | some (low, high) => low < k && k < high

/-- The digits with the point after the first `k` of them. -/
def placePoint (fraction : Bool) (digits : List Char) (k : Int) : List Char :=
  if k ≤ 0 then ['0', '.'] ++ List.replicate (-k).toNat '0' ++ digits
  else if k.toNat < digits.length then digits.take k.toNat ++ ['.'] ++ digits.drop k.toNat
  else digits ++ List.replicate (k.toNat - digits.length) '0' ++ (if fraction then ['.', '0'] else [])

/-- One digit, the others behind a point, then the power of ten. -/
def placeExponent (digits : List Char) (k : Int) : List Char :=
  digits.take 1 ++ (if digits.length ≤ 1 then [] else '.' :: digits.drop 1) ++
    ('e' :: (toString (k - 1)).toList)

def Layout.digits (l : Layout) (digits : List Char) (k : Int) : List Char :=
  if l.positional k then placePoint l.fraction digits k else placeExponent digits k

def Layout.magnitude (l : Layout) (f : Format) (m : Nat) (e : Int) : List Char :=
  if m = 0 then (if l.fraction then ['0', '.', '0'] else ['0'])
  else
    let (d, k) := f.shortest m e
    let ds := Nat.toDigits 10 d
    l.digits ds (k + ds.length)

def Layout.write (l : Layout) (f : Format) : Floating → String
  | .nan => "NaN"
  | .infinite s => if s then "-inf" else "inf"
  | .finite s m e => String.ofList ((if s then ['-'] else []) ++ l.magnitude f m e)

end Attest.Number
