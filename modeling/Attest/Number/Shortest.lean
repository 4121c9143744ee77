/-
  The shortest decimal that reads back. A number of a format stands for every real nearer to it
  than to its neighbours; among the decimals of fewest digits in that interval the nearest one
  is taken, the upper one if two are equally near.
-/
import Attest.Number.Format

namespace Attest.Number

/-- Twice and four times scaled borders of the reals that round to `m · 2^e`: the value is
`value / unit`, the borders `low / unit` and `high / unit`, and they belong to the interval
exactly when `closed`. -/
structure Rounding where
  low : Nat
  value : Nat
  high : Nat
  unit : Nat
  closed : Bool
deriving Repr

/-- Below a power of two the neighbour is half as far away. -/
def Format.rounding (f : Format) (m : Nat) (e : Int) : Rounding :=
  let gap := if m = Nat.pow 2 (f.precision - 1) ∧ f.least < e then 1 else 2
  let (up, unit) := scale 1 4 e
  ⟨(4 * m - gap) * up, 4 * m * up, (4 * m + 2) * up, unit, m % 2 == 0⟩

namespace Rounding

/-- Does the decimal `d · 10^k` round to the value? -/
def admits (r : Rounding) (d : Nat) (k : Int) : Bool :=
  let (n, u) := if 0 ≤ k then (d * Nat.pow 10 k.toNat * r.unit, 1)
    else (d * r.unit, Nat.pow 10 (-k).toNat)
  if r.closed then r.low * u ≤ n && n ≤ r.high * u else r.low * u < n && n < r.high * u

/-- The largest `d` with `d · 10^k` at most the value, and whether the value is at least as near
to `d + 1`. -/
def grid (r : Rounding) (k : Int) : Nat × Bool :=
  let (n, u) := if 0 ≤ k then (r.value, r.unit * Nat.pow 10 k.toNat)
    else (r.value * Nat.pow 10 (-k).toNat, r.unit)
  (n / u, u ≤ 2 * (n % u))

/-- The nearest decimal on the grid of `10^k` that rounds to the value, if there is one. -/
def nearest? (r : Rounding) (k : Int) : Option Nat :=
  let (d, upper) := r.grid k
  match r.admits d k, r.admits (d + 1) k with
  | true, true => some (if upper then d + 1 else d)
  | true, false => some d
  | false, true => some (d + 1)
  | false, false => none

/-- Tries grids of finer and finer steps, `fuel` of them. -/
def search (r : Rounding) (k : Int) : Nat → Nat × Int
  | 0 => ((r.grid k).1, k)
  | fuel + 1 =>
    match r.nearest? k with
    | some d => (d, k)
    | none => r.search (k - 1) fuel

end Rounding

/-- The count of decimal digits of the whole part of `n / u`, or minus the count of zeros behind
the point if there is no whole part: the least `k` with `n / u < 10^k`. -/
def decimalPlaces (n u : Nat) : Int :=
  if u ≤ n then ((Nat.toDigits 10 (n / u)).length : Int)
  else
    let inverse := (Nat.toDigits 10 ((u - 1) / n)).length
    if n * Nat.pow 10 inverse < u then -(inverse : Int) else 1 - (inverse : Int)

/-- Drops the zeros at the end of a numeral, one power of ten each. -/
def trimZeros (d : Nat) (k : Int) : Nat → Nat × Int
  | 0 => (d, k)
  | fuel + 1 => if d % 10 = 0 ∧ d ≠ 0 then trimZeros (d / 10) (k + 1) fuel else (d, k)

/-- The shortest `d · 10^k` that rounds to `m · 2^e`, `m` positive. No double needs more than
17 digits. -/
def Format.shortest (f : Format) (m : Nat) (e : Int) : Nat × Int :=
  let r := f.rounding m e
  let (d, k) := r.search (decimalPlaces r.value r.unit - 1) 18
  trimZeros d k 400

end Attest.Number
