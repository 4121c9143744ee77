/-
  Binary floating-point numbers as data: a mantissa and a power of two. A `Format` says which of
  them are representable; `Format.round` takes a fraction to the nearest representable number,
  a half to the even mantissa.
-/
namespace Attest.Number

/-- Mantissas have at most `precision` bits and exponents lie between `least` and `greatest`. -/
structure Format where
  precision : Nat
  least : Int
  greatest : Int
deriving DecidableEq, Repr

def single : Format := ⟨24, -149, 104⟩

def double : Format := ⟨53, -1074, 971⟩

/-- `finite negative m e` is `m · 2^e`, negated if `negative`; zero has a sign too. -/
inductive Floating where
  | nan
  | infinite (negative : Bool)
  | finite (negative : Bool) (mantissa : Nat) (exponent : Int)
deriving DecidableEq, Repr

/-- The one spelling of a number in a format: the exponent is as small as the mantissa allows. -/
def Format.Normal (f : Format) : Floating → Prop
  | .nan => True
  | .infinite _ => True
  | .finite _ m e => m < Nat.pow 2 f.precision ∧ f.least ≤ e ∧ e ≤ f.greatest ∧
      (Nat.pow 2 (f.precision - 1) ≤ m ∨ e = f.least)

instance (f : Format) (x : Floating) : Decidable (f.Normal x) := by
  cases x <;> simp only [Format.Normal] <;> infer_instance

/-- The quotient rounded to the nearest integer, a half to the even one. -/
def divHalfEven (n d : Nat) : Nat :=
  let q := n / d
  let r := n % d
  if 2 * r < d then q else if d < 2 * r then q + 1 else q + q % 2

/-- `n / d · 2^k` as a fraction of naturals. -/
def scale (n d : Nat) (k : Int) : Nat × Nat :=
  if 0 ≤ k then (n * Nat.pow 2 k.toNat, d) else (n, d * Nat.pow 2 (-k).toNat)

/-- The largest `k` with `2^k ≤ n / d`, for positive `n` and `d`. -/
def floorLog2 (n d : Nat) : Int :=
  let k : Int := (n.log2 : Int) - (d.log2 : Int)
  let (n', d') := scale n d (-k)
  if n' < d' then k - 1 else k

/-- The representable number nearest to `n / d`. -/
def Format.round (f : Format) (negative : Bool) (n d : Nat) : Floating :=
  if n = 0 then .finite negative 0 f.least
  else
    let e := max f.least (floorLog2 n d - (f.precision - 1 : Nat))
    let (n', d') := scale n d (-e)
    let m := divHalfEven n' d'
    let (m, e) := if m = Nat.pow 2 f.precision then (Nat.pow 2 (f.precision - 1), e + 1) else (m, e)
    if f.greatest < e then .infinite negative else .finite negative m e

namespace Floating

def negate : Floating → Floating
  | .nan => .nan
  | .infinite s => .infinite !s
  | .finite s m e => .finite (!s) m e

/-- The same number in another format, rounded if it does not fit. -/
def convert (f : Format) : Floating → Floating
  | .finite s m e => let (n, d) := scale m 1 e; f.round s n d
  | x => x

/-- `m · 2^e` and `m' · 2^e'` over one denominator. -/
def align (m : Nat) (e : Int) (m' : Nat) (e' : Int) : Nat × Nat :=
  let low := min e e'
  (m * Nat.pow 2 (e - low).toNat, m' * Nat.pow 2 (e' - low).toNat)

/-- Numeric equality: the zeros are equal and nothing equals `nan`. -/
def beq : Floating → Floating → Bool
  | .infinite s, .infinite s' => s == s'
  | .finite s m e, .finite s' m' e' =>
    let (a, b) := align m e m' e'
    a == b && (s == s' || a == 0)
  | _, _ => false

/-- Numeric order, false whenever `nan` takes part. -/
def blt : Floating → Floating → Bool
  | .nan, _ => false
  | _, .nan => false
  | .infinite s, .infinite s' => s && !s'
  | .infinite s, .finite _ _ _ => s
  | .finite _ _ _, .infinite s' => !s'
  | .finite s m e, .finite s' m' e' =>
    let (a, b) := align m e m' e'
    match s, s' with
    | false, false => a < b
    | true, true => b < a
    | true, false => 0 < a || 0 < b
    | false, true => false

def ble (x y : Floating) : Bool := blt x y || beq x y

def isZero : Floating → Bool
  | .finite _ m _ => m == 0
  | _ => false

end Floating

/-- The double nearest to an integer. -/
def ofInt (i : Int) : Floating := double.round (i < 0) i.natAbs 1

end Attest.Number
