/-
  Classes of characters given as ascending lists of code point ranges.
-/
namespace Attest.Text

/-- Inclusive ranges of code points, in ascending order. -/
abbrev Ranges := List (Nat × Nat)

/-- The search stops at the first range that starts past the code point. -/
def Ranges.has : Ranges → Nat → Bool
  | [], _ => false
  | (lo, hi) :: rest, n => if n < lo then false else n ≤ hi || Ranges.has rest n

end Attest.Text
