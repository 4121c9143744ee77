/-
  Messages of failed checks, one line each for the context, the actual value, the fixed words,
  the expected value and the reason. Context and reason are left out when empty.
-/
namespace Attest

/-- What a failed check has to say. -/
structure Failure where
  context : Option String
  actual : String
  expected : String
  reason : Option String
deriving DecidableEq, Repr

abbrev Formatter := Failure → String

/-- A text of more than `limit` characters is cut, and three dots show it. -/
def clip (limit : Nat) (s : String) : String :=
  if s.length ≤ limit then s else String.ofList (s.toList.take (limit - 3)) ++ "..."

/-- A part that is present and not empty. -/
def shown (part : Option String) : Option String := part.filter fun s => !s.isEmpty

def Failure.lines (limit : Nat) (f : Failure) : List String :=
  (shown f.context).toList ++
    ["is " ++ clip limit f.actual, "but was expected", clip limit f.expected] ++
    ((shown f.reason).map ("because " ++ ·)).toList

def standardFormatter (limit : Nat) : Formatter := fun f => String.intercalate "\n" (f.lines limit)

end Attest
