/-
  Subjects: values waiting to be checked. A check that passes hands the value back and never looks
  at the context; one that fails raises the message that the context makes.
-/
import Attest.Check.Basic
import Attest.Context

namespace Attest

structure Subject (α : Type) where
  value : α
  context : AssertionContext
  reason : Option String := none

/-- Where a check stands and in which test it runs. -/
structure Caller where
  file : String
  line : Nat
  test : String
deriving DecidableEq, Repr

def Caller.site (c : Caller) (method : String) : CallSite := ⟨c.file, c.line, c.test, method⟩

/-- Why a check did not hand its value back. -/
inductive CheckError where
  | failed (message : String)
  | overflow (cause : Call.Overflow)
deriving DecidableEq, Repr

namespace Subject

variable {α : Type}

/-- The last reason given is the one that is told. -/
def because (s : Subject α) (reason : String) : Subject α := { s with reason := some reason }

/-- What a failed check raises. -/
def failure (s : Subject α) (caller : Caller) (c : Check α) : CheckError :=
  match s.context.failureMessage c.expected (caller.site c.method) (c.actual s.value) c.wording
      s.reason with
  | .ok message => .failed message
  | .error cause => .overflow cause

def verify (s : Subject α) (caller : Caller) (c : Check α) : Except CheckError α :=
  if c.passes s.value then .ok s.value else .error (s.failure caller c)

/-- The value inside an option. -/
def inner [Shown α] (s : Subject (Option α)) (caller : Caller) : Except CheckError α :=
  match s.value with
  | some x => .ok x
  | none => .error (s.failure caller .beSome)

def debug [Shown α] (s : Subject α) : String :=
  "Subject \x7b value: " ++ Shown.render s.value ++ ", context: " ++ AssertionContext.debug ++
    ", reason: " ++ Shown.render s.reason ++ " \x7d"

end Subject

end Attest
