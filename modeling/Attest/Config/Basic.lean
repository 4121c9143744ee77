/-
  Settings of the resolver and of the messages, with their defaults and limits.
-/
import Attest.Error
import Attest.Text.Alphabetic

namespace Attest

/-- `entryPoint` is the method that starts a fluent check; sources are looked for under
`sourceRoots` first. -/
structure ResolverConfig where
  enabled : Bool := true
  entryPoint : String := "should"
  sourceRoots : List String := []
deriving DecidableEq, Repr

/-- Values longer than `maxLength` characters are clipped in messages. -/
structure FormatterConfig where
  maxLength : Nat := 200
deriving DecidableEq, Repr

structure Config where
  resolver : ResolverConfig := {}
  formatter : FormatterConfig := {}
deriving DecidableEq, Repr

/-- A letter or underscore, then letters, digits and underscores, of any script. -/
def isIdentifier (cs : List Char) : Bool :=
  match cs with
  | [] => false
  | c :: rest => (c == '_' || Text.isAlphabetic c) &&
      rest.all fun c => c == '_' || Text.isAlphanumeric c

theorem isIdentifier_cons {c : Char} {rest : List Char} : isIdentifier (c :: rest) = true ↔
    (c == '_' || Text.isAlphabetic c) = true ∧
      ∀ x ∈ rest, (x == '_' || Text.isAlphanumeric x) = true := by
  rw [isIdentifier, Bool.and_eq_true, List.all_eq_true]

def leastMaxLength : Nat := 8

namespace Config

/-- The entry point is looked at first. -/
def validate (c : Config) : Except ConfigFault Unit :=
  if !isIdentifier c.resolver.entryPoint.toList then .error (.entryPoint c.resolver.entryPoint)
  else if c.formatter.maxLength < leastMaxLength then .error (.maxLength c.formatter.maxLength)
  else .ok ()

theorem validate_iff {c : Config} : c.validate = .ok () ↔
    isIdentifier c.resolver.entryPoint.toList = true ∧ leastMaxLength ≤ c.formatter.maxLength := by
  rw [validate]
  cases isIdentifier c.resolver.entryPoint.toList with
  | false => simp
  | true =>
    by_cases h : c.formatter.maxLength < leastMaxLength
    · simp [h]
    · simp [h, Nat.le_of_not_lt h]

end Config

end Attest
