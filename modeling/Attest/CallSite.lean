/-
  Call sites: the file, line, test and method of a check.
-/
namespace Attest

structure CallSite where
  file : String
  line : Nat
  test : String
  method : String
deriving DecidableEq, Repr

def CallSite.render (s : CallSite) : String :=
  s.file ++ ":" ++ toString s.line ++ " (" ++ s.method ++ " in " ++ s.test ++ ")"

/-- The test of code that no test runs. -/
def unknownTest : String := "<unknown>"

/-- Reads up to the first two colons. -/
def untilColons : List Char → List Char
  | ':' :: ':' :: _ => []
  | c :: cs => c :: untilColons cs
  | [] => []

/-- What follows the last `::`, the whole text if there is none. -/
def lastSegment (cs : List Char) : List Char := (untilColons cs.reverse).reverse

/-- Test threads carry the full path of their test; the main thread and unnamed ones run none. -/
def testOfThread : Option String → String
  | none => unknownTest
  | some name =>
    if name = "main" || name.isEmpty then unknownTest
    else String.ofList (lastSegment name.toList)

end Attest
