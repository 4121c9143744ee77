/-
  Explaining a call site: what a failed check there would be called.
-/
import Attest.Context
import Attest.Json.Text
import Attest.Scalar.Word

namespace Attest

/-- The words are the expected values as they are typed. -/
structure ExplainRequest where
  file : String
  line : Nat
  method : String
  words : List String := []
  sequence : Bool := false
  test : Option String := none
deriving DecidableEq, Repr

structure ExplainReport where
  file : String
  line : Nat
  method : String
  context : Option String
deriving DecidableEq, Repr

namespace ExplainReport

/-- Stands for a name that is absent or empty. -/
def noContext : String := "<no context>"

def text (r : ExplainReport) : String := (shown r.context).getD noContext

/-- An object with one field on each line. -/
def json (r : ExplainReport) : String :=
  "\x7b\n  \"file\": " ++ Json.quote r.file ++ ",\n  \"line\": " ++ toString r.line ++
    ",\n  \"method\": " ++ Json.quote r.method ++
    ",\n  \"context\": " ++ (r.context.map Json.quote).getD "null" ++ "\n\x7d"

end ExplainReport

def explain (e : Environment) (c : Config) (r : ExplainRequest) :
    Except Call.Overflow ExplainReport :=
  let site : CallSite := ⟨r.file, r.line, r.test.getD unknownTest, r.method⟩
  (Resolver.ofSources e c.resolver (.ofWords r.sequence r.words) site).map fun name =>
    ⟨r.file, r.line, r.method, name⟩

end Attest
