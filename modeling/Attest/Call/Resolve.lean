/-
  Resolution inside one source: from the line, method and expected values of a failed check to
  the chain that tells what was checked.
-/
import Attest.Call.Selection
import Attest.Call.Chain

namespace Attest.Call

open Syntax

/-- No candidate, or none that agrees with the expected values, gives no chain. -/
def resolve (source : Source) (entryPoint method : String) (line : Nat) (expected : Expected) :
    Except Overflow (Option String) :=
  (select expected (candidates source method line)).map fun c? =>
    c?.map fun c => c.chain entryPoint method

end Attest.Call
