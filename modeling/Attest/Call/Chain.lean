/-
  Chains: the names in the receiver of a check, joined by points, which tell what was checked.
-/
import Attest.Call.Candidate

namespace Attest.Call

open Syntax

/-- Names in these do not tell what was checked. -/
def isSkipped : Kind → Bool
  | .arguments | .typeArguments | .tokenTree | .closure | .block => true
  | _ => false

def isNameKind (k : Kind) : Bool := k == .name || k == .fieldName

mutual

/-- The names in a tree, in source order. -/
def names : Tree → List String
  | .leaf _ k t => if isNameKind k then [t.text] else []
  | .node _ k _ cs => if isSkipped k then [] else namesAll cs

def namesAll : List Tree → List String
  | [] => []
  | t :: ts => names t ++ namesAll ts

end

/-- The entry point itself or its form that takes an explicit context. -/
def isEntryPoint (entryPoint name : String) : Bool :=
  name == entryPoint || name == entryPoint ++ "_with"

/-- The names in front of the first entry point, the method's own name left out. -/
def describedNames (entryPoint method : String) (ns : List String) : List String :=
  (ns.takeWhile fun n => !isEntryPoint entryPoint n).filter (· != method)

def Candidate.chain (c : Candidate) (entryPoint method : String) : String :=
  match c.receiver? with
  | some t => String.intercalate "." (describedNames entryPoint method (names t))
  | none => ""

end Attest.Call
