/-
  The written form of a configuration: a TOML document that names every setting. `Config.ofToml`
  reads such a document and takes each kind of value only for itself.
-/
import Attest.Config.Convert
import Attest.Toml

namespace Attest

/-- The largest integer that a document can hold. -/
def largestWritten : Nat := Nat.pow 2 63 - 1

/-- A list on one line if it has fewer than two items, and else one line for each. -/
def writeTexts : List String → String
  | [] => "[]"
  | [s] => "[" ++ Toml.quote s ++ "]"
  | ss => "[\n" ++ String.join (ss.map fun s => "    " ++ Toml.quote s ++ ",\n") ++ "]"

def Config.toToml (c : Config) : Except ConfigFault String :=
  if largestWritten < c.formatter.maxLength then .error .unwritable
  else .ok ("[resolver]\nenabled = " ++ (if c.resolver.enabled then "true" else "false") ++
    "\nentry_point = " ++ Toml.quote c.resolver.entryPoint ++
    "\nsource_roots = " ++ writeTexts c.resolver.sourceRoots ++
    "\n\n[formatter]\nmax_value_len = " ++ toString c.formatter.maxLength ++ "\n")

def Config.ofToml (text : String) : Except ConfigFault Config :=
  match (Toml.read? text).bind fun entries => Conversions.strict.config? (.table entries) with
  | some c => .ok c
  | none => .error .unreadable

end Attest
