/-
  Everything that can go wrong outside a check, as causes with one wording each.
-/
namespace Attest

/-- Faults of a configuration. -/
inductive ConfigFault where
  | entryPoint (name : String)
  | maxLength (n : Nat)
  | unreadable
  | unwritable
  | unbuildable
  | mistyped
  | other (text : String)
deriving DecidableEq, Repr

def ConfigFault.message : ConfigFault → String
  | entryPoint name => "Invalid entry point '" ++ name ++ "'. Must be a Rust identifier"
  | maxLength n => "Invalid max_value_len " ++ toString n ++ ". Must be at least 8"
  | unreadable => "Failed to parse TOML"
  | unwritable => "Failed to serialize config"
  | unbuildable => "Failed to build config"
  | mistyped => "Failed to deserialize config"
  | other text => text

/-- `system` is a fault of the operating system, told in its own words; `within` says what was
being done when the inner error arose. -/
inductive Error where
  | config (fault : ConfigFault)
  | parse (file text : String)
  | sourceNotFound (path : String)
  | system (text : String)
  | within (context : String) (cause : Error)
deriving DecidableEq, Repr

namespace Error

def message : Error → String
  | config fault => "Configuration error: " ++ fault.message
  | parse file text => "Parse error in " ++ file ++ ": " ++ text
  | sourceNotFound path => "Source file not found: " ++ path
  | system text => text
  | within context cause => context ++ ": " ++ cause.message

/-- The messages of the error and of the errors inside it, outermost first. -/
def chain : Error → List String
  | within context cause => (within context cause).message :: cause.chain
  | e => [e.message]

end Error

end Attest
