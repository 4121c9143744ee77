/-
  Assertion contexts: the resolver, which names what was checked, and the formatter, which words
  the message of a failed check.
-/
import Attest.Call.Resolve
import Attest.CallSite
import Attest.Config.Basic
import Attest.Files.Locate
import Attest.Message

namespace Attest

/-- Names what a check was given, from what it expected and where it stands. The empty name counts
as none. Reading the literals of a source may overflow. -/
abbrev Resolver := Expected → CallSite → Except Call.Overflow (Option String)

namespace Resolver

/-- A resolver that never overflows. -/
def total (name : Expected → CallSite → Option String) : Resolver := fun expected site =>
  .ok (name expected site)

/-- Names nothing. -/
def null : Resolver := total fun _ _ => none

/-- The source of a call site, if it can be found and read. -/
def source? (e : Environment) (roots : List String) (site : CallSite) : Option Syntax.Source :=
  match locate e roots site.file with
  | .error _ => none
  | .ok path => (e.read path).toOption.map .parse

/-- Reads the source of the call site. One that cannot be found or read names nothing. -/
def ofSources (e : Environment) (c : ResolverConfig) : Resolver := fun expected site =>
  if c.enabled then
    match source? e c.sourceRoots site with
    | none => .ok none
    | some source => Call.resolve source c.entryPoint site.method site.line expected
  else .ok none

end Resolver

structure AssertionContext where
  resolver : Resolver
  formatter : Formatter

namespace AssertionContext

/-- The message of a failed check. -/
def failureMessage (c : AssertionContext) (expected : Expected) (site : CallSite)
    (actual wording : String) (reason : Option String) : Except Call.Overflow String :=
  (c.resolver expected site).map fun name => c.formatter ⟨name, actual, wording, reason⟩

/-- Sources for the resolver, and the standard messages. -/
def ofConfig (e : Environment) (c : Config) : AssertionContext :=
  ⟨.ofSources e c.resolver, standardFormatter c.formatter.maxLength⟩

def debug : String := "AssertionContext \x7b .. \x7d"

end AssertionContext

end Attest
