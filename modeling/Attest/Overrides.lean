/-
  Overrides: other resolvers and formatters than the default ones, for every test or for one. A
  binding for a test comes before one for every test, and both before the default; this holds for
  the resolver and the formatter each on its own.
-/
import Attest.Context
import Attest.Datum

namespace Attest

/-- The parts of a context that have been bound. -/
structure Bindings where
  resolver : Option Resolver := none
  formatter : Option Formatter := none

/-- What a change applies to. -/
inductive Scope where
  | every
  | test (name : String)
deriving DecidableEq, Repr

structure Overrides where
  defaults : AssertionContext
  global : Bindings := {}
  perTest : List (String × Bindings) := []

inductive Override where
  | resolver (scope : Scope) (r : Resolver)
  | formatter (scope : Scope) (f : Formatter)
  | reset (scope : Scope)

namespace Overrides

/-- The bindings of one test alone. -/
def bindingsOf (o : Overrides) (test : String) : Bindings := (o.perTest.lookup test).getD {}

def update (o : Overrides) (scope : Scope) (f : Bindings → Bindings) : Overrides :=
  match scope with
  | .every => { o with global := f o.global }
  | .test name => { o with perTest := assign name (f (o.bindingsOf name)) o.perTest }

/-- A reset for every test drops the bindings of single tests too. -/
def reset (o : Overrides) : Scope → Overrides
  | .every => { o with global := {}, perTest := [] }
  | .test name => { o with perTest := o.perTest.filter fun entry => entry.1 != name }

def apply (o : Overrides) : Override → Overrides
  | .resolver scope r => o.update scope fun b => { b with resolver := some r }
  | .formatter scope f => o.update scope fun b => { b with formatter := some f }
  | .reset scope => o.reset scope

def contextFor (o : Overrides) (test : String) : AssertionContext :=
  let own := o.bindingsOf test
  ⟨(own.resolver.or o.global.resolver).getD o.defaults.resolver,
    (own.formatter.or o.global.formatter).getD o.defaults.formatter⟩

def debug : String := "Overrides \x7b .. \x7d"

end Overrides

end Attest
