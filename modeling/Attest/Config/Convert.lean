/-
  Configurations from data. What counts as a truth value, a text or a natural number depends on
  where the data come from: `strict` takes each kind only for itself, `loose` converts between
  them. A section is a table with the settings by name or a list with them by position. A setting
  that is absent has its default, and what is no setting is ignored.
-/
import Attest.Config.Layer
import Attest.Number.Written

namespace Attest

open Number

structure Conversions where
  bool? : Datum → Option Bool
  text? : Datum → Option String
  natural? : Datum → Option Nat

/-! ## Strict -/

def Conversions.strict : Conversions where
  bool?
    | .bool b => some b
    | _ => none
  text?
    | .text s => some s
    | _ => none
  natural?
    | .int (.ofNat n) => some n
    | _ => none

/-! ## Loose -/

/-- The largest natural number that a setting can have. -/
def largestNatural : Nat := Nat.pow 2 64 - 1

/-- The nearest natural number that a setting can have, a half going up. -/
def nearestNatural : Floating → Nat
  | .nan => 0
  | .infinite negative => if negative then 0 else largestNatural
  | .finite negative m e =>
    if negative then 0
    else
      let (n, d) := scale m 1 e
      min ((2 * n + d) / (2 * d)) largestNatural

def looseBool? : Datum → Option Bool
  | .bool b => some b
  | .int i => some (i != 0)
  | .float x => some (!x.isZero)
  | .text s =>
    if ["1", "true", "on", "yes"].contains (lower s) then some true
    else if ["0", "false", "off", "no"].contains (lower s) then some false
    else none
  | _ => none

def looseText? : Datum → Option String
  | .text s => some s
  | .date s => some s
  | .bool b => some (if b then "true" else "false")
  | .int i => some (toString i)
  | .float x => some (plainLayout.write double x)
  | _ => none

def looseNatural? : Datum → Option Nat
  | .int (.ofNat n) => some n
  | .bool b => some (if b then 1 else 0)
  | .float x => some (nearestNatural x)
  | .text s =>
    if ["true", "on", "yes"].contains (lower s) then some 1
    else if ["false", "off", "no"].contains (lower s) then some 0
    else ((unsigned 64).read? 10 s.toList).map Int.toNat
  | _ => none

def Conversions.loose : Conversions := ⟨looseBool?, looseText?, looseNatural?⟩

/-! ## Sections -/

/-- A setting of a section, which may be absent. Data that are no section have none. -/
def Datum.setting? (name : String) (position : Nat) : Datum → Option (Option Datum)
  | .table entries => some (entries.lookup name)
  | .list items => some items[position]?
  | _ => none

/-- Reads a setting, or takes the default if it is absent. -/
def readSetting {α : Type} (read? : Datum → Option α) (default : α) (name : String)
    (position : Nat) (d : Datum) : Option α :=
  match d.setting? name position with
  | none => none
  | some none => some default
  | some (some x) => read? x

namespace Conversions

def texts? (c : Conversions) : Datum → Option (List String)
  | .list items => items.mapM c.text?
  | _ => none

def resolver? (c : Conversions) (d : Datum) : Option ResolverConfig := do
  let defaults : ResolverConfig := {}
  let enabled ← readSetting c.bool? defaults.enabled "enabled" 0 d
  let entryPoint ← readSetting c.text? defaults.entryPoint "entry_point" 1 d
  let sourceRoots ← readSetting c.texts? defaults.sourceRoots "source_roots" 2 d
  return ⟨enabled, entryPoint, sourceRoots⟩

def formatter? (c : Conversions) (d : Datum) : Option FormatterConfig := do
  let defaults : FormatterConfig := {}
  let maxLength ← readSetting c.natural? defaults.maxLength "max_value_len" 0 d
  return ⟨maxLength⟩

def config? (c : Conversions) (d : Datum) : Option Config := do
  let resolver ← readSetting c.resolver? {} "resolver" 0 d
  let formatter ← readSetting c.formatter? {} "formatter" 1 d
  return ⟨resolver, formatter⟩

end Conversions

end Attest
