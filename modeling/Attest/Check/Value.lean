/-
  Values that checks are made on: how they are shown, what scalar they denote, how they compare,
  and what their default is.
-/
import Attest.Scalar

namespace Attest

open Number

class Shown (α : Type) where
  render : α → String

class Denoted (α : Type) where
  scalar : α → Scalar

/-- An order that need not be total. -/
class Ordered (α : Type) where
  lt : α → α → Bool
  le : α → α → Bool

/-- The value that stands for nothing. -/
class Initial (α : Type) where
  initial : α

/-- A floating-point number of a format. -/
structure FloatOf (f : Format) where
  value : Floating

namespace Check

def showList {α : Type} (render : α → String) (xs : List α) : String :=
  "[" ++ String.intercalate ", " (xs.map render) ++ "]"

def showOption {α : Type} (render : α → String) : Option α → String
  | none => "None"
  | some x => "Some(" ++ render x ++ ")"

end Check

/-! ## Integers -/

instance : Shown Int := ⟨toString⟩
instance : Denoted Int := ⟨Scalar.ofInt⟩
instance : Ordered Int := ⟨fun a b => a < b, fun a b => a ≤ b⟩
instance : Initial Int := ⟨0⟩

/-! ## Floating-point numbers -/

instance {f : Format} : Shown (FloatOf f) := ⟨fun x => exactLayout.write f x.value⟩
instance {f : Format} : Denoted (FloatOf f) := ⟨fun x => .float (x.value.convert double)⟩
instance {f : Format} : BEq (FloatOf f) := ⟨fun x y => x.value.beq y.value⟩
instance {f : Format} : Ordered (FloatOf f) :=
  ⟨fun x y => x.value.blt y.value, fun x y => x.value.ble y.value⟩
instance {f : Format} : Initial (FloatOf f) := ⟨⟨.finite false 0 f.least⟩⟩

/-! ## Truth values, characters and texts -/

instance : Shown Bool := ⟨fun b => if b then "true" else "false"⟩
instance : Denoted Bool := ⟨.bool⟩
instance : Ordered Bool := ⟨fun a b => !a && b, fun a b => !a || b⟩
instance : Initial Bool := ⟨false⟩

instance : Shown Char := ⟨Text.quoteChar⟩
instance : Denoted Char := ⟨.char⟩
instance : Ordered Char := ⟨fun a b => a < b, fun a b => a ≤ b⟩
instance : Initial Char := ⟨'\x00'⟩

instance : Shown String := ⟨Text.quoteString⟩
instance : Denoted String := ⟨.text⟩
instance : Ordered String := ⟨fun a b => a < b, fun a b => !(b < a)⟩
instance : Initial String := ⟨""⟩

/-! ## Options -/

instance {α : Type} [Shown α] : Shown (Option α) := ⟨Check.showOption Shown.render⟩

/-- An absent value denotes absence. -/
instance {α : Type} [Denoted α] : Denoted (Option α) := ⟨fun x? => x?.elim .null Denoted.scalar⟩

/-- What is absent comes first. -/
instance {α : Type} [Ordered α] : Ordered (Option α) where
  lt
    | none, b => b.isSome
    | some _, none => false
    | some a, some b => Ordered.lt a b
  le
    | none, _ => true
    | some _, none => false
    | some a, some b => Ordered.le a b

instance {α : Type} : Initial (Option α) := ⟨none⟩

/-! ## Lists -/

instance {α : Type} [Shown α] : Shown (List α) := ⟨Check.showList Shown.render⟩
instance {α : Type} : Initial (List α) := ⟨[]⟩

end Attest
