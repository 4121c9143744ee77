/-
  Scalars: the primitive values that a check can be given and that can be written as literals.
  `Expected` is what a check expected, one scalar or a sequence of them.
-/
import Attest.Number.Written
import Attest.Number.Read
import Attest.Text.Quoted

namespace Attest

open Number (Floating)

/-- `null` stands for a value that is absent or has no literal form. -/
inductive Scalar where
  | null
  | bool (b : Bool)
  | int (i : Int)
  | float (x : Floating)
  | char (c : Char)
  | text (s : String)
deriving DecidableEq, Repr

inductive Expected where
  | scalar (s : Scalar)
  | sequence (ss : List Scalar)
deriving DecidableEq, Repr

namespace Scalar

/-- The zero of its kind. Such a value may come from an argument that was left out. -/
def isDefault : Scalar → Bool
  | null => true
  | bool b => !b
  | int i => i == 0
  | float x => x.isZero
  | char c => c == '\x00'
  | text s => s.isEmpty

def kind : Scalar → String
  | null => "null"
  | bool _ => "bool"
  | int _ => "int"
  | float _ => "float"
  | char _ => "char"
  | text _ => "str"

/-- The literal that denotes the scalar; absence is spelt `None`. -/
def render : Scalar → String
  | null => "None"
  | bool b => if b then "true" else "false"
  | int i => toString i
  | float x => Number.exactLayout.write Number.double x
  | char c => Text.quoteChar c
  | text s => Text.quoteString s

/-- Integers that a scalar cannot hold have no literal form here. -/
def ofInt (i : Int) : Scalar := if Number.scalarRange.has i then int i else null

/-- A single-precision number is widened. -/
def ofSingle (x : Floating) : Scalar := float (x.convert Number.double)

end Scalar

/-- What a check without argument expects. -/
def Expected.none : Expected := .sequence []

end Attest
