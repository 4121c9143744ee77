/-
  Selection: of several candidates, the first whose arguments do not contradict the expected
  values. Only literal arguments can contradict.
-/
import Attest.Call.Candidate
import Attest.Call.Literal

namespace Attest.Call

open Syntax

/-- Nothing in source says what a value without literal form is, so it contradicts nothing. -/
def argumentAccepts (argument : Tree) (s : Scalar) : Except Overflow Bool :=
  match s with
  | .null => .ok true
  | s => (compare argument s).map fun c => c != .notEqual

/-- Looks through one reference. -/
def dereferenced (t : Tree) : Option Tree :=
  if t.kind = .reference then t.child? .value else some t

/-- The elements of an array expression, attributes included. -/
def elements (array : Tree) : List Tree :=
  array.children.filter fun t => t.isNamed && !t.isComment

/-- A single array argument, or a reference to one, holds the values of a sequence itself. -/
def sequenceArguments (arguments : List Tree) : List Tree :=
  match arguments with
  | [t] =>
    match dereferenced t with
    | some a => if a.kind = .array then elements a else [t]
    | none => [t]
  | ts => ts

/-- All pairs agree; the search ends at the first that does not. -/
def acceptsAll : List (Scalar × Tree) → Except Overflow Bool
  | [] => .ok true
  | (s, t) :: rest =>
    match argumentAccepts t s with
    | .ok true => acceptsAll rest
    | .ok false => .ok false
    | .error e => .error e

/-- A default value may come from an argument that was left out, so it contradicts nothing. A
sequence is compared as far as both sides go. -/
def Candidate.accepts (c : Candidate) : Expected → Except Overflow Bool
  | .scalar s =>
    if s.isDefault then .ok true
    else
      match c.arguments with
      | t :: _ => argumentAccepts t s
      | [] => .ok true
  | .sequence ss => acceptsAll (ss.zip (sequenceArguments c.arguments))

/-- The first candidate that accepts the expected values. -/
def select (expected : Expected) : List Candidate → Except Overflow (Option Candidate)
  | [] => .ok none
  | c :: cs =>
    match c.accepts expected with
    | .ok true => .ok (some c)
    | .ok false => select expected cs
    | .error e => .error e

end Attest.Call
