/-
  Candidates: calls of a method found in a source. One search takes the calls that lie on a line,
  the other the calls whose method name stands on it, wherever they begin and end.
-/
import Attest.Syntax.Source

namespace Attest.Call

open Syntax
open Text (Span)

/-- A method call and the member expression that names the method. -/
structure Candidate where
  call : Tree
  member : Tree
deriving Repr

namespace Candidate

/-- The member expression that a call calls, with or without type arguments. -/
def memberOf? (t : Tree) : Option Tree :=
  if t.kind = .call then
    match t.child? .function with
    | some f =>
      match (if f.kind = .generic then f.child? .function else some f) with
      | some m => if m.kind = .member then some m else none
      | none => none
    | none => none
  else none

/-- The name that a member expression gives. -/
def fieldText? (member : Tree) : Option String := (member.child? .field).map Tree.text

/-- A call of `method`. -/
def ofTree? (method : String) (t : Tree) : Option Candidate :=
  match memberOf? t with
  | some m => if fieldText? m = some method then some ⟨t, m⟩ else none
  | none => none

/-- What the method is called on. -/
def receiver? (c : Candidate) : Option Tree := c.member.child? .value

def isArgument (t : Tree) : Bool := t.isNamed && !t.isComment && t.kind != .attr

/-- The arguments without comments and attributes. -/
def arguments (c : Candidate) : List Tree :=
  match c.call.child? .arguments with
  | some as => as.children.filter isArgument
  | none => []

def start (c : Candidate) : Nat := c.call.span.start

/-- The row of the method's name. A numeric member is no method name. -/
def nameRow? (c : Candidate) : Option Nat :=
  match c.member.child? .field with
  | some f => if f.kind = .fieldName then f.token?.map Token.row else none
  | none => none

end Candidate

/-! ## Order -/

/-- Puts a candidate behind all that do not start after it. -/
def insertByStart (c : Candidate) : List Candidate → List Candidate
  | [] => [c]
  | d :: ds => if c.start < d.start then c :: d :: ds else d :: insertByStart c ds

/-- Sorts by start; candidates that start together keep their order. -/
def sortByStart (cs : List Candidate) : List Candidate := cs.foldl (fun ds c => insertByStart c ds) []

/-! ## Calls on a line -/

/-- A tree that is not empty and lies in the span. -/
def liesIn (span : Span) (t : Tree) : Bool := span.contains t.span && !t.span.isEmpty

mutual

/-- The trees that lie in the span, each before its children. Only trees that touch the span are
looked into. -/
def treesIn (span : Span) : Tree → List Tree
  | .leaf r k t => if liesIn span (.leaf r k t) then [.leaf r k t] else []
  | .node r k s cs =>
    (if liesIn span (.node r k s cs) then [.node r k s cs] else []) ++
      (if s.touches span then treesInAll span cs else [])

def treesInAll (span : Span) : List Tree → List Tree
  | [] => []
  | t :: ts => treesIn span t ++ treesInAll span ts

end

/-- The trees that lie on a line, counted from 1; none if there is no such line. -/
def treesOnLine (source : Source) (line : Nat) : List Tree :=
  match Text.lineSpan source.text line with
  | some span => treesIn span source.root
  | none => []

def onLine (source : Source) (method : String) (line : Nat) : List Candidate :=
  sortByStart ((treesOnLine source line).filterMap (Candidate.ofTree? method))

/-! ## Calls named on a row -/

mutual

/-- The tree and all trees inside it, each behind its children. -/
def postorder : Tree → List Tree
  | .leaf r k t => [.leaf r k t]
  | .node r k s cs => postorderAll cs ++ [.node r k s cs]

def postorderAll : List Tree → List Tree
  | [] => []
  | t :: ts => postorder t ++ postorderAll ts

end

/-- The calls whose method name stands on a row, counted from 0. Of calls that start together the
inner one comes first. -/
def anchored (source : Source) (method : String) (row : Nat) : List Candidate :=
  sortByStart (((postorder source.root).filterMap (Candidate.ofTree? method)).filter
    fun c => c.nameRow? == some row)

/-- The calls of a method that may have failed on a line: those that lie on it, or else those
whose name stands on it. -/
def candidates (source : Source) (method : String) (line : Nat) : List Candidate :=
  match onLine source method line, line with
  | [], row + 1 => anchored source method row
  | cs, _ => cs

end Attest.Call
