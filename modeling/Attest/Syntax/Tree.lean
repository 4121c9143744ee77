/-
  Concrete syntax trees. Leaves are tokens; a node has a kind, the part it plays in its parent,
  its byte span and its children, comments and punctuation included.
-/
import Attest.Syntax.Token
import Attest.Text.Lines

namespace Attest.Syntax

open Text (Span)

/-- Kinds of leaves and nodes. A `mark` is a keyword or punctuation; all other kinds are named. -/
inductive Kind where
  | mark
  | lineComment | blockComment
  | name | fieldName | typeName | selfName
  | integer | float | boolean | char | text | rawText
  | unary | binary | assignment | range | cast | reference | try | await
  | call | member | generic | index | arguments | typeArguments
  | paren | tuple | unit | array | structLiteral | fields | path
  | macroCall | tokenTree | attr
  | closure | parameters | block | scope | label | jump
  | conditional | condition | match | arms | arm | loop
  | type | pattern
  | statement | declaration | items | file | stray
deriving DecidableEq, Repr

/-- The part a child plays for its parent; most children play none by name. -/
inductive Role where
  | plain
  | function
  | arguments
  | value
  | field
deriving DecidableEq, Repr

inductive Tree where
  | leaf (role : Role) (kind : Kind) (token : Token)
  | node (role : Role) (kind : Kind) (span : Span) (children : List Tree)
deriving Repr

def Kind.isNamed (k : Kind) : Bool := k != .mark

def Kind.isComment (k : Kind) : Bool := k == .lineComment || k == .blockComment

namespace Tree

def role : Tree → Role
  | leaf r _ _ => r
  | node r _ _ _ => r

def kind : Tree → Kind
  | leaf _ k _ => k
  | node _ k _ _ => k

def span : Tree → Span
  | leaf _ _ t => ⟨t.start, t.stop⟩
  | node _ _ s _ => s

def children : Tree → List Tree
  | leaf _ _ _ => []
  | node _ _ _ cs => cs

/-- The token of a leaf. -/
def token? : Tree → Option Token
  | leaf _ _ t => some t
  | node _ _ _ _ => none

/-- The text of a leaf; a node has no text of its own. -/
def text (t : Tree) : String := (t.token?.map Token.text).getD ""

def isNamed (t : Tree) : Bool := t.kind.isNamed

def isComment (t : Tree) : Bool := t.kind.isComment

def child? (t : Tree) (r : Role) : Option Tree := t.children.find? fun c => c.role == r

def withRole (r : Role) : Tree → Tree
  | leaf _ k t => leaf r k t
  | node _ k s cs => node r k s cs

mutual

/-- The tree and all trees inside it, each before its children. -/
def preorder : Tree → List Tree
  | leaf r k t => [leaf r k t]
  | node r k s cs => node r k s cs :: preorderAll cs

def preorderAll : List Tree → List Tree
  | [] => []
  | t :: ts => preorder t ++ preorderAll ts

end

mutual

/-- The tokens of the leaves, in order. -/
def tokens : Tree → List Token
  | leaf _ _ t => [t]
  | node _ _ _ cs => tokensAll cs

def tokensAll : List Tree → List Token
  | [] => []
  | t :: ts => tokens t ++ tokensAll ts

end

/-- A node that spans its children, without the comments in front of them: those stay outside. -/
def wrap (kind : List Tree → Kind) (ts : List Tree) : List Tree :=
  let body := ts.dropWhile isComment
  match body.head?, body.getLast? with
  | some first, some last =>
    ts.takeWhile isComment ++ [node .plain (kind body) ⟨first.span.start, last.span.stop⟩ body]
  | _, _ => ts

/-- Gives the role to all but comments. -/
def label (r : Role) (ts : List Tree) : List Tree :=
  ts.map fun t => if t.isComment then t else t.withRole r

end Tree

end Attest.Syntax
