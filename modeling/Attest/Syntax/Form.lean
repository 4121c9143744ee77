/-
  Grammars as data: forms that read a forest off the front of a token list, first match first,
  and one reader for all of them. Comments may stand in front of any token; they become leaves
  of the innermost node that has tokens on both sides of them.
-/
import Attest.Syntax.Tree

namespace Attest.Syntax

/-- Forms over the rule names `ν`. `grow` reads a base and then wraps it, link after link. A link
says behind which kinds of expression it may stand, the kind of the new node, the role in it of
what stood there before, and the form of what it adds. -/
inductive Form (ν : Type) where
  | empty
  | token (accepts : Token → Bool) (kind : Token → Kind)
  | operator (spelling : String)
  | seq (first second : Form ν)
  | alt (first second : Form ν)
  | many (item : Form ν)
  | unless (absent : Form ν)
  | role (r : Role) (form : Form ν)
  | node (kind : List Tree → Kind) (form : Form ν)
  | grow (base : Form ν) (links : List ((Kind → Bool) × Kind × Role × Form ν))
  | rule (name : ν)

/-! ## Operators -/

/-- Operators of more than one mark, longest first. -/
def longOperators : List String :=
  ["<<=", ">>=", "...", "..=", "&&", "||", "==", "!=", "<=", ">=", "+=", "-=", "*=", "/=", "%=",
   "^=", "&=", "|=", "<<", ">>", "->", "=>", "::", ".."]

/-- The text of the marks at the front that touch each other, at most `n` of them. -/
def adjoining : Nat → List Token → List Char
  | 0, _ => []
  | _, [] => []
  | n + 1, t :: ts =>
    if t.kind == .mark then
      t.text.toList ++
        (match ts with
        | u :: _ => if u.start = t.stop then adjoining n ts else []
        | [] => [])
    else []

/-- The longest operator at the front, one mark if no longer one is there. -/
def operatorAt (ts : List Token) : String :=
  let marks := adjoining 3 ts
  (longOperators.find? fun o => o.toList.isPrefixOf marks).getD (String.ofList (marks.take 1))

/-! ## Reading -/

def commentLeaf (t : Token) : Tree :=
  .leaf .plain (if t.kind == .lineComment then .lineComment else .blockComment) t

def comments (ts : List Token) : List Token := ts.takeWhile Token.isComment

def significant (ts : List Token) : List Token := ts.dropWhile Token.isComment

/-- One token with the comments in front of it. -/
def readToken (accepts : Token → Bool) (kind : Token → Kind) (ts : List Token) :
    Option (List Tree × List Token) :=
  match significant ts with
  | t :: rest =>
    if accepts t then some ((comments ts).map commentLeaf ++ [.leaf .plain (kind t) t], rest)
    else none
  | [] => none

/-- The kind of what has been read last. -/
def lastKind (xs : List Tree) : Kind := (xs.getLast?.map Tree.kind).getD .stray

def readOperator (spelling : String) (ts : List Token) : Option (List Tree × List Token) :=
  let body := significant ts
  if operatorAt body = spelling && !spelling.isEmpty then
    some ((comments ts).map commentLeaf ++
      (body.take spelling.length).map (Tree.leaf .plain .mark ·), body.drop spelling.length)
  else none

mutual

/-- Reads a form, following the rules of `grammar` to at most the depth `fuel`. -/
def read {ν : Type} (grammar : ν → Form ν) :
    Nat → Form ν → List Token → Option (List Tree × List Token)
  | 0, _, _ => none
  | fuel + 1, form, ts =>
    match form with
    | .empty => some ([], ts)
    | .token accepts kind => readToken accepts kind ts
    | .operator spelling => readOperator spelling ts
    | .seq first second =>
      match read grammar fuel first ts with
      | none => none
      | some (xs, rest) =>
        match read grammar fuel second rest with
        | none => none
        | some (ys, rest) => some (xs ++ ys, rest)
    | .alt first second =>
      match read grammar fuel first ts with
      | some r => some r
      | none => read grammar fuel second ts
    | .many item =>
      match read grammar fuel item ts with
      | none => some ([], ts)
      | some (xs, rest) =>
        match read grammar fuel (.many item) rest with
        | none => some (xs, rest)
        | some (ys, rest) => some (xs ++ ys, rest)
    | .unless absent =>
      match read grammar fuel absent ts with
      | some _ => none
      | none => some ([], ts)
    | .role r form => (read grammar fuel form ts).map fun (xs, rest) => (Tree.label r xs, rest)
    | .node kind form => (read grammar fuel form ts).map fun (xs, rest) => (Tree.wrap kind xs, rest)
    | .grow base links =>
      match read grammar fuel base ts with
      | none => none
      | some (xs, rest) => some (extend grammar fuel links xs rest)
    | .rule name => read grammar fuel (grammar name) ts

/-- Wraps what has been read as long as one of the links goes on from it. -/
def extend {ν : Type} (grammar : ν → Form ν) :
    Nat → List ((Kind → Bool) × Kind × Role × Form ν) → List Tree → List Token →
      List Tree × List Token
  | 0, _, xs, ts => (xs, ts)
  | fuel + 1, links, xs, ts =>
    match links.findSome? fun (behind, kind, role, form) =>
        if behind (lastKind xs) then
          (read grammar fuel form ts).map fun (ys, rest) => (kind, role, ys, rest)
        else none with
    | none => (xs, ts)
    | some (kind, role, ys, rest) =>
      extend grammar fuel links (Tree.wrap (fun _ => kind) (Tree.label role xs ++ ys)) rest

end

end Attest.Syntax
