/-
  Sources: a text and the tree read from it. `Source.parse` never fails; what it cannot read
  stands in the tree as stray tokens.
-/
import Attest.Syntax.Grammar

namespace Attest.Syntax

structure Source where
  text : String
  root : Tree
deriving Repr

/-- Enough depth for every rule chain between two tokens, for as many tokens as there are. Comments
are read together with the token behind them. -/
def parseFuel (ts : List Token) : Nat := 400 * ((ts.filter fun t => !t.isComment).length + 4)

/-- A token that no rule has read. -/
def strayLeaf (t : Token) : Tree :=
  if t.isComment then commentLeaf t else .leaf .plain .stray t

def parseTokens (ts : List Token) : List Tree :=
  match read rust (parseFuel ts) (.rule .file) ts with
  | some (xs, rest) => xs ++ rest.map strayLeaf
  | none => ts.map strayLeaf

def Source.parse (text : String) : Source :=
  ⟨text, .node .plain .file ⟨0, text.utf8ByteSize⟩ (parseTokens (scan text))⟩

end Attest.Syntax
