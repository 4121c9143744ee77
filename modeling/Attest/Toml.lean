/-
  TOML documents. `Toml.read?` takes a whole text to the data that it holds, or to nothing if the
  text is no document.
-/
import Attest.Toml.Line

namespace Attest.Toml

/-- The tables defined so far, and the path of the one that entries go to. -/
structure Document where
  root : Table := []
  current : List String := []
deriving Repr

def Document.add? (d : Document) : Line → Option Document
  | .blank => some d
  | .header path => (Table.atParent? Table.addHeader? path d.root).map (⟨·, path⟩)
  | .element path => (Table.atParent? Table.addElement? path d.root).map (⟨·, path⟩)
  | .entry path value =>
    (Table.change? false (Table.addValue? path value) d.current .header d.root).map (⟨·, d.current⟩)

def Document.ofLines? (lines : List Line) : Option Document :=
  lines.foldl (fun d? line => d?.bind (·.add? line)) (some {})

/-- A byte order mark in front of the text is no part of it. -/
def dropMark : List Char → List Char
  | '\ufeff' :: cs => cs
  | cs => cs

/-- The entries of the top table. -/
def read? (text : String) : Option (List (String × Datum)) :=
  let cs := dropMark text.toList
  (readLines? (cs.length + 1) cs).bind fun lines =>
    (Document.ofLines? lines).map fun d => Table.data d.root

end Attest.Toml
