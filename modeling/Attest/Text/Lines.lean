/-
  Lines of a text as byte spans. A line ends at a line feed; the line feed and one carriage
  return in front of it are not part of the line. The last line needs no line feed, so a text
  with k line feeds has k + 1 lines.
-/
namespace Attest.Text

/-- Bytes from `start` up to, not including, `stop`. -/
structure Span where
  start : Nat
  stop : Nat
deriving DecidableEq, Repr

namespace Span

def contains (outer inner : Span) : Bool :=
  outer.start ≤ inner.start && inner.stop ≤ outer.stop

/-- The two spans share a byte or a border. -/
def touches (a b : Span) : Bool := a.start ≤ b.stop && b.start ≤ a.stop

def isEmpty (s : Span) : Bool := s.stop ≤ s.start

end Span

/-- The span of a line read from `start` to `pos`, its last character a carriage return or not. -/
def lineTo (start pos : Nat) (carriage : Bool) : Span :=
  ⟨start, if carriage then pos - 1 else pos⟩

/-- Spans of the lines of `cs`, where the open line began at `start` and the reading is at `pos`. -/
def linesFrom (start pos : Nat) (carriage : Bool) : List Char → List Span
  | [] => [lineTo start pos carriage]
  | c :: cs =>
    if c = '\n' then lineTo start pos carriage :: linesFrom (pos + 1) (pos + 1) false cs
    else linesFrom start (pos + c.utf8Size) (c == '\r') cs

def lines (text : String) : List Span := linesFrom 0 0 false text.toList

/-- Lines are numbered from 1. -/
def lineSpan (text : String) : Nat → Option Span
  | 0 => none
  | n + 1 => (lines text)[n]?

/-- The characters of `cs` whose first byte lies in the span, `cs` starting at byte `pos`. -/
def sliceFrom (span : Span) (pos : Nat) : List Char → List Char
  | [] => []
  | c :: cs =>
    let rest := sliceFrom span (pos + c.utf8Size) cs
    if span.start ≤ pos && pos < span.stop then c :: rest else rest

def slice (text : String) (span : Span) : String := String.ofList (sliceFrom span 0 text.toList)

end Attest.Text
