/-
  Dates and times of TOML, read into the one text that they are shown as: `T` between date and
  time, `Z` for the zone of that name, and a fraction of at most nine digits, without zeros at its
  end.
-/
import Attest.Number.Read

namespace Attest.Toml

open Number (isDigit digitsValue)

/-- As many digits as asked for, and their value. -/
def digitsOf? (count : Nat) (cs : List Char) : Option (List Char × List Char) :=
  let ds := cs.take count
  if ds.length = count && ds.all isDigit then some (ds, cs.drop count) else none

/-- Two digits with a value in bounds. -/
def field? (low high : Nat) (cs : List Char) : Option (List Char × List Char) :=
  (digitsOf? 2 cs).filter fun (ds, _) => low ≤ digitsValue ds && digitsValue ds ≤ high

def after? (mark : Char) : List Char → Option (List Char)
  | c :: cs => if c = mark then some cs else none
  | [] => none

def isLeapYear (year : Nat) : Bool := year % 4 == 0 && (year % 100 != 0 || year % 400 == 0)

def daysIn (year month : Nat) : Nat :=
  if month = 2 then if isLeapYear year then 29 else 28
  else if [4, 6, 9, 11].contains month then 30
  else 31

def readDay? (cs : List Char) : Option (List Char × List Char) := do
  let (year, cs) ← digitsOf? 4 cs
  let cs ← after? '-' cs
  let (month, cs) ← field? 1 12 cs
  let cs ← after? '-' cs
  let (day, cs) ← field? 1 (daysIn (digitsValue year) (digitsValue month)) cs
  return (year ++ '-' :: month ++ '-' :: day, cs)

/-- The digits of a fraction that are shown, behind their point. -/
def shownFraction (ds : List Char) : List Char :=
  let kept := ((ds.take 9).reverse.dropWhile (· == '0')).reverse
  if kept.isEmpty then [] else '.' :: kept

/-- A fraction of a second, if there is one. A point without digits is an error. -/
def readFraction? : List Char → Option (List Char × List Char)
  | '.' :: cs =>
    let ds := cs.takeWhile isDigit
    if ds.isEmpty then none else some (shownFraction ds, cs.dropWhile isDigit)
  | cs => some ([], cs)

/-- Sixty seconds are allowed, for leap seconds. -/
def readTime? (cs : List Char) : Option (List Char × List Char) := do
  let (hour, cs) ← field? 0 23 cs
  let cs ← after? ':' cs
  let (minute, cs) ← field? 0 59 cs
  let cs ← after? ':' cs
  let (second, cs) ← field? 0 60 cs
  let (fraction, cs) ← readFraction? cs
  return (hour ++ ':' :: minute ++ ':' :: second ++ fraction, cs)

/-- The zone, if there is one. No distance from the zone `Z` is a positive one. -/
def readZone? : List Char → Option (List Char × List Char)
  | [] => some ([], [])
  | c :: cs =>
    if c = 'Z' || c = 'z' then some (['Z'], cs)
    else if c = '+' || c = '-' then do
      let (hour, cs) ← field? 0 23 cs
      let cs ← after? ':' cs
      let (minute, cs) ← field? 0 59 cs
      let sign := if digitsValue (hour ++ minute) = 0 then '+' else c
      return (sign :: hour ++ ':' :: minute, cs)
    else some ([], c :: cs)

/-- Can the text go on with a time of day? A blank may also be the end of the date. -/
def readTimeOfDay? : List Char → Option (List Char × List Char)
  | [] => some ([], [])
  | c :: cs =>
    if c = 'T' || c = 't' || c = ' ' then
      if (digitsOf? 2 cs).isSome then do
        let (time, cs) ← readTime? cs
        let (zone, cs) ← readZone? cs
        return ('T' :: time ++ zone, cs)
      else some ([], c :: cs)
    else some ([], c :: cs)

/-- A date, a date with a time, or a time. -/
def readDate? (cs : List Char) : Option (String × List Char) :=
  match readDay? cs with
  | some (day, rest) =>
    (readTimeOfDay? rest).map fun (time, rest') => (String.ofList (day ++ time), rest')
  | none => (readTime? cs).map fun (time, rest) => (String.ofList time, rest)

end Attest.Toml
