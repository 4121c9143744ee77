/-
  Splitting a text at a character and joining it again.
-/
namespace Attest.Text

/-- The parts between the separators, one more than there are separators. -/
def split (separator : Char) : List Char → List (List Char)
  | [] => [[]]
  | c :: cs =>
    if c = separator then [] :: split separator cs
    else
      match split separator cs with
      | [] => [[c]]
      | part :: parts => (c :: part) :: parts

theorem split_ne_nil (separator : Char) (cs : List Char) : split separator cs ≠ [] := by
  cases cs with
  | nil => simp [split]
  | cons c cs =>
    rw [split]
    split
    · simp
    · split <;> simp

def join (separator : Char) : List (List Char) → List Char
  | [] => []
  | [part] => part
  | part :: next :: parts => part ++ separator :: join separator (next :: parts)

/-- Nothing is lost by splitting. -/
theorem join_split (separator : Char) (cs : List Char) :
    join separator (split separator cs) = cs := by
  induction cs with
  | nil => rfl
  | cons c cs ih =>
    rw [split]
    cases h : split separator cs with
    | nil => exact absurd h (split_ne_nil separator cs)
    | cons part parts =>
      rw [h] at ih
      by_cases hc : c = separator
      · rw [if_pos hc, join, ih, hc, List.nil_append]
      · rw [if_neg hc]
        cases parts with
        | nil => simp only [join] at ih ⊢; rw [ih]
        | cons next parts => simp only [join, List.cons_append] at ih ⊢; rw [ih]

def splitString (separator : Char) (s : String) : List String :=
  (split separator s.toList).map String.ofList

/-- Puts `new` in the place of every two `a` in a row, taken from the left. -/
def replacePairs (a : Char) (new : List Char) : List Char → List Char
  | c :: d :: cs =>
    if c = a && d = a then new ++ replacePairs a new cs else c :: replacePairs a new (d :: cs)
  | cs => cs

end Attest.Text
