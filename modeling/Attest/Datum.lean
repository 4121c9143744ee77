/-
  Data of settings files: what a file holds before anyone says which fields it should have. Both
  file formats are read into it; one of them knows dates, the other knows absence.
-/
import Attest.Number.Format

namespace Attest

open Number (Floating)

/-- A date is kept as its text. A table holds each key once. -/
inductive Datum where
  | null
  | bool (b : Bool)
  | int (i : Int)
  | float (x : Floating)
  | text (s : String)
  | date (written : String)
  | list (items : List Datum)
  | table (entries : List (String × Datum))
deriving Repr

/-- Gives the key a value, in the key's place if it is there and at the end if not. -/
def assign {α : Type} (key : String) (value : α) : List (String × α) → List (String × α)
  | [] => [(key, value)]
  | (k, v) :: rest => if k = key then (k, value) :: rest else (k, v) :: assign key value rest

theorem lookup_assign_self {α : Type} (key : String) (value : α) (entries : List (String × α)) :
    (assign key value entries).lookup key = some value := by
  induction entries with
  | nil => simp [assign]
  | cons e rest ih =>
    obtain ⟨k, v⟩ := e
    by_cases h : k = key
    · subst h; simp [assign]
    · have h' : (key == k) = false := by simp [Ne.symm h]
      simp [assign, h, List.lookup_cons, h', ih]

theorem lookup_assign_ne {α : Type} {key other : String} (h : other ≠ key) (value : α)
    (entries : List (String × α)) :
    (assign key value entries).lookup other = entries.lookup other := by
  induction entries with
  | nil => simp [assign, List.lookup_cons, beq_false_of_ne h]
  | cons e rest ih =>
    obtain ⟨k, v⟩ := e
    by_cases hk : k = key
    · subst hk; simp [assign, List.lookup_cons, beq_false_of_ne h]
    · simp [assign, hk, List.lookup_cons, ih]

end Attest
