/-
  Splitting undoes joining: parts without the separator are got back from the joined text
  (`split_join`, and `splitString_intercalate` for strings). A front part is told from the rest by
  the first character that it does not accept (`takeWhile_front`).
-/
import Attest.Text.Split

namespace Attest.Text

variable {separator : Char}

/-- A separator between two texts separates their parts. -/
theorem split_append (xs ys : List Char) :
    split separator (xs ++ separator :: ys) = split separator xs ++ split separator ys := by
  induction xs with
  | nil => simp only [List.nil_append, split, if_true, List.cons_append]
  | cons c xs ih =>
    rw [List.cons_append, split, split, ih]
    split
    · rfl
    · cases hsplit : split separator xs with
      | nil => exact absurd hsplit (split_ne_nil separator xs)
      | cons part parts => rfl

theorem split_of_not_mem {cs : List Char} (h : separator ∉ cs) : split separator cs = [cs] := by
  induction cs with
  | nil => rfl
  | cons c cs ih =>
    obtain ⟨hc, hcs⟩ := not_or.1 (mt List.mem_cons.2 h)
    rw [split, if_neg (Ne.symm hc), ih hcs]

theorem not_mem_of_mem_split {part cs : List Char} (h : part ∈ split separator cs) :
    separator ∉ part := by
  induction cs generalizing part with
  | nil =>
    rw [split, List.mem_singleton] at h
    simp [h]
  | cons c cs ih =>
    rw [split] at h
    by_cases hc : c = separator
    · rw [if_pos hc, List.mem_cons] at h
      rcases h with rfl | h
      · exact List.not_mem_nil
      · exact ih h
    · obtain ⟨first, parts, hsplit⟩ := List.exists_cons_of_ne_nil (split_ne_nil separator cs)
      rw [hsplit] at h ih
      rw [if_neg hc, List.mem_cons] at h
      rcases h with rfl | h
      · rw [List.mem_cons, not_or]
        exact ⟨Ne.symm hc, ih List.mem_cons_self⟩
      · exact ih (List.mem_cons_of_mem _ h)

/-- A character that separates nothing stands in one of the parts. -/
theorem exists_mem_split {c : Char} (hc : c ≠ separator) {cs : List Char} :
    (∃ part ∈ split separator cs, c ∈ part) ↔ c ∈ cs := by
  induction cs with
  | nil => simp [split]
  | cons d cs ih =>
    rw [split]
    by_cases hd : d = separator
    · rw [if_pos hd, List.mem_cons, ← ih]
      simp [hd ▸ hc]
    · obtain ⟨first, parts, hsplit⟩ := List.exists_cons_of_ne_nil (split_ne_nil separator cs)
      rw [hsplit] at ih
      rw [if_neg hd, hsplit, List.mem_cons, ← ih]
      simp [or_assoc]

theorem split_join {parts : List (List Char)} (hne : parts ≠ [])
    (h : ∀ part ∈ parts, separator ∉ part) : split separator (join separator parts) = parts := by
  match parts, hne with
  | [part], _ => exact split_of_not_mem (h part List.mem_cons_self)
  | part :: next :: rest, _ =>
    have hrest := split_join (List.cons_ne_nil next rest)
      (fun p hp => h p (List.mem_cons_of_mem _ hp))
    rw [join, split_append, split_of_not_mem (h part List.mem_cons_self), hrest]
    rfl

theorem join_eq_intercalate (separator : Char) (parts : List (List Char)) :
    join separator parts = [separator].intercalate parts := by
  match parts with
  | [] => rfl
  | [part] => rw [join, List.intercalate_singleton]
  | part :: next :: rest =>
    rw [join, join_eq_intercalate separator (next :: rest), List.intercalate_cons_cons]
    simp

/-- Texts joined with the separator are got back. -/
theorem splitString_intercalate {joint : String} (hjoint : joint.toList = [separator])
    {texts : List String} (hne : texts ≠ []) (h : ∀ text ∈ texts, separator ∉ text.toList) :
    splitString separator (joint.intercalate texts) = texts := by
  rw [splitString, String.toList_intercalate, hjoint, ← join_eq_intercalate,
    split_join (by simpa using hne) (by simpa using h), List.map_map]
  simp

/-! ## Front parts -/

/-- The characters that a front part accepts end where the rest begins with another. -/
theorem takeWhile_front {accepts : Char → Bool} {cs rest : List Char}
    (h : ∀ c ∈ cs, accepts c = true) (hrest : ∀ c ∈ rest.head?, accepts c = false) :
    (cs ++ rest).takeWhile accepts = cs ∧ (cs ++ rest).dropWhile accepts = rest := by
  have hstop : rest.takeWhile accepts = [] ∧ rest.dropWhile accepts = rest := by
    cases rest with
    | nil => exact ⟨rfl, rfl⟩
    | cons c rest =>
      have hc := hrest c rfl
      exact ⟨List.takeWhile_cons_of_neg (by simp [hc]), List.dropWhile_cons_of_neg (by simp [hc])⟩
  rw [List.takeWhile_append_of_pos h, List.dropWhile_append_of_pos h, hstop.1, hstop.2,
    List.append_nil]
  exact ⟨rfl, rfl⟩

end Attest.Text
