/-
  Lines of TOML: a header of one bare name, and an entry of a bare name with its value. Main
  statements: such a line is read as what it says (`readLine?_header`, `readLine?_entry`), and a
  text is read line by line (`readLines?_cons`).
-/
import Attest.Toml.Line

namespace Attest.Toml

/-- Letters, digits, underscores and dashes, at least one of them. -/
structure IsBareName (name : List Char) : Prop where
  ne_nil : name ≠ []
  all_bare : name.all isBareKey = true

variable {name rest : List Char}

theorem IsBareName.bare (h : IsBareName name) : ∀ c ∈ name, isBareKey c = true :=
  List.all_eq_true.1 h.all_bare

/-- A bare name begins with none of the marks that mean something else. -/
theorem IsBareName.exists_cons (h : IsBareName name) :
    ∃ c tail, name = c :: tail ∧ isBareKey c = true := by
  obtain ⟨c, tail, hname⟩ := List.exists_cons_of_ne_nil h.ne_nil
  exact ⟨c, tail, hname, h.bare c (by simp [hname])⟩

theorem ne_of_isBareKey {c x : Char} (h : isBareKey c = true) (hx : isBareKey x = false) : c ≠ x := by
  rintro rfl
  simp [hx] at h

theorem skipSpaces_of_isBareKey {c : Char} (h : isBareKey c = true) (cs : List Char) :
    skipSpaces (c :: cs) = c :: cs := by
  have hspace : isSpace c = false := by
    rw [isSpace, Bool.or_eq_false_iff, beq_eq_false_iff_ne, beq_eq_false_iff_ne]
    exact ⟨ne_of_isBareKey h (by decide), ne_of_isBareKey h (by decide)⟩
  rw [skipSpaces, List.dropWhile_cons_of_neg (by simp [hspace])]

/-- A bare name is read up to the first character that belongs to none. -/
theorem readPart?_bare (h : IsBareName name) {x : Char} (hx : isBareKey x = false) :
    readPart? (name ++ x :: rest) = some (String.ofList name, x :: rest) := by
  have htake : (name ++ x :: rest).takeWhile isBareKey = name := by
    rw [List.takeWhile_append_of_pos h.bare, List.takeWhile_cons_of_neg (by simp [hx]),
      List.append_nil]
  have hdrop : (name ++ x :: rest).dropWhile isBareKey = x :: rest := by
    rw [List.dropWhile_append_of_pos h.bare, List.dropWhile_cons_of_neg (by simp [hx])]
  obtain ⟨c, tail, hname, hc⟩ := h.exists_cons
  have hempty : name.isEmpty = false := by rw [hname]; rfl
  unfold readPart?
  dsimp only
  split
  · next heq =>
    rw [hname] at heq
    exact absurd (List.cons.inj heq).1 (ne_of_isBareKey hc (by decide))
  · next heq =>
    rw [hname] at heq
    exact absurd (List.cons.inj heq).1 (ne_of_isBareKey hc (by decide))
  · rw [htake, hdrop, hempty, if_neg (by decide)]

/-- A path of one name ends where no point follows. -/
theorem readPath?_bare (h : IsBareName name) {x : Char} {after : List Char}
    (hx : isBareKey x = false) (hskip : skipSpaces (x :: rest) = after)
    (hafter : after.head? ≠ some '.') :
    readPath? maxDepth (name ++ x :: rest) = some ([String.ofList name], after) := by
  obtain ⟨c, tail, hname, hc⟩ := h.exists_cons
  have hstart : skipSpaces (name ++ x :: rest) = name ++ x :: rest := by
    rw [hname, List.cons_append, skipSpaces_of_isBareKey hc]
  rw [maxDepth, readPath?, hstart, readPart?_bare h hx, Option.bind_eq_bind, Option.bind_some]
  dsimp only
  rw [hskip]
  split
  · exact absurd rfl hafter
  · rfl

theorem readLine?_header (h : IsBareName name) (rest : List Char) :
    readLine? ('[' :: (name ++ (']' :: '\n' :: rest))) =
      some (.header [String.ofList name], rest) := by
  have hpath : readPath? maxDepth (name ++ ']' :: '\n' :: rest) =
      some ([String.ofList name], ']' :: '\n' :: rest) :=
    readPath?_bare h (by decide) rfl (by simp)
  have hheader : readHeader? 1 (name ++ (']' :: '\n' :: rest)) = some ([String.ofList name], rest) := by
    rw [readHeader?, hpath]
    rfl
  obtain ⟨c, tail, hname, hc⟩ := h.exists_cons
  have hskip : skipSpaces ('[' :: (name ++ (']' :: '\n' :: rest))) =
      '[' :: (name ++ (']' :: '\n' :: rest)) := rfl
  unfold readLine?
  rw [hskip]
  split
  · next heq => simp at heq
  · next heq =>
    -- The name does not begin with a bracket.
    have hbracket := (List.cons.inj heq).2
    rw [hname] at hbracket
    exact absurd (List.cons.inj hbracket).1 (ne_of_isBareKey hc (by decide))
  · next heq =>
    rw [← (List.cons.inj heq).2, hheader]
    rfl
  · next hbracket heq => exact (hbracket (List.cons.inj heq).1.symm).elim

/-- The value of an entry begins with a character that is neither a space nor a line end. -/
theorem readLine?_entry (h : IsBareName name) {written : List Char} {value : Datum}
    (hvalue : readValue? maxDepth (written ++ '\n' :: rest) = some (value, '\n' :: rest))
    (hwritten : skipSpaces (written ++ '\n' :: rest) = written ++ '\n' :: rest) :
    readLine? (name ++ (' ' :: '=' :: ' ' :: (written ++ '\n' :: rest))) =
      some (.entry [String.ofList name] value, rest) := by
  have hpath : readPath? maxDepth (name ++ ' ' :: '=' :: ' ' :: (written ++ '\n' :: rest)) =
      some ([String.ofList name], '=' :: ' ' :: (written ++ '\n' :: rest)) :=
    readPath?_bare h (by decide) rfl (by simp)
  have hspace : skipSpaces (' ' :: (written ++ '\n' :: rest)) = written ++ '\n' :: rest :=
    Eq.trans rfl hwritten
  have hkey : readKey? (name ++ (' ' :: '=' :: ' ' :: (written ++ '\n' :: rest))) =
      some ([String.ofList name], written ++ '\n' :: rest) := by
    rw [readKey?, hpath, Option.bind_some]
    exact congrArg (fun after => some ([String.ofList name], after)) hspace
  obtain ⟨c, tail, hname, hc⟩ := h.exists_cons
  have hskip : skipSpaces (name ++ (' ' :: '=' :: ' ' :: (written ++ '\n' :: rest))) =
      name ++ (' ' :: '=' :: ' ' :: (written ++ '\n' :: rest)) := by
    rw [hname, List.cons_append, skipSpaces_of_isBareKey hc]
  have hend : readEnd? ('\n' :: rest) = some rest := rfl
  have hline : ∀ cs, atLineEnd (c :: cs) = false := by
    intro cs
    unfold atLineEnd
    split
    · next heq => exact absurd (List.cons.inj heq).1 (ne_of_isBareKey hc (by decide))
    · next heq => exact absurd (List.cons.inj heq).1 (ne_of_isBareKey hc (by decide))
    · rfl
  unfold readLine?
  rw [hskip]
  split
  · next heq => simp [hname] at heq
  · next heq =>
    rw [hname] at heq
    exact absurd (List.cons.inj heq).1 (ne_of_isBareKey hc (by decide))
  · next heq =>
    rw [hname] at heq
    exact absurd (List.cons.inj heq).1 (ne_of_isBareKey hc (by decide))
  · next c' rest' _ _ heq =>
    obtain rfl : c = c' := by
      rw [hname] at heq
      exact (List.cons.inj heq).1
    have hcomment : c ≠ '#' := ne_of_isBareKey hc (by decide)
    rw [if_neg (by simp [hline, hcomment]), ← heq, hkey]
    simp only [Option.bind_some, hvalue, hend, Option.map_some]

theorem readLines?_cons {cs : List Char} {line : Line} (h : readLine? cs = some (line, rest))
    (fuel : Nat) (hcs : cs ≠ []) :
    readLines? (fuel + 1) cs = (readLines? fuel rest).map (line :: ·) := by
  rw [readLines?, h]
  · rfl
  · exact hcs

end Attest.Toml
