/-
  Line ends. The resolver reads a file with line breaks of two characters as it reads the file with
  line feeds, except for texts that run over several lines: those keep their carriage returns. Main
  statement: `resolve_crlf`.
-/
import Attest.Proofs.Call.Places
import Attest.Proofs.Syntax.LineEnds

namespace Attest.Call

open Syntax

/-! ## Texts over several lines -/

namespace Literal

/-- The literal in a file with line breaks of two characters. -/
def crlf : Literal → Literal
  | .text q => .text (Syntax.crlf q)
  | .rawText q => .rawText (Syntax.crlf q)
  | l => l

/-- The literal runs over several lines, and in one of the two files it denotes the scalar. -/
def HangsOnLineEnds (l : Literal) (v : Scalar) : Prop :=
  l.crlf ≠ l ∧ (l.denotes v = .ok true ∨ l.crlf.denotes v = .ok true)

instance (l : Literal) (v : Scalar) : Decidable (l.HangsOnLineEnds v) :=
  inferInstanceAs (Decidable (_ ∧ _))

/-- Texts can always be compared. -/
theorem exists_denotes_text (q : List Char) (v : Scalar) : ∃ b, (text q).denotes v = .ok b := by
  cases v <;> exact ⟨_, rfl⟩

theorem exists_denotes_rawText (q : List Char) (v : Scalar) :
    ∃ b, (rawText q).denotes v = .ok b := by
  cases v <;> exact ⟨_, rfl⟩

theorem denotes_crlf {l : Literal} {v : Scalar} (h : ¬ l.HangsOnLineEnds v) :
    l.crlf.denotes v = l.denotes v := by
  by_cases hsame : l.crlf = l
  · rw [hsame]
  have hneither : l.denotes v ≠ .ok true ∧ l.crlf.denotes v ≠ .ok true := by
    simpa [HangsOnLineEnds, hsame] using h
  -- Both comparisons come out, and neither is true.
  have hfalse {m : Literal} {b : Bool} (hm : m.denotes v = .ok b) (hne : m.denotes v ≠ .ok true) :
      m.denotes v = .ok false := by
    cases b with
    | false => exact hm
    | true => exact absurd hm hne
  cases l with
  | text q =>
    obtain ⟨b, hb⟩ := exists_denotes_text q v
    obtain ⟨b', hb'⟩ := exists_denotes_text (Syntax.crlf q) v
    rw [hfalse hb hneither.1]
    exact hfalse hb' hneither.2
  | rawText q =>
    obtain ⟨b, hb⟩ := exists_denotes_rawText q v
    obtain ⟨b', hb'⟩ := exists_denotes_rawText (Syntax.crlf q) v
    rw [hfalse hb hneither.1]
    exact hfalse hb' hneither.2
  | integer ds => exact absurd rfl hsame
  | float ds => exact absurd rfl hsame
  | bool b => exact absurd rfl hsame
  | char q => exact absurd rfl hsame

end Literal

/-- Literals of the two files are the same but for their line breaks. -/
theorem denotes_eq_of_lineBroken {text : String} {l m : Literal} {v : Scalar}
    (h : Literal.Alike (LineBrokenIn text) l m) (hl : ¬ l.HangsOnLineEnds v) :
    m.denotes v = l.denotes v := by
  cases h with
  | refl => rfl
  | @text t u h hk =>
    rw [← Literal.denotes_crlf hl, Literal.crlf, h.2.text (by rw [hk]; decide)]
  | @rawText t u h hk =>
    rw [← Literal.denotes_crlf hl, Literal.crlf, h.2.text (by rw [hk]; decide)]

/-! ## Files with line breaks of two characters -/

/-- Carriage returns leave rows and order as they are. -/
theorem lineBrokenIn_keepsPlaces (text : String) : KeepsPlaces (LineBrokenIn text) where
  row _ _ h := h.2.row
  order t u t' u' h h' := by
    rw [h.2.start, h'.2.start]
    constructor
    · intro hlt
      by_contra hle
      have hrow := h'.1.row_le h.1 (Nat.le_of_not_lt hle)
      omega
    · intro hlt
      have hrow := h.1.row_le h'.1 (Nat.le_of_lt hlt)
      omega

/-- Writing a carriage return in front of every line feed does not change the answer, if no
character literal holds a line feed, and no argument that is compared hangs on line ends. -/
theorem resolve_crlf {text method : String} {line : Nat} {expected : Expected}
    (hchar : ∀ t ∈ scan text, t.kind = .char → '\n' ∉ t.text.toList)
    (htext : ∀ c ∈ candidates (.parse text) method line, ∀ p ∈ c.compared expected,
      ∀ l ∈ Literal.ofTree? p.2, ¬ l.HangsOnLineEnds p.1) (entryPoint : String) :
    resolve (.parse (crlfText text)) entryPoint method line expected =
      resolve (.parse text) entryPoint method line expected :=
  resolve_eq_of_aligned (lineBrokenIn_alignment text) (lineBrokenIn_keepsPlaces text)
    (aligned_crlf hchar) (fun _ _ => not_hidesContradiction_of_no_extra (fun _ h => h) _ _ _)
    (fun c hc p hp l _ hl hlm => denotes_eq_of_lineBroken hlm (htext c hc p hp l hl)) entryPoint

/-- A chain over several lines, with a comment and a text that run over a line break. -/
def chainWithBreaks : String :=
  "fn t() \x7b\n    x.say(\"a\nb\") // c\n        .should()\n        .be(2);\n\x7d\n"

theorem resolve_crlf_chain :
    (∀ t ∈ scan chainWithBreaks, t.kind = .char → '\n' ∉ t.text.toList) ∧
    (∀ c ∈ candidates (.parse chainWithBreaks) "be" 5, ∀ p ∈ c.compared (.scalar (.int 2)),
      ∀ l ∈ Literal.ofTree? p.2, ¬ l.HangsOnLineEnds p.1) ∧
    resolve (.parse (crlfText chainWithBreaks)) "should" "be" 5 (.scalar (.int 2)) =
      resolve (.parse chainWithBreaks) "should" "be" 5 (.scalar (.int 2)) ∧
    resolve (.parse chainWithBreaks) "should" "be" 5 (.scalar (.int 2)) = .ok (some "x.say") := by
  have hchar : ∀ t ∈ scan chainWithBreaks, t.kind = .char → '\n' ∉ t.text.toList := by
    decide +kernel
  have htext : ∀ c ∈ candidates (.parse chainWithBreaks) "be" 5,
      ∀ p ∈ c.compared (.scalar (.int 2)), ∀ l ∈ Literal.ofTree? p.2,
        ¬ l.HangsOnLineEnds p.1 := by
    decide +kernel
  exact ⟨hchar, htext, resolve_crlf hchar htext "should", by decide +kernel⟩

/-- A text over two lines, as a file with line feeds has it. -/
def textOverLines : String := "fn t() \x7b x.should().be(\"a\nb\"); \x7d"

/-- It is found for its value only there. -/
theorem line_ends_change_text : ¬ ∀ (text entryPoint method : String) (line : Nat)
    (expected : Expected), '\r' ∉ text.toList →
      resolve (.parse (crlfText text)) entryPoint method line expected =
        resolve (.parse text) entryPoint method line expected := by
  intro h
  have hsame := h textOverLines "should" "be" 1 (.scalar (.text "a\nb")) (by decide +kernel)
  have hfound : resolve (.parse textOverLines) "should" "be" 1 (.scalar (.text "a\nb")) =
      .ok (some "x") := by
    decide +kernel
  have hmissed : resolve (.parse (crlfText textOverLines)) "should" "be" 1
      (.scalar (.text "a\nb")) = .ok none := by
    decide +kernel
  rw [hfound, hmissed] at hsame
  exact absurd hsame (by decide)

end Attest.Call
