/-
  Canonical literals: the literal as which a scalar is shown, integers in decimal, characters and
  texts in quotes. Main statements: it denotes the scalar (`Canonical.denotes`), and a call whose
  arguments are canonical literals of its values, or no literals, is accepted for those values
  (`accepts_scalar_of_writes`, `accepts_sequence_of_writes`, `accepts_of_writesList`).
-/
import Attest.Proofs.Call.Sequence

namespace Attest.Call

open Syntax
open Number (bare digits_toDigits head?_ne_underscore)
open Text (hexDigits escapeCodePoint escapeChar quoteChars)

/-! ## Characters and texts as they are shown -/

theorem piece_of_codePoint (delimiter c : Char) : Piece delimiter (escapeCodePoint c) c := by
  obtain ⟨hdigits, hbare⟩ := digits_toDigits (by decide : 1 < 16) (by decide) c.toNat
  have hvalid : c.toNat.isValidChar := c.valid
  have hne : bare (hexDigits c.toNat) ≠ [] := by
    rw [hexDigits, hbare]
    exact Nat.toDigits_ne_nil
  have hlength : (bare (hexDigits c.toNat)).length ≤ 6 := by
    rw [hexDigits, hbare, Nat.length_toDigits_le_iff (by decide) (by decide)]
    rcases hvalid with hlow | ⟨-, hhigh⟩
    · omega
    · omega
  have hpiece : Piece delimiter _ _ :=
    .codePoint hdigits hne hlength (head?_ne_underscore hbare) hvalid
  rwa [Char.ofNat_toNat] at hpiece

/-- What is shown for a character inside quotes is a piece of a literal that denotes it. -/
theorem piece_escapeChar {mark : Char} (hmark : mark = '\'' ∨ mark = '"') (c : Char) :
    Piece mark (escapeChar mark c) c := by
  unfold escapeChar
  split
  · next h => rw [h]; exact .short (by decide)
  split
  · next h => rw [h]; exact .short (by decide)
  split
  · next h => rw [h]; exact .short (by decide)
  split
  · next h => rw [h]; exact .short (by decide)
  split
  · next h =>
    rw [Bool.or_eq_true, decide_eq_true_eq, decide_eq_true_eq] at h
    refine .short ?_
    rcases h with rfl | rfl
    · decide
    · rcases hmark with rfl | rfl <;> decide
  split
  · exact piece_of_codePoint mark c
  · next hreturn _ hplain _ =>
    rw [Bool.or_eq_true, decide_eq_true_eq, decide_eq_true_eq, not_or] at hplain
    exact .plain hplain.1 hplain.2 hreturn

theorem body_flatMap_escapeChar {mark : Char} (hmark : mark = '\'' ∨ mark = '"')
    (cs : List Char) : Body mark (cs.flatMap (escapeChar mark)) cs := by
  induction cs with
  | nil => exact .nil
  | cons c cs ih =>
    rw [List.flatMap_cons]
    exact .cons (piece_escapeChar hmark c) ih

/-! ## Integers as they are shown -/

theorem integerText_toString (n : Nat) : IntegerText (toString n).toList n := by
  obtain ⟨hdigits, hbare⟩ := digits_toDigits (by decide : 1 < 10) (by decide) n
  have hmark : ([], 10) ∈ radixMarks := by decide
  have hnone : [] ∈ integerSuffixes := by decide
  have htext := IntegerText.intro hmark hdigits (by rw [hbare]; exact Nat.toDigits_ne_nil)
    (fun _ => head?_ne_underscore hbare) hnone
  rwa [List.nil_append, List.append_nil, ← String.toList_ofList (l := Nat.toDigits 10 n),
    ← Nat.toString_eq_ofList_toDigits] at htext

/-! ## Canonical literals -/

/-- The expression is the literal as which the scalar is shown. Integers below zero are a minus
sign and a literal; floats have no such literal here. -/
inductive Canonical : Tree → Scalar → Prop
  | natural {r token} {n : Nat} (htext : token.text = toString n) (hn : n < 2 ^ 127) :
      Canonical (.leaf r .integer token) (.int n)
  | negative {r s minus r' token} {n : Nat} (hm : minus.kind = .mark) (ht : minus.text = "-")
      (htext : token.text = toString n) (hn : n < 2 ^ 127) :
      Canonical (.node r .unary s [minus, .leaf r' .integer token]) (.int (-n))
  | boolean {r token} {b : Bool} (htext : token.text = if b then "true" else "false") :
      Canonical (.leaf r .boolean token) (.bool b)
  | char {r token c} (htext : token.text = Text.quoteChar c) :
      Canonical (.leaf r .char token) (.char c)
  | text {r token s} (htext : token.text = Text.quoteString s) :
      Canonical (.leaf r .text token) (.text s)

/-- A canonical literal denotes the scalar that it shows. -/
theorem Canonical.denotes {t : Tree} {v : Scalar} (h : Canonical t v) : Denotes t v := by
  cases h with
  | natural htext hn =>
    exact ⟨_, .token (.integer (htext ▸ integerText_toString _) hn), .refl⟩
  | negative hm ht htext hn =>
    have hnone : ∀ c ∈ ([] : List Tree), c.isComment = true := by simp
    exact ⟨_, .negative hm ht hnone .refl (htext ▸ integerText_toString _) hn, .refl⟩
  | boolean htext => exact ⟨_, .token (htext ▸ .boolean _), .refl⟩
  | @char r token c htext =>
    have hchar := TokenDenotes.char (piece_escapeChar (Or.inl rfl) c)
    refine ⟨_, .token ?_, .refl⟩
    rw [htext, Text.quoteChar, String.toList_ofList, quoteChars, List.flatMap_singleton]
    exact hchar
  | @text r token s htext =>
    have htext' := TokenDenotes.text (body_flatMap_escapeChar (Or.inr rfl) s.toList)
    refine ⟨_, .token ?_, .refl⟩
    rw [String.ofList_toList] at htext'
    rw [htext, Text.quoteString, String.toList_ofList, quoteChars]
    exact htext'

/-- The expression is no literal, or the canonical one of the value. -/
def WrittenAs (t : Tree) (v : Scalar) : Prop := ¬ IsLiteral t ∨ Canonical t v

theorem WrittenAs.mayHave {t : Tree} {v : Scalar} (h : WrittenAs t v) : MayHave t v := by
  rcases h with hnot | hcanonical
  · exact mayHave_of_not_isLiteral hnot v
  · exact Or.inr (.literal hcanonical.denotes)

/-! ## Arguments as they are written -/

/-- The expressions are written for the values, one for each. -/
def Writes (vs : List Scalar) (ts : List Tree) : Prop := List.Forall₂ WrittenAs ts vs

/-- The one expression is an array that lists the values, without attributes, or else neither an
array nor a literal. -/
inductive WritesList (vs : List Scalar) : List Tree → Prop
  | array {t a es} (h : IsSlice a t) (hplain : WithoutAttributes a) (hlists : Lists a es)
      (hes : Writes vs es) : WritesList vs [t]
  | other {t} (hliteral : ¬ IsLiteral t) (harray : ∀ a, ¬ IsSlice a t) : WritesList vs [t]

theorem Writes.mayHave {vs : List Scalar} {ts : List Tree} (h : Writes vs ts) :
    List.Forall₂ MayHave ts vs := h.imp fun _ _ => WrittenAs.mayHave

variable {c : Candidate}

theorem accepts_scalar_of_writes {v : Scalar} (h : Writes [v] c.arguments) :
    c.accepts (.scalar v) = .ok true := by
  obtain ⟨t, ts, ht, -, harguments⟩ := List.forall₂_cons_right_iff.mp h
  have hfirst : c.arguments.head? = some t := by rw [harguments]; rfl
  have hdecides := accepts_scalar_decides hfirst (argumentAccepts_decides ⟨v, ht.mayHave⟩ v)
  exact hdecides.eq_true_iff.mpr (Or.inr ht.mayHave.agrees)

/-- Arguments are compared themselves, unless there is exactly one. -/
theorem sequenceArguments_of_length_ne_one {ts : List Tree} (h : ts.length ≠ 1) :
    sequenceArguments ts = ts := by
  unfold sequenceArguments
  split
  · exact absurd rfl h
  · rfl

theorem accepts_sequence_of_writes {vs : List Scalar} (h : Writes vs c.arguments)
    (hlength : vs.length ≠ 1) : c.accepts (.sequence vs) = .ok true := by
  have hne : c.arguments.length ≠ 1 := by rwa [List.Forall₂.length_eq h]
  rw [Candidate.accepts, sequenceArguments_of_length_ne_one hne]
  exact acceptsAll_own h.mayHave

/-- What is not looked into is compared as one argument, and it is no literal. -/
theorem sequenceArguments_of_other {t : Tree} (h : ∀ a, ¬ IsSlice a t) :
    sequenceArguments [t] = [t] := by
  rw [sequenceArguments]
  cases hvalue : dereferenced t with
  | none => rfl
  | some a =>
    dsimp only
    rw [if_neg]
    intro ha
    rw [dereferenced] at hvalue
    split at hvalue
    · next hkind => exact h a ⟨ha, Or.inr ⟨hkind, hvalue⟩⟩
    · exact h a ⟨ha, Or.inl (Option.some.inj hvalue)⟩

theorem accepts_of_writesList {vs : List Scalar} (h : WritesList vs c.arguments) :
    c.accepts (.sequence vs) = .ok true := by
  generalize harguments : c.arguments = ts at h
  cases h with
  | array h hplain hlists hes =>
    rw [accepts_slice harguments h, hplain.elements_eq, hlists.2]
    exact acceptsAll_own hes.mayHave
  | @other t hliteral harray =>
    rw [Candidate.accepts, harguments, sequenceArguments_of_other harray]
    cases vs with
    | nil => rfl
    | cons v vs =>
      rw [List.zip_cons_cons, List.zip_nil_right, acceptsAll,
        argumentAccepts_of_not_isLiteral hliteral]
      rfl

end Attest.Call
