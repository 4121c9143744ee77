/-
  Numbers in source: a number token, perhaps behind a minus sign, in any parentheses
  (`WritesNumber`). Main statement: whatever integer a literal stands for, the call that it was
  passed to is not rejected for it, except for the least integer of all
  (`accepts_unless_least_integer`). That one is read as the opposite of a number that a scalar
  cannot hold.
-/
import Attest.Check.Value
import Attest.Proofs.Call.Scalar

namespace Attest.Call

open Syntax
open Number (bare signedInt scalarRange)
open Literal (ofTree? ofToken? negate? integerValue)

/-! ## Number tokens with a sign -/

/-- A number token with the text, behind one minus sign if `negative`. -/
inductive SignedToken (kind : Kind) (text : List Char) : Bool → Tree → Prop
  | token {r t} (h : t.text.toList = text) : SignedToken kind text false (.leaf r kind t)
  | minus {r s minus comments operand r' t} (hm : minus.kind = .mark) (ht : minus.text = "-")
      (hc : ∀ c ∈ comments, c.isComment = true)
      (ho : Parenthesized (.leaf r' kind t) operand) (h : t.text.toList = text) :
      SignedToken kind text true (.node r .unary s (minus :: (comments ++ [operand])))

/-- The expression is a number token with the text, perhaps with a minus sign, in any
parentheses. -/
def WritesNumber (kind : Kind) (text : List Char) (negative : Bool) (t : Tree) : Prop :=
  ∃ core, SignedToken kind text negative core ∧ Parenthesized core t

/-- The text of a literal with its sign. -/
def signedText (negative : Bool) (text : List Char) : List Char :=
  if negative then '-' :: text else text

variable {kind : Kind} {text : List Char} {negative : Bool}

/-- A number is read as its text with the sign in front, for both kinds of numbers. -/
theorem ofTree?_of_writesNumber {number : List Char → Literal} (hnamed : kind.isNamed = true)
    (htoken : ∀ s, ofToken? kind s = some (number s.toList))
    (hnegate : ∀ ds, negate? (number ds) = some (number ('-' :: ds))) {t : Tree}
    (h : WritesNumber kind text negative t) :
    ofTree? t = some (number (signedText negative text)) := by
  obtain ⟨core, hcore, hparen⟩ := h
  cases hcore with
  | @token r tok htext =>
    have hread : ofTree? (.leaf r kind tok) = some (number text) := by
      rw [ofTree?, htoken, htext]
    rw [ofTree?_of_parenthesized hparen hnamed, hread]
    rfl
  | @minus r s minus comments operand r' tok hm ht hc ho htext =>
    have hoperand : operand.isNamed = true := isNamed_of_parenthesized ho hnamed
    have hread : ofTree? operand = some (number text) := by
      rw [ofTree?_of_parenthesized ho hnamed, ofTree?, htoken, htext]
    rw [ofTree?_of_parenthesized hparen rfl, ofTree?_of_minus comments hm ht hoperand, hread,
      Option.bind_some, hnegate]
    rfl

/-! ## Integers -/

/-- The expression is an integer literal, perhaps negated, that stands for the integer. -/
def DenotesInteger (t : Tree) (v : Int) : Prop :=
  ∃ text negative n, WritesNumber .integer text negative t ∧ IntegerText text n ∧
    v = signedInt negative n

theorem integerValue_of_signedText {n : Nat} (h : IntegerText text n) :
    integerValue (signedText negative text) =
      .ok (if n < 2 ^ 127 then some (signedInt negative n) else none) := by
  cases negative with
  | false => exact integerValue_of_text h
  | true => exact integerValue_of_negative h

/-- Of the integers that a scalar holds only the least has a magnitude that it does not hold. -/
theorem magnitude_lt_iff {n : Nat} (h : scalarRange.has (signedInt negative n) = true) :
    n < 2 ^ 127 ↔ signedInt negative n ≠ -2 ^ 127 := by
  rw [scalarRange_has_iff] at h
  cases negative with
  | false =>
    simp only [signedInt, Bool.false_eq_true, if_false] at h ⊢
    omega
  | true =>
    simp only [signedInt, if_true] at h ⊢
    omega

/-- Only the least integer that a scalar holds is not read. -/
theorem argumentAccepts_of_denotesInteger {t : Tree} {v : Int} (h : DenotesInteger t v) :
    Decides (argumentAccepts t (Denoted.scalar v)) (v ≠ -2 ^ 127) := by
  obtain ⟨text, negative, n, hwrites, htext, rfl⟩ := h
  have hread : ofTree? t = some (.integer (signedText negative text)) :=
    ofTree?_of_writesNumber rfl (fun _ => rfl) (fun _ => rfl) hwrites
  show Decides (argumentAccepts t (Scalar.ofInt (signedInt negative n))) _
  unfold Scalar.ofInt
  by_cases hrange : scalarRange.has (signedInt negative n) = true
  · rw [if_pos hrange]
    refine Decides.congr ?_ (magnitude_lt_iff hrange)
    by_cases hn : n < 2 ^ 127
    · refine Or.inl ⟨argumentAccepts_of_literal hread ?_ (by simp), hn⟩
      rw [Literal.denotes, integerValue_of_signedText htext, if_pos hn]
      simp [Except.map]
    · refine Or.inr ⟨argumentAccepts_of_literal hread ?_ (by simp), hn⟩
      rw [Literal.denotes, integerValue_of_signedText htext, if_neg hn]
      rfl
  · -- There is nothing to compare.
    rw [if_neg hrange]
    refine Or.inl ⟨rfl, fun heq => hrange ?_⟩
    rw [heq]
    decide

/-- Zero and what a scalar cannot hold are no least integers. -/
theorem ne_least_of_isDefault {v : Int} (h : (Denoted.scalar v).isDefault = true) :
    v ≠ -2 ^ 127 := by
  rintro rfl
  exact absurd h (by decide)

variable {t : Tree} {v : Int} {c : Candidate}

/-- A call is accepted for the integer that its argument stands for, alone or in a sequence whose
other values do not contradict, unless that is the least integer of all. -/
theorem accepts_unless_least_integer (h : DenotesInteger t v) :
    (c.arguments.head? = some t →
      Decides (c.accepts (.scalar (Denoted.scalar v))) (v ≠ -2 ^ 127)) ∧
    (∀ before after vs ws, sequenceArguments c.arguments = before ++ t :: after →
      before.length = vs.length →
      (c.accepts (.sequence (vs ++ Denoted.scalar v :: ws)) = .ok true ↔
        v ≠ -2 ^ 127 ∧ acceptsAll (vs.zip before) = .ok true ∧
          acceptsAll (ws.zip after) = .ok true)) := by
  have hargument := argumentAccepts_of_denotesInteger h
  constructor
  · intro hfirst
    exact (accepts_scalar_decides hfirst hargument).congr
      (or_iff_right_of_imp ne_least_of_isDefault)
  · intro before after vs ws hsequence hlength
    have hzip : (vs ++ Denoted.scalar v :: ws).zip (before ++ t :: after) =
        vs.zip before ++ (Denoted.scalar v, t) :: ws.zip after := by
      rw [List.zip_append hlength.symm, List.zip_cons_cons]
    rw [Candidate.accepts, hsequence, hzip]
    simp only [acceptsAll_eq_true_iff, List.forall_mem_append, List.forall_mem_cons,
      hargument.eq_true_iff]
    exact and_left_comm

theorem denotesInteger_negativeHex : DenotesInteger negativeHex (-42) := by
  have hnone : ∀ c ∈ ([] : List Tree), c.isComment = true := by simp
  exact ⟨_, true, 42, ⟨negativeHex, .minus rfl rfl hnone .refl rfl, .refl⟩, integerText_hex, rfl⟩

theorem accepts_unless_least_integer_hex :
    DenotesInteger negativeHex (-42) ∧
    (callWith negativeHex).arguments.head? = some negativeHex ∧
    (callWith negativeHex).accepts (.scalar (Denoted.scalar (-42 : Int))) = .ok true ∧
    sequenceArguments (callWith negativeHex).arguments = [] ++ negativeHex :: [] ∧
    (callWith negativeHex).accepts (.sequence ([] ++ Denoted.scalar (-42 : Int) :: [])) =
      .ok true := by
  have haccepts := accepts_unless_least_integer (c := callWith negativeHex)
    denotesInteger_negativeHex
  refine ⟨denotesInteger_negativeHex, rfl, (haccepts.1 rfl).eq_true_iff.mpr (by decide), rfl, ?_⟩
  exact (haccepts.2 [] [] [] [] rfl rfl).mpr ⟨by decide, rfl, rfl⟩

/-- The text of `2 ^ 127`. -/
def leastMagnitude : String := "170141183460469231731687303715884105728"

/-- The same number behind a minus sign. -/
def leastInteger : Tree :=
  .node .plain .unary ⟨0, 0⟩ [.leaf .plain .mark ⟨.mark, "-", 0, 0⟩,
    .leaf .plain .integer ⟨.integer, leastMagnitude, 0, 0⟩]

/-- The call with the least integer of all is rejected for it. -/
theorem least_integer_rejected : DenotesInteger leastInteger (-2 ^ 127) ∧
    (callWith leastInteger).arguments.head? = some leastInteger ∧
    (callWith leastInteger).accepts (.scalar (Denoted.scalar (-2 ^ 127 : Int))) = .ok false := by
  have hread : Number.readDigits 10 (2 ^ 127) .tooLarge 0 (bare leastMagnitude.toList) =
      .ok (2 ^ 127) := by
    rfl
  have hdigits := (Number.readDigits_eq_ok_iff.mp hread).1
  have hmark : ([], 10) ∈ radixMarks := by decide
  have htext : IntegerText ([] ++ (leastMagnitude.toList ++ [])) (2 ^ 127) :=
    .intro hmark hdigits (by decide) (by decide) (by decide)
  have hnone : ∀ c ∈ ([] : List Tree), c.isComment = true := by simp
  rw [List.nil_append, List.append_nil] at htext
  exact ⟨⟨_, true, 2 ^ 127, ⟨leastInteger, .minus rfl rfl hnone .refl rfl, .refl⟩, htext, rfl⟩,
    rfl, rfl⟩

end Attest.Call
