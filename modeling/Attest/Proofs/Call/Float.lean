/-
  Float literals. `FloatText` says which texts are float literals and which decimal fraction each
  of them is. At run time a literal is the number of its type that the fraction is rounded to
  (`Format.Rounds`). Main statement (`accepts_float_exact`): the call that a double was passed to
  is never rejected for it; the call that a single was passed to is rejected exactly if the
  fraction, rounded to a double, is another number than the single.
-/
import Attest.Proofs.Call.Signed
import Attest.Proofs.Number.Decimal

namespace Attest.Call

open Syntax
open Number
open Literal (ofTree? floatValue? dropEnd?)

/-! ## Texts of float literals -/

/-- No suffix, or the name of a type. -/
def floatSuffixes : List (List Char) := ["", "f32", "f64"].map String.toList

/-- Digits, then a point with more digits or a power of ten or both, then a suffix. No underscore
stands in front of the digits or right behind the point, and a point without digits ends the
literal. `FloatText cs n k` gives the text the number `n · 10 ^ k`. -/
inductive FloatText : List Char → Nat → Int → Prop
  | intro {whole point fraction exponent suffix n x} (hdigits : Digits 10 (whole ++ fraction) n)
      (hwhole : bare whole ≠ []) (hfirst : whole.head? ≠ some '_')
      (hpoint : PointPart point fraction) (hfraction : fraction.head? ≠ some '_')
      (hend : point ≠ [] → fraction = [] → exponent = [] ∧ suffix = [])
      (hexponent : ExponentPart exponent x) (hpart : point ≠ [] ∨ exponent ≠ [])
      (hsuffix : suffix ∈ floatSuffixes) :
      FloatText (whole ++ (point ++ exponent) ++ suffix) n (x - (bare fraction).length)

/-- The expression is a float literal, perhaps negated, that is this decimal fraction. -/
def DenotesFloat (t : Tree) (d : Decimal) : Prop :=
  ∃ text, WritesNumber .float text d.negative t ∧ FloatText text d.digits d.exponent

/-! ## Reading -/

/-- The characters of a float literal without its suffix. -/
def floatChars : List Char := "0123456789_.eE+-".toList

theorem mem_floatChars_of_digits {n : Nat} {cs : List Char} (h : Digits 10 cs n) :
    ∀ c ∈ cs, c ∈ floatChars := by
  intro c hc
  rcases h.mem hc with rfl | ⟨d, hd, hdigit⟩
  · decide
  · have hall : ∀ i < 10, (digitChars i).all (floatChars.contains ·) = true := by decide
    exact List.contains_iff_mem.mp
      (hdigit.of_all_lt (p := fun _ x => floatChars.contains x) hd hall)

theorem mem_floatChars_of_exponent {exponent : List Char} {x : Int}
    (h : ExponentPart exponent x) : ∀ c ∈ exponent, c ∈ floatChars := by
  cases h with
  | none => simp
  | @some mark sign digits negative n hmark hsign hdigits _ =>
    have hsigns : (exponentSigns.all fun p => p.1.all (floatChars.contains ·)) = true := by decide
    intro c hc
    rcases List.mem_cons.mp hc with rfl | hc
    · rcases hmark with rfl | rfl <;> decide
    · rcases List.mem_append.mp hc with hc | hc
      · have hall := List.all_eq_true.mp hsigns _ hsign
        exact List.contains_iff_mem.mp (List.all_eq_true.mp hall c hc)
      · exact mem_floatChars_of_digits hdigits c hc

theorem mem_floatChars_of_parts {whole point fraction exponent : List Char} {n : Nat} {x : Int}
    (hdigits : Digits 10 (whole ++ fraction) n) (hpoint : PointPart point fraction)
    (hexponent : ExponentPart exponent x) :
    ∀ c ∈ whole ++ (point ++ exponent), c ∈ floatChars := by
  have hdigit := mem_floatChars_of_digits hdigits
  intro c hc
  rcases List.mem_append.mp hc with hc | hc
  · exact hdigit c (List.mem_append_left _ hc)
  · rcases List.mem_append.mp hc with hc | hc
    · cases hpoint with
      | none => simp at hc
      | some =>
        rcases List.mem_cons.mp hc with rfl | hc
        · decide
        · exact hdigit c (List.mem_append_right _ hc)
    · exact mem_floatChars_of_exponent hexponent c hc

/-- No blank is taken out of a float literal, and its suffix stays as it is. -/
theorem filter_floatChars {body suffix : List Char} (h : ∀ c ∈ body, c ∈ floatChars)
    (hsuffix : suffix ∈ floatSuffixes) :
    (body ++ suffix).filter (fun c => c != '_' && !Text.isBlank c) = bare body ++ suffix := by
  have hblank : (floatChars.all fun c => !Text.isBlank c) = true := by decide
  have hkeep : ∀ s ∈ floatSuffixes, s.filter (fun c => c != '_' && !Text.isBlank c) = s := by
    decide
  rw [List.filter_append, hkeep suffix hsuffix, bare]
  congr 1
  refine List.filter_congr fun c hc => ?_
  have hkept : (!Text.isBlank c) = true := List.all_eq_true.mp hblank c (h c hc)
  rw [hkept, Bool.and_true]

theorem dropEnd?_of_not_mem {f : Char} {tail cs : List Char} (htail : f ∈ tail) (hcs : f ∉ cs) :
    dropEnd? tail cs = none := by
  rw [dropEnd?, if_neg]
  intro hsuffix
  exact hcs ((List.isSuffixOf_iff_suffix.mp hsuffix).subset htail)

/-- A suffix is taken off, and nothing else. -/
theorem dropSuffix {body suffix : List Char} (h : 'f' ∉ body) (hsuffix : suffix ∈ floatSuffixes) :
    ((dropEnd? ['f', '3', '2'] (body ++ suffix)).or
      (dropEnd? ['f', '6', '4'] (body ++ suffix))).getD (body ++ suffix) = body := by
  simp only [floatSuffixes, List.map_cons, List.map_nil, List.mem_cons, List.not_mem_nil,
    or_false] at hsuffix
  rcases hsuffix with rfl | rfl | rfl
  · have hnone (tail : List Char) (htail : 'f' ∈ tail) : dropEnd? tail body = none :=
      dropEnd?_of_not_mem htail h
    show ((dropEnd? _ (body ++ [])).or (dropEnd? _ (body ++ []))).getD (body ++ []) = body
    rw [List.append_nil, hnone _ (by decide), hnone _ (by decide)]
    rfl
  · show ((dropEnd? ['f', '3', '2'] (body ++ ['f', '3', '2'])).or _).getD _ = body
    rw [dropEnd?_append]
    rfl
  · have hother : dropEnd? ['f', '3', '2'] (body ++ ['f', '6', '4']) = none := by
      rw [dropEnd?, if_neg]
      intro hsuffix
      obtain ⟨front, hfront⟩ := List.isSuffixOf_iff_suffix.mp hsuffix
      have := List.append_inj_right' hfront rfl
      contradiction
    show ((dropEnd? ['f', '3', '2'] (body ++ ['f', '6', '4'])).or
      (dropEnd? ['f', '6', '4'] (body ++ ['f', '6', '4']))).getD _ = body
    rw [hother, dropEnd?_append]
    rfl

/-- In front of a digit only a minus sign is read as one. -/
theorem read?_of_signedText {negative : Bool} {c : Char} {cs : List Char} {d : Decimal}
    (hdigit : isDigit c = true) (h : readUnsigned? negative (c :: cs) = some d) :
    double.read? (signedText negative (c :: cs)) = some (d.toFloating double) := by
  cases negative with
  | false =>
    have hplus : c ≠ '+' := by
      rintro rfl
      contradiction
    have hminus : c ≠ '-' := by
      rintro rfl
      contradiction
    show double.read? (c :: cs) = _
    unfold Format.read?
    split
    next negative body heq =>
      split at heq
      · next hcons => exact absurd (List.cons.inj hcons).1 hplus
      · next hcons => exact absurd (List.cons.inj hcons).1 hminus
      · obtain ⟨rfl, rfl⟩ := Prod.mk.inj heq
        rw [h]
  | true =>
    show double.read? ('-' :: c :: cs) = _
    rw [Format.read?]
    rw [h]

theorem bare_signedText (negative : Bool) (cs : List Char) :
    bare (signedText negative cs) = signedText negative (bare cs) := by
  cases negative with
  | false => rfl
  | true => exact List.filter_cons_of_pos (by decide)

/-- A float literal is read as its decimal fraction, rounded to a double. -/
theorem floatValue?_of_text {text : List Char} {d : Decimal}
    (h : FloatText text d.digits d.exponent) :
    floatValue? (signedText d.negative text) = some (d.toFloating double) := by
  obtain ⟨negative, n, places⟩ := d
  cases h with
  | @intro whole point fraction exponent suffix _ x hdigits hwhole _ hpoint _ _ hexponent _
      hsuffix =>
    have hread := readUnsigned?_of_parts negative hdigits hwhole hpoint hexponent
    have hchars : ∀ c ∈ signedText negative (whole ++ (point ++ exponent)), c ∈ floatChars := by
      have hparts := mem_floatChars_of_parts hdigits hpoint hexponent
      cases negative with
      | false => exact hparts
      | true => exact List.forall_mem_cons.mpr ⟨by decide, hparts⟩
    have hsplit : signedText negative (whole ++ (point ++ exponent) ++ suffix) =
        signedText negative (whole ++ (point ++ exponent)) ++ suffix := by
      cases negative <;> rfl
    have hbody : 'f' ∉ bare (signedText negative (whole ++ (point ++ exponent))) := by
      intro hmem
      have := hchars 'f' (List.mem_of_mem_filter hmem)
      contradiction
    obtain ⟨c, cs, hcs⟩ := List.exists_cons_of_ne_nil hwhole
    have hdigit : isDigit c = true := by
      refine isDigit_of_digits hdigits c ?_
      rw [bare_append, hcs]
      exact List.mem_cons_self
    rw [floatValue?, hsplit, filter_floatChars hchars hsuffix, dropSuffix hbody hsuffix,
      bare_signedText]
    rw [bare_append, hcs, List.cons_append] at hread ⊢
    exact read?_of_signedText hdigit hread

/-! ## Acceptance -/

variable {t : Tree} {d : Decimal} {c : Candidate}

theorem argumentAccepts_of_denotesFloat (h : DenotesFloat t d) (z : Floating) :
    argumentAccepts t (.float z) = .ok ((d.toFloating double).beq z) := by
  obtain ⟨text, hwrites, htext⟩ := h
  have hread : ofTree? t = some (.float (signedText d.negative text)) :=
    ofTree?_of_writesNumber rfl (fun _ => rfl) (fun _ => rfl) hwrites
  refine argumentAccepts_of_literal hread ?_ (by simp)
  rw [Literal.denotes, floatValue?_of_text htext]

/-- Rounded to a double the fraction has the value of the number, or the number is zero. -/
def SameAsDouble (d : Decimal) (x : Floating) : Prop :=
  x.isZero = true ∨ ∃ y, double.Rounds d.value y ∧ y.value = x.value

/-- In a format that is no larger than the doubles a literal is compared as a double. -/
theorem accepts_rounded {f : Format} (hprecision : f.precision ≤ double.precision)
    (hleast : double.least ≤ f.least) (hgreatest : f.greatest ≤ double.greatest)
    (h : DenotesFloat t d) (hc : c.arguments.head? = some t) {x : FloatOf f}
    (hx : f.Rounds d.value x.value) :
    Decides (c.accepts (.scalar (Denoted.scalar x))) (SameAsDouble d x.value) := by
  have hy : double.Rounds d.value (d.toFloating double) :=
    Decimal.toFloating_rounds (hx.inRange.trans_le (Format.overflow_le hprecision hgreatest))
  obtain ⟨hhas, hvalue⟩ := value_convert double_valid hx.has hprecision hleast hgreatest
  have hargument : Decides (argumentAccepts t (.float (x.value.convert double)))
      ((d.toFloating double).value = x.value.value) := by
    rw [argumentAccepts_of_denotesFloat h]
    refine .of_iff ?_
    rw [hy.has.beq_iff hhas, hvalue]
  refine (accepts_scalar_decides hc hargument).congr (or_congr ?_ ⟨fun heq => ⟨_, hy, heq⟩, ?_⟩)
  · show (x.value.convert double).isZero = true ↔ x.value.isZero = true
    rw [hhas.isZero_iff, hx.has.isZero_iff, hvalue]
  · rintro ⟨y, hround, heq⟩
    exact (hy.value_eq double_valid hround).trans heq

/-- The call with a float literal is accepted for the double that the literal is, and for the
single that it is exactly if the literal is the same number as a double. -/
theorem accepts_float_exact (h : DenotesFloat t d) (hc : c.arguments.head? = some t) :
    (∀ x : FloatOf double, double.Rounds d.value x.value →
      c.accepts (.scalar (Denoted.scalar x)) = .ok true) ∧
    (∀ x : FloatOf single, single.Rounds d.value x.value →
      Decides (c.accepts (.scalar (Denoted.scalar x))) (SameAsDouble d x.value)) := by
  constructor
  · intro x hx
    have hsame : SameAsDouble d x.value := Or.inr ⟨_, hx, rfl⟩
    exact (accepts_rounded (le_refl _) (le_refl _) (le_refl _) h hc hx).eq_true_iff.mpr hsame
  · intro x hx
    exact accepts_rounded (by decide) (by decide) (by decide) h hc hx

/-- The literal `0.1`. -/
def oneTenth : Tree := .leaf .plain .float ⟨.float, "0.1", 0, 0⟩

/-- The single that it is, `13421773 / 2 ^ 27`. -/
def singleTenth : FloatOf single := ⟨.finite false 13421773 (-27)⟩

/-- The double that it is, `7205759403792794 / 2 ^ 56`. -/
def doubleTenth : FloatOf double := ⟨.finite false 7205759403792794 (-56)⟩

theorem denotesFloat_oneTenth : DenotesFloat oneTenth ⟨false, 1, -1⟩ := by
  have hdigits : Digits 10 (['0'] ++ ['1']) 1 :=
    .digit (d := 0) (Or.inl rfl) (by decide) (.digit (d := 1) (Or.inl rfl) (by decide) .nil)
  have htext : FloatText (['0'] ++ (['.', '1'] ++ []) ++ []) 1 (0 - (1 : Nat)) :=
    .intro hdigits (by decide) (by decide) (.some ['1']) (by decide) (by simp) .none (by simp)
      (by decide)
  exact ⟨_, ⟨oneTenth, .token rfl, .refl⟩, htext⟩

/-- One tenth is rounded to what rounding the fraction gives. -/
theorem tenth_rounds {f : Format} (hf : f.Valid) (hq : ((1 : Nat) : ℚ) / (10 : Nat) < f.overflow)
    {x : FloatOf f} (hx : f.round false 1 10 = x.value) :
    f.Rounds (Decimal.mk false 1 (-1)).value x.value := by
  have hvalue :
      (Decimal.mk false 1 (-1)).value = withSign false (((1 : Nat) : ℚ) / (10 : Nat)) := by
    norm_num [Decimal.value]
  rw [hvalue, ← hx]
  exact Format.round_rounds hf false 1 (by decide) hq

theorem tenth_lt_overflow {f : Format} (hf : 0 ≤ f.greatest) :
    ((1 : Nat) : ℚ) / (10 : Nat) < f.overflow := by
  have hpow : (1 : ℚ) ≤ 2 ^ f.greatest := one_le_zpow₀ one_le_two hf
  have hbits : (1 : ℚ) ≤ 2 ^ f.precision := one_le_pow₀ one_le_two
  calc ((1 : Nat) : ℚ) / (10 : Nat) < 1 / 2 * 1 := by norm_num
    _ ≤ (2 ^ f.precision - 1 / 2) * 2 ^ f.greatest :=
        mul_le_mul (by linarith) hpow zero_le_one (by linarith)

theorem singleTenth_rounds : single.Rounds (Decimal.mk false 1 (-1)).value singleTenth.value :=
  tenth_rounds single_valid (tenth_lt_overflow (by decide)) (by decide)

theorem doubleTenth_rounds : double.Rounds (Decimal.mk false 1 (-1)).value doubleTenth.value :=
  tenth_rounds double_valid (tenth_lt_overflow (by decide)) (by decide)

theorem not_sameAsDouble_tenth : ¬ SameAsDouble ⟨false, 1, -1⟩ singleTenth.value := by
  rintro (hzero | ⟨y, hy, heq⟩)
  · contradiction
  · have hvalue := (hy.value_eq double_valid doubleTenth_rounds).symm.trans heq
    norm_num [doubleTenth, singleTenth, Floating.value, withSign] at hvalue

theorem accepts_float_exact_tenth : DenotesFloat oneTenth ⟨false, 1, -1⟩ ∧
    (callWith oneTenth).arguments.head? = some oneTenth ∧
    double.Rounds (Decimal.mk false 1 (-1)).value doubleTenth.value ∧
    (callWith oneTenth).accepts (.scalar (Denoted.scalar doubleTenth)) = .ok true ∧
    single.Rounds (Decimal.mk false 1 (-1)).value singleTenth.value ∧
    ¬ SameAsDouble ⟨false, 1, -1⟩ singleTenth.value ∧
    (callWith oneTenth).accepts (.scalar (Denoted.scalar singleTenth)) = .ok false := by
  have haccepts := accepts_float_exact (c := callWith oneTenth) denotesFloat_oneTenth rfl
  exact ⟨denotesFloat_oneTenth, rfl, doubleTenth_rounds, haccepts.1 _ doubleTenth_rounds,
    singleTenth_rounds, not_sameAsDouble_tenth,
    (haccepts.2 _ singleTenth_rounds).eq_false_iff.mpr not_sameAsDouble_tenth⟩

/-- The call with the literal `0.1` is rejected for the single that the literal is. -/
theorem single_tenth_rejected : DenotesFloat oneTenth ⟨false, 1, -1⟩ ∧
    (callWith oneTenth).arguments.head? = some oneTenth ∧
    single.Rounds (Decimal.mk false 1 (-1)).value singleTenth.value ∧
    (callWith oneTenth).accepts (.scalar (Denoted.scalar singleTenth)) = .ok false :=
  ⟨denotesFloat_oneTenth, rfl, singleTenth_rounds, rfl⟩

end Attest.Call
