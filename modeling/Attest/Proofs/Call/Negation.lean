/-
  Minus signs in front of integer literals. Reading takes one sign off, and the number behind it may
  bring a sign of its own, down to the least integer, which has no opposite. Main statement
  (`integerValue_overflows_iff`): this happens behind exactly two signs, and only for a decimal
  literal of 2 ^ 127.
-/
import Attest.Proofs.Call.Integer
import Attest.Proofs.Syntax.Lexeme

namespace Attest.Call

open Syntax Number
open Literal (magnitude? radixOf bareDigits opposite integerValue)

/-! ## Decimal digits -/

/-- Decimal digits, up to a type suffix if there is one, and their value. -/
def DecimalText (cs : List Char) (n : Nat) : Prop :=
  ∃ digits suffix, cs = digits ++ suffix ∧ Digits 10 digits n ∧
    ∀ c ∈ suffix.head?, c = 'i' ∨ c = 'u'

/-- Underscores and suffix may be taken off in either order. -/
theorem bareDigits_eq_bare (cs : List Char) :
    bareDigits cs = bare (cs.takeWhile fun c => c != 'i' && c != 'u') := by
  have hsuffix : (fun c => !(c != '_') || (c != 'i' && c != 'u')) =
      fun c : Char => c != 'i' && c != 'u' := by
    funext c
    by_cases hc : c = '_' <;> simp [hc]
  rw [bareDigits, List.takeWhile_filter, hsuffix, bare]

theorem decimalText_iff {cs : List Char} {n : Nat} :
    DecimalText cs n ↔ Digits 10 (cs.takeWhile fun c => c != 'i' && c != 'u') n := by
  constructor
  · rintro ⟨digits, suffix, rfl, hdigits, hsuffix⟩
    have hall : ∀ c ∈ digits, (c != 'i' && c != 'u') = true := by
      intro c hc
      rcases hdigits.mem hc with rfl | ⟨d, -, hd⟩
      · decide
      · exact hd.of_all (p := fun c => c != 'i' && c != 'u') (by decide)
    have hend : suffix.takeWhile (fun c => c != 'i' && c != 'u') = [] := by
      cases suffix with
      | nil => rfl
      | cons c rest =>
        rcases hsuffix c rfl with rfl | rfl <;> simp
    rwa [List.takeWhile_append_of_pos hall, hend, List.append_nil]
  · intro h
    have hsplit := List.takeWhile_append_dropWhile (p := fun c => c != 'i' && c != 'u') (l := cs)
    refine ⟨_, _, hsplit.symm, h, ?_⟩
    intro c hc
    have := List.head?_dropWhile_not (fun c => c != 'i' && c != 'u') cs
    rw [hc] at this
    simpa [Decidable.or_iff_not_imp_left] using this

/-! ## Magnitudes -/

/-- The characters of an integer token are no signs. -/
theorem ne_sign_of_isInteger {cs : List Char} (h : IsInteger cs) :
    ∀ c ∈ cs, c ≠ '+' ∧ c ≠ '-' := by
  intro c hc
  have hnumeral := h.chars c hc
  constructor
  · rintro rfl
    exact absurd hnumeral (by decide)
  · rintro rfl
    exact absurd hnumeral (by decide)

/-- What begins neither a suffix nor with an underscore is a digit as it stands. -/
theorem bareDigits_cons {c : Char} (h : c ≠ '_' ∧ c ≠ 'i' ∧ c ≠ 'u') (cs : List Char) :
    bareDigits (c :: cs) = c :: bareDigits cs := by
  simp [bareDigits, h]

theorem bareDigits_minus (cs : List Char) : bareDigits ('-' :: cs) = '-' :: bareDigits cs :=
  bareDigits_cons (by decide) cs

theorem bareDigits_of_isInteger {cs : List Char} (h : IsInteger cs) :
    ∃ c rest, bareDigits cs = c :: rest := by
  obtain ⟨c, rest, rfl, hc⟩ := h.head
  refine ⟨c, bareDigits rest, bareDigits_cons ⟨?_, ?_, ?_⟩ rest⟩
  all_goals
    rintro rfl
    exact absurd hc (by decide)

theorem mem_of_mem_bareDigits {c : Char} {cs : List Char} (h : c ∈ bareDigits cs) : c ∈ cs :=
  (List.mem_filter.mp ((List.takeWhile_sublist _).subset h)).1

theorem mem_of_mem_radixOf {c : Char} {cs : List Char} (h : c ∈ (radixOf cs).2) : c ∈ cs := by
  unfold radixOf at h
  split at h
  · exact List.mem_cons_of_mem _ (List.mem_cons_of_mem _ h)
  · exact List.mem_cons_of_mem _ (List.mem_cons_of_mem _ h)
  · exact List.mem_cons_of_mem _ (List.mem_cons_of_mem _ h)
  · exact h

/-- Behind no sign, a literal is never below zero. -/
theorem magnitude?_bounds {cs : List Char} (h : IsInteger cs) {i : Int}
    (hi : magnitude? cs = some i) : 0 ≤ i ∧ i < 2 ^ 127 := by
  have hsign : ∀ c ∈ bareDigits (radixOf cs).2, c ≠ '+' ∧ c ≠ '-' := fun c hc =>
    ne_sign_of_isInteger h c (mem_of_mem_radixOf (mem_of_mem_bareDigits hc))
  have hhigh : scalarRange.high.toNat = 2 ^ 127 - 1 := by decide
  have hbounds := read?_bounds hsign hi
  rw [hhigh] at hbounds
  omega

theorem radixOf_minus (cs : List Char) : radixOf ('-' :: cs) = (10, '-' :: cs) := rfl

/-- Behind one sign the digits are decimal, and the number may be one greater. -/
theorem magnitude?_minus {cs : List Char} (h : IsInteger cs) :
    magnitude? ('-' :: cs) =
      (readDigits 10 (2 ^ 127) .tooSmall 0 (bareDigits cs)).toOption.map
        fun n : Nat => -(n : Int) := by
  obtain ⟨c, rest, hc⟩ := bareDigits_of_isInteger h
  have hlow : scalarRange.low.natAbs = 2 ^ 127 := by decide
  have hneg : scalarRange.low < 0 := by decide
  rw [magnitude?, radixOf_minus]
  dsimp only
  rw [bareDigits_minus, hc, Range.read?, Range.read, if_pos hneg, hlow]
  · cases readDigits 10 (2 ^ 127) .tooSmall 0 (c :: rest) <;> rfl
  · simp

/-- Behind two signs there is no number. -/
theorem magnitude?_minus_minus (cs : List Char) : magnitude? ('-' :: '-' :: cs) = none := by
  have hneg : scalarRange.low < 0 := by decide
  have hdigit : digitValue? 10 '-' = none := by decide
  rw [magnitude?, radixOf_minus]
  dsimp only
  rw [bareDigits_minus, bareDigits_minus, Range.read?, Range.read, if_pos hneg, readDigits, hdigit]
  · rfl
  · simp

theorem readDigits_bareDigits_iff {cs : List Char} {limit m : Nat} {overflow : Misread} :
    readDigits 10 limit overflow 0 (bareDigits cs) = .ok m ↔ DecimalText cs m ∧ m ≤ limit := by
  rw [bareDigits_eq_bare, readDigits_eq_ok_iff, decimalText_iff]

theorem skipBlanks_minus (cs : List Char) : Text.skipBlanks ('-' :: cs) = '-' :: cs := by
  rw [Text.skipBlanks, List.dropWhile_cons_of_neg (by decide)]

theorem skipBlanks_of_isInteger {cs : List Char} (h : IsInteger cs) : Text.skipBlanks cs = cs := by
  obtain ⟨c, rest, rfl, hc⟩ := h.head
  exact skipBlanks_of_decimal (by simpa [isDecimal] using hc)

/-! ## Values -/

/-- Only the least integer has no opposite. -/
theorem opposite_eq_error_iff {i : Int} (hhigh : i < 2 ^ 127) :
    opposite i = .error .negation ↔ i ≤ -(2 ^ 127) := by
  have hrange : scalarRange.has (-i) = true ↔ -(2 ^ 127) < i := by
    rw [scalarRange_has_iff]
    omega
  unfold opposite
  by_cases h : scalarRange.has (-i) = true
  · have hlow := hrange.mp h
    rw [if_pos h]
    exact iff_of_false (by simp) (by omega)
  · have hlow := mt hrange.mpr h
    rw [if_neg h]
    exact iff_of_true rfl (by omega)

theorem map_eq_error_iff {α β : Type} {f : α → β} {x : Except Overflow α} :
    x.map f = .error .negation ↔ x = .error .negation := by
  cases x <;> simp [Except.map]

/-- Behind no sign nothing is negated. -/
theorem integerValue_unsigned {cs : List Char} (h : IsInteger cs) :
    integerValue cs = .ok (magnitude? cs) := by
  obtain ⟨c, rest, rfl, -⟩ := h.head
  have hminus : c ≠ '-' := (ne_sign_of_isInteger h c List.mem_cons_self).2
  unfold integerValue
  split
  · next heq => exact absurd (List.cons.inj heq).1 hminus
  · rfl

/-- Behind one sign the number has an opposite. -/
theorem integerValue_minus {cs : List Char} (h : IsInteger cs) :
    integerValue ('-' :: cs) ≠ .error .negation := by
  rw [integerValue, skipBlanks_of_isInteger h]
  cases hi : magnitude? cs with
  | none => simp
  | some i =>
    obtain ⟨hlow, hhigh⟩ := magnitude?_bounds h hi
    dsimp only
    rw [ne_eq, map_eq_error_iff, opposite_eq_error_iff hhigh]
    omega

/-- Behind two signs the number may be the least one. -/
theorem integerValue_minus_minus {cs : List Char} (h : IsInteger cs) :
    integerValue ('-' :: '-' :: cs) = .error .negation ↔ DecimalText cs (2 ^ 127) := by
  rw [integerValue, skipBlanks_minus, magnitude?_minus h]
  cases hread : readDigits 10 (2 ^ 127) .tooSmall 0 (bareDigits cs) with
  | error e =>
    have hnone : ¬ DecimalText cs (2 ^ 127) := by
      intro htext
      have hok : readDigits 10 (2 ^ 127) .tooSmall 0 (bareDigits cs) = .ok (2 ^ 127) :=
        readDigits_bareDigits_iff.mpr ⟨htext, Nat.le_refl _⟩
      rw [hread] at hok
      contradiction
    exact iff_of_false (by simp [Except.toOption]) hnone
  | ok m =>
    obtain ⟨htext, hle⟩ := readDigits_bareDigits_iff.mp hread
    have hiff : DecimalText cs (2 ^ 127) ↔ m = 2 ^ 127 := by
      constructor
      · intro htop
        have hok : readDigits 10 (2 ^ 127) .tooSmall 0 (bareDigits cs) = .ok (2 ^ 127) :=
          readDigits_bareDigits_iff.mpr ⟨htop, Nat.le_refl _⟩
        exact Except.ok.inj (hread.symm.trans hok)
      · rintro rfl
        exact htext
    simp only [Except.toOption, Option.map_some]
    rw [map_eq_error_iff, opposite_eq_error_iff (by omega), hiff]
    omega

/-- Behind three signs there is no number. -/
theorem integerValue_minus_minus_minus (cs : List Char) :
    integerValue ('-' :: '-' :: '-' :: cs) = .ok none := by
  rw [integerValue, skipBlanks_minus, magnitude?_minus_minus]

/-- Exactly two minus signs in front of a decimal literal of 2 ^ 127 overflow. -/
theorem integerValue_overflows_iff {cs : List Char} (h : IsInteger cs) (n : Nat) :
    integerValue (List.replicate n '-' ++ cs) = .error .negation ↔
      n = 2 ∧ DecimalText cs (2 ^ 127) := by
  match n with
  | 0 =>
    rw [List.replicate_zero, List.nil_append, integerValue_unsigned h]
    exact iff_of_false (by simp) (by simp)
  | 1 =>
    rw [List.replicate_one, List.singleton_append]
    exact iff_of_false (integerValue_minus h) (by simp)
  | 2 =>
    have hsigns : List.replicate 2 '-' ++ cs = '-' :: '-' :: cs := rfl
    rw [hsigns, integerValue_minus_minus h]
    exact (and_iff_right rfl).symm
  | n + 3 =>
    simp only [List.replicate_succ, List.cons_append]
    rw [integerValue_minus_minus_minus]
    exact iff_of_false (by simp) (by omega)

end Attest.Call
