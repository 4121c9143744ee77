/-
  Integer literals. `IntegerText` says which texts are integer literals and of what value. Main
  statements: such a text is read as its value (`integerValue_of_text`), also behind a minus sign
  (`integerValue_of_negative`).
-/
import Attest.Call.Literal
import Attest.Proofs.Number.Digits
import Attest.Proofs.Text.Offsets

namespace Attest.Call

open Number
open Literal (radixOf bareDigits magnitude? integerValue opposite)

/-! ## Texts of integer literals -/

/-- What a literal begins with in each radix. -/
def radixMarks : List (List Char × Nat) :=
  [([], 10), (['0', 'x'], 16), (['0', 'o'], 8), (['0', 'b'], 2)]

/-- No suffix, or the name of an integer type. -/
def integerSuffixes : List (List Char) :=
  ["", "i8", "i16", "i32", "i64", "i128", "isize", "u8", "u16", "u32", "u64", "u128",
    "usize"].map String.toList

/-- Integer literals and their values: at least one digit, and in front of decimal digits no
underscore. -/
inductive IntegerText : List Char → Nat → Prop
  | intro {mark radix digits suffix n} (hmark : (mark, radix) ∈ radixMarks)
      (hdigits : Digits radix digits n) (hne : bare digits ≠ [])
      (hfirst : mark = [] → digits.head? ≠ some '_') (hsuffix : suffix ∈ integerSuffixes) :
      IntegerText (mark ++ (digits ++ suffix)) n

/-! ## Radix and digits -/

/-- A literal whose second character names no radix is decimal. -/
theorem radixOf_of_decimal {c : Char} {cs : List Char}
    (h : ∀ d ∈ cs.head?, d ≠ 'x' ∧ d ≠ 'o' ∧ d ≠ 'b') : radixOf (c :: cs) = (10, c :: cs) := by
  unfold radixOf
  split
  · next heq => exact absurd rfl (h 'x' (by simp [(List.cons.inj heq).2])).1
  · next heq => exact absurd rfl (h 'o' (by simp [(List.cons.inj heq).2])).2.1
  · next heq => exact absurd rfl (h 'b' (by simp [(List.cons.inj heq).2])).2.2
  · rfl

/-- A suffix ends the digits, and it holds no underscore. -/
theorem bareDigits_append_suffix {radix n : Nat} {digits suffix : List Char}
    (h : Digits radix digits n) (hsuffix : suffix ∈ integerSuffixes) :
    bareDigits (digits ++ suffix) = bare digits := by
  have hbare : ∀ s ∈ integerSuffixes, s.filter (· != '_') = s := by decide
  have hend : ∀ s ∈ integerSuffixes, s.takeWhile (fun c => c != 'i' && c != 'u') = [] := by decide
  have hdigits : ∀ c ∈ bare digits, (c != 'i' && c != 'u') = true :=
    h.all_bare (p := fun c => c != 'i' && c != 'u') (by decide)
  rw [bareDigits, List.filter_append, hbare suffix hsuffix]
  show (bare digits ++ suffix).takeWhile (fun c => c != 'i' && c != 'u') = bare digits
  rw [List.takeWhile_append_of_pos hdigits, hend suffix hsuffix, List.append_nil]

/-- Cuts a suffix off by the offset of its first letter. -/
def bareDigitsAt? (ds : List Char) : Option (List Char) :=
  match Text.offsetOf? (fun c => c == 'i' || c == 'u') 0 (bare ds) with
  | some pos => Text.before? pos (bare ds)
  | none => some (bare ds)

/-- The offset of a suffix is never inside a character or behind the end. -/
theorem bareDigitsAt?_eq (ds : List Char) : bareDigitsAt? ds = some (bareDigits ds) := by
  have hdigits : bareDigits ds = (bare ds).takeWhile (!(fun c => c == 'i' || c == 'u') ·) := by
    rw [bareDigits, bare]
    congr 1
    funext c
    simp [bne]
  have hsplit := List.takeWhile_append_dropWhile (p := (!(fun c => c == 'i' || c == 'u') ·))
    (l := bare ds)
  unfold bareDigitsAt?
  rcases Text.offsetOf?_spec (fun c => c == 'i' || c == 'u') 0 (bare ds) with ⟨hnone, hall⟩ | hsome
  · rw [hnone, hdigits, hall]
  · rw [hsome, Nat.zero_add, hdigits]
    dsimp only
    conv => lhs; arg 2; rw [← hsplit]
    exact Text.before?_append _ _

/-- All characters of decimal digits and of a suffix are no marks of a radix. -/
theorem ne_mark_of_decimal {n : Nat} {digits suffix : List Char} (h : Digits 10 digits n)
    (hsuffix : suffix ∈ integerSuffixes) :
    ∀ c ∈ digits ++ suffix, c ≠ 'x' ∧ c ≠ 'o' ∧ c ≠ 'b' := by
  have hall : ∀ s ∈ integerSuffixes, s.all (fun c => c != 'x' && c != 'o' && c != 'b') = true := by
    decide
  intro c hc
  rcases List.mem_append.mp hc with hc | hc
  · rcases h.mem hc with rfl | ⟨d, hd, hdigit⟩
    · decide
    · obtain ⟨-, hnine⟩ := hdigit.decimal hd
      refine ⟨?_, ?_, ?_⟩
      all_goals
        rintro rfl
        exact absurd hnine (by decide)
  · simpa [and_assoc] using List.all_eq_true.mp (hall suffix hsuffix) c hc

theorem radixOf_of_text {mark digits suffix : List Char} {radix n : Nat}
    (hmark : (mark, radix) ∈ radixMarks) (hdigits : Digits radix digits n) (hne : bare digits ≠ [])
    (hsuffix : suffix ∈ integerSuffixes) :
    radixOf (mark ++ (digits ++ suffix)) = (radix, digits ++ suffix) := by
  simp only [radixMarks, List.mem_cons, Prod.mk.injEq, List.not_mem_nil, or_false] at hmark
  rcases hmark with ⟨rfl, rfl⟩ | ⟨rfl, rfl⟩ | ⟨rfl, rfl⟩ | ⟨rfl, rfl⟩
  · have hmarks := ne_mark_of_decimal hdigits hsuffix
    cases hds : digits ++ suffix with
    | nil => simp [(List.append_eq_nil_iff.mp hds).1, bare] at hne
    | cons c cs =>
      rw [hds] at hmarks
      exact radixOf_of_decimal fun d hd =>
        hmarks d (List.mem_cons_of_mem _ (List.mem_of_mem_head? hd))
  · rfl
  · rfl
  · rfl

/-- A literal is read as its value, unless that is too large. -/
theorem magnitude?_of_text {cs : List Char} {n : Nat} (h : IntegerText cs n) :
    magnitude? cs = if n < 2 ^ 127 then some (n : Int) else none := by
  obtain ⟨hmark, hdigits, hne, -, hsuffix⟩ := h
  rw [magnitude?, radixOf_of_text hmark hdigits hne hsuffix]
  dsimp only
  rw [bareDigits_append_suffix hdigits hsuffix, read?_of_digits hdigits hne]
  have hhigh : scalarRange.high.toNat = 2 ^ 127 - 1 := by decide
  rw [hhigh]
  split
  · rw [if_pos (by omega)]
  · rw [if_neg (by omega)]

/-- A literal begins with a decimal digit. -/
theorem IntegerText.head {cs : List Char} {n : Nat} (h : IntegerText cs n) :
    ∃ c rest, cs = c :: rest ∧ '0' ≤ c ∧ c ≤ '9' := by
  obtain ⟨hmark, hdigits, hne, hfirst, -⟩ := h
  simp only [radixMarks, List.mem_cons, Prod.mk.injEq, List.not_mem_nil, or_false] at hmark
  rcases hmark with ⟨rfl, rfl⟩ | ⟨rfl, rfl⟩ | ⟨rfl, rfl⟩ | ⟨rfl, rfl⟩
  · cases hdigits with
    | nil => simp [bare] at hne
    | underscore _ => simp at hfirst
    | digit hc hd _ => exact ⟨_, _, rfl, hc.decimal hd⟩
  · exact ⟨'0', _, rfl, by decide⟩
  · exact ⟨'0', _, rfl, by decide⟩
  · exact ⟨'0', _, rfl, by decide⟩

/-! ## Values -/

theorem scalarRange_has_iff (i : Int) :
    scalarRange.has i = true ↔ -2 ^ 127 ≤ i ∧ i < 2 ^ 127 := by
  have hlow : scalarRange.low = -2 ^ 127 := by decide
  have hhigh : scalarRange.high = 2 ^ 127 - 1 := by decide
  rw [Range.has, hlow, hhigh, Bool.and_eq_true, decide_eq_true_eq, decide_eq_true_eq]
  omega

theorem not_isBlank_of_decimal {c : Char} (h : '0' ≤ c ∧ c ≤ '9') : Text.isBlank c = false := by
  have hzero : 48 ≤ c.toNat := h.1
  have hnine : c.toNat ≤ 57 := h.2
  simp [Text.isBlank, Text.blankRanges, Text.Ranges.has]
  omega

theorem skipBlanks_of_decimal {c : Char} {rest : List Char} (h : '0' ≤ c ∧ c ≤ '9') :
    Text.skipBlanks (c :: rest) = c :: rest := by
  rw [Text.skipBlanks, List.dropWhile_cons_of_neg (by simp [not_isBlank_of_decimal h])]

theorem integerValue_of_text {cs : List Char} {n : Nat} (h : IntegerText cs n) :
    integerValue cs = .ok (if n < 2 ^ 127 then some (n : Int) else none) := by
  obtain ⟨c, rest, rfl, hc⟩ := h.head
  have hminus : c ≠ '-' := by
    rintro rfl
    exact absurd hc (by decide)
  unfold integerValue
  split
  · next heq => exact absurd (List.cons.inj heq).1 hminus
  · rw [magnitude?_of_text h]

/-- The opposites of all literals that a scalar can hold exist. -/
theorem integerValue_of_negative {cs : List Char} {n : Nat} (h : IntegerText cs n) :
    integerValue ('-' :: cs) = .ok (if n < 2 ^ 127 then some (-n : Int) else none) := by
  obtain ⟨c, rest, hcs, hc⟩ := h.head
  have hskip : Text.skipBlanks cs = cs := by rw [hcs, skipBlanks_of_decimal hc]
  rw [integerValue, hskip, magnitude?_of_text h]
  by_cases hn : n < 2 ^ 127
  · have hrange : scalarRange.has (-(n : Int)) = true := by
      rw [scalarRange_has_iff]
      omega
    simp only [if_pos hn, opposite, hrange, if_true]
    rfl
  · simp only [if_neg hn]

end Attest.Call
