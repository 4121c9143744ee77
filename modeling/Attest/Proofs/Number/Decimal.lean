/-
  Decimal fractions: digits, perhaps a point and more digits, perhaps a power of ten. Main
  statements: such a text is read as the number that its digits stand for, moved by the places
  behind the point and by the power of ten (`readUnsigned?_of_parts`), and a decimal fraction that
  is not too large becomes the number that it is rounded to (`Decimal.toFloating_rounds`).
-/
import Attest.Number.Read
import Attest.Proofs.Number.Digits
import Attest.Proofs.Number.Rounding
import Attest.Proofs.Text.Split
import Mathlib.Tactic.NormNum

namespace Attest.Number

/-! ## Digits -/

/-- Reading behind an accumulator. -/
theorem foldl_digits {n : Nat} {cs : List Char} (h : Digits 10 cs n) (acc : Nat) :
    (bare cs).foldl (fun n c => 10 * n + (c.toNat - 48)) acc =
      acc * 10 ^ (bare cs).length + n := by
  induction h generalizing acc with
  | nil => simp [bare]
  | underscore _ ih => rw [bare_underscore, ih]
  | @digit c d cs n hc hd _ ih =>
    have hvalue : c.toNat - 48 = d := by
      have hread := digitValue?_of_digitOf hc hd
      obtain ⟨hzero, hnine⟩ := hc.decimal hd
      unfold digitValue? at hread
      have hcond : (decide ('0' ≤ c) && decide (c ≤ '9')) = true := by simp [hzero, hnine]
      simp only [hcond, if_true] at hread
      split at hread
      · exact Option.some.inj hread
      · contradiction
    rw [bare_digit hc, List.foldl_cons, ih, hvalue, List.length_cons, place_value, Nat.mul_comm 10]

theorem digitsValue_of_digits {n : Nat} {cs : List Char} (h : Digits 10 cs n) :
    digitsValue (bare cs) = n := by
  rw [digitsValue, foldl_digits h, Nat.zero_mul, Nat.zero_add]

theorem isDigit_of_digits {n : Nat} {cs : List Char} (h : Digits 10 cs n) :
    ∀ c ∈ bare cs, isDigit c = true := by
  intro c hc
  obtain ⟨hmem, hne⟩ := List.mem_filter.mp hc
  rcases h.mem hmem with rfl | ⟨d, hd, hdigit⟩
  · simp at hne
  · obtain ⟨hzero, hnine⟩ := hdigit.decimal hd
    simp [isDigit, hzero, hnine]

theorem foldl_value (cs : List Char) (acc : Nat) :
    cs.foldl (fun n c => 10 * n + (c.toNat - 48)) acc = acc * 10 ^ cs.length + digitsValue cs := by
  induction cs generalizing acc with
  | nil => simp [digitsValue]
  | cons c cs ih =>
    rw [digitsValue, List.foldl_cons, List.foldl_cons, ih, ih, List.length_cons, Nat.mul_zero,
      Nat.zero_add, Nat.mul_comm 10, place_value]

theorem digitsValue_append (cs ds : List Char) :
    digitsValue (cs ++ ds) = digitsValue cs * 10 ^ ds.length + digitsValue ds := by
  rw [digitsValue, List.foldl_append, foldl_value]
  rfl

theorem digitsValue_zeros (n : Nat) : digitsValue (List.replicate n '0') = 0 := by
  induction n with
  | zero => rfl
  | succ n ih => rwa [List.replicate_succ, digitsValue, List.foldl_cons]

/-! ## Digits of a number -/

theorem toList_toString (n : Nat) : (toString n).toList = Nat.toDigits 10 n := by
  rw [Nat.toString_eq_ofList_toDigits, String.toList_ofList]

theorem toList_toString_int (i : Int) : (toString i).toList =
    if i < 0 then '-' :: Nat.toDigits 10 i.natAbs else Nat.toDigits 10 i.natAbs := by
  cases i with
  | ofNat n =>
    rw [if_neg (by simp)]
    exact toList_toString n
  | negSucc n =>
    rw [if_pos (Int.negSucc_lt_zero n)]
    show ("-" ++ toString (n + 1)).toList = _
    rw [String.toList_append, toList_toString]
    rfl

theorem isDigit_toDigits (n : Nat) : ∀ c ∈ Nat.toDigits 10 n, isDigit c = true := by
  obtain ⟨hdigits, hbare⟩ := digits_toDigits (by decide : 1 < 10) (by decide) n
  rw [← hbare]
  exact isDigit_of_digits hdigits

theorem head?_toDigits {n : Nat} (hn : n ≠ 0) : (Nat.toDigits 10 n).head? ≠ some '0' := by
  induction n using Nat.strongRecOn with
  | ind n ih =>
    by_cases hlt : n < 10
    · have hall : ∀ i < 10, i ≠ 0 → [i.digitChar].head? ≠ some '0' := by decide
      rw [Nat.toDigits_of_lt_base hlt]
      exact hall n hlt hn
    · rw [Nat.toDigits_of_base_le (by decide) (by omega), List.head?_append_of_ne_nil _
        Nat.toDigits_ne_nil]
      exact ih (n / 10) (by omega) (by omega)

/-- A number begins with a digit, and with a zero only if it is zero. -/
theorem exists_first_digit (n : Nat) :
    ∃ c ds, Nat.toDigits 10 n = c :: ds ∧ isDigit c = true ∧ (n ≠ 0 → c ≠ '0') := by
  obtain ⟨c, ds, hds⟩ := List.exists_cons_of_ne_nil (Nat.toDigits_ne_nil (b := 10) (n := n))
  refine ⟨c, ds, hds, isDigit_toDigits n c (by simp [hds]), fun hn => ?_⟩
  have := head?_toDigits hn
  rwa [hds, List.head?_cons, ne_eq, Option.some.injEq] at this

theorem digitsValue_toDigits (n : Nat) : digitsValue (Nat.toDigits 10 n) = n := by
  obtain ⟨hdigits, hbare⟩ := digits_toDigits (by decide : 1 < 10) (by decide) n
  rw [← hbare]
  exact digitsValue_of_digits hdigits

/-- With fewer digits there is no number as large. -/
theorem ten_pow_length_toDigits_le {n : Nat} (hn : n ≠ 0) :
    10 ^ ((Nat.toDigits 10 n).length - 1) ≤ n := by
  rcases Nat.eq_zero_or_pos ((Nat.toDigits 10 n).length - 1) with hone | hmore
  · rw [hone]
    omega
  · by_contra hlt
    have := (Nat.length_toDigits_le_iff (by omega) hmore).mpr (not_le.mp hlt)
    omega

/-! ## Exponents -/

/-- The signs of an exponent, and whether they make it negative. -/
def exponentSigns : List (List Char × Bool) := [([], false), (['+'], false), (['-'], true)]

theorem readExponent?_of_digits {sign digits : List Char} {negative : Bool} {n : Nat}
    (hsign : (sign, negative) ∈ exponentSigns) (h : Digits 10 digits n) (hne : bare digits ≠ []) :
    readExponent? (sign ++ bare digits) = some (signedInt negative n) := by
  obtain ⟨c, rest, hc⟩ := List.exists_cons_of_ne_nil hne
  have hall : (bare digits).all isDigit = true := List.all_eq_true.mpr (isDigit_of_digits h)
  have hempty : (bare digits).isEmpty = false := by rw [hc]; rfl
  have hvalue := digitsValue_of_digits h
  have hread (b : Bool) : (if (bare digits).isEmpty || !(bare digits).all isDigit then none
      else some (if b then -(digitsValue (bare digits) : Int) else digitsValue (bare digits))) =
        some (signedInt b n) := by
    rw [hempty, hall, hvalue]
    rfl
  simp only [exponentSigns, List.mem_cons, Prod.mk.injEq, List.not_mem_nil, or_false] at hsign
  rcases hsign with ⟨rfl, rfl⟩ | ⟨rfl, rfl⟩ | ⟨rfl, rfl⟩
  · have hplus : c ≠ '+' ∧ c ≠ '-' := by
      have := h.all_bare (p := fun c => c != '+' && c != '-') (by decide) c (by simp [hc])
      simpa using this
    rw [← hread false, List.nil_append, hc]
    unfold readExponent?
    split
    next negative ds heq =>
      split at heq
      · next hcons => exact absurd (List.cons.inj hcons).1 hplus.1
      · next hcons => exact absurd (List.cons.inj hcons).1 hplus.2
      · obtain ⟨rfl, rfl⟩ := Prod.mk.inj heq
        rfl
  · exact hread false
  · exact hread true

/-! ## Fractions -/

/-- A point with digits behind it, or neither. -/
inductive PointPart : List Char → List Char → Prop
  | none : PointPart [] []
  | some (digits : List Char) : PointPart ('.' :: digits) digits

/-- A power of ten, or nothing. -/
inductive ExponentPart : List Char → Int → Prop
  | none : ExponentPart [] 0
  | some {mark sign digits negative n} (hmark : mark = 'e' ∨ mark = 'E')
      (hsign : (sign, negative) ∈ exponentSigns) (hdigits : Digits 10 digits n)
      (hne : bare digits ≠ []) :
      ExponentPart (mark :: (sign ++ digits)) (signedInt negative n)

theorem PointPart.bare {point fraction : List Char} (h : PointPart point fraction) :
    PointPart (bare point) (bare fraction) := by
  cases h with
  | none => exact .none
  | some =>
    have hpoint : Number.bare ('.' :: fraction) = '.' :: Number.bare fraction := by
      rw [Number.bare, List.filter_cons_of_pos (by decide)]
      rfl
    rw [hpoint]
    exact .some _

/-- Without its underscores a power of ten has the same value. -/
theorem ExponentPart.bare {exponent : List Char} {x : Int} (h : ExponentPart exponent x) :
    bare exponent = [] ∧ x = 0 ∨ ∃ mark rest, bare exponent = mark :: rest ∧
      (mark = 'e' ∨ mark = 'E') ∧ readExponent? rest = Option.some x := by
  cases h with
  | none => exact Or.inl ⟨rfl, rfl⟩
  | @some mark sign digits negative n hmark hsign hdigits hne =>
    have hkeep : mark ≠ '_' := by rcases hmark with rfl | rfl <;> decide
    have hsigns : ∀ p ∈ exponentSigns, Number.bare p.1 = p.1 := by decide
    have hbare : Number.bare sign = sign := hsigns _ hsign
    refine Or.inr ⟨mark, sign ++ Number.bare digits, ?_, hmark,
      readExponent?_of_digits hsign hdigits hne⟩
    rw [Number.bare, List.filter_cons_of_pos (by simpa using hkeep)]
    show mark :: Number.bare (sign ++ digits) = _
    rw [bare_append, hbare]

/-- A text is split where its digits, its point and its power of ten meet. -/
theorem readUnsigned?_of_split {whole point fraction exponent : List Char} {x : Int}
    (negative : Bool) (hwhole : ∀ c ∈ whole, isDigit c = true) (hne : whole ≠ [])
    (hfraction : ∀ c ∈ fraction, isDigit c = true) (hpoint : PointPart point fraction)
    (hexponent : exponent = [] ∧ x = 0 ∨ ∃ mark rest, exponent = mark :: rest ∧
      (mark = 'e' ∨ mark = 'E') ∧ readExponent? rest = some x) :
    readUnsigned? negative (whole ++ (point ++ exponent)) =
      some ⟨negative, digitsValue (whole ++ fraction), x - fraction.length⟩ := by
  have hempty : whole.isEmpty = false := by simpa using hne
  have hstop : ∀ c ∈ exponent.head?, isDigit c = false ∧ c ≠ '.' := by
    intro c hc
    rcases hexponent with ⟨rfl, -⟩ | ⟨mark, rest, rfl, hmark, -⟩
    · simp at hc
    · obtain rfl := Option.some.inj hc
      rcases hmark with rfl | rfl <;> decide
  cases hpoint with
  | none =>
    obtain ⟨htake, hdrop⟩ := Text.takeWhile_front hwhole fun c hc => (hstop c hc).1
    rw [readUnsigned?, List.nil_append, htake, hdrop]
    split
    next fraction' rest' heq =>
      split at heq
      · exact absurd rfl (hstop '.' rfl).2
      · obtain ⟨rfl, rfl⟩ := Prod.mk.inj heq
        rw [hempty, Bool.false_and, if_neg (by decide)]
        rcases hexponent with ⟨rfl, rfl⟩ | ⟨mark, rest, rfl, hmark, hrest⟩
        · simp
        · simp [hmark, hrest]
  | some =>
    have hhead : ∀ c ∈ ('.' :: fraction ++ exponent).head?, isDigit c = false := by
      intro c hc
      obtain rfl := Option.some.inj hc
      decide
    obtain ⟨htake, hdrop⟩ := Text.takeWhile_front hwhole hhead
    obtain ⟨htake', hdrop'⟩ := Text.takeWhile_front hfraction fun c hc => (hstop c hc).1
    rw [readUnsigned?, htake, hdrop]
    split
    next fraction' rest' heq =>
      split at heq
      · next hcons =>
        obtain rfl := (List.cons.inj hcons).2
        rw [List.append_eq, htake', hdrop'] at heq
        obtain ⟨rfl, rfl⟩ := Prod.mk.inj heq
        rw [hempty, Bool.false_and, if_neg (by decide)]
        rcases hexponent with ⟨rfl, rfl⟩ | ⟨mark, rest, rfl, hmark, hrest⟩
        · simp
        · simp [hmark, hrest, Int.sub_eq_add_neg]
      · next hother => exact absurd rfl (hother _)

/-- The digits before and behind the point make one number, and the places behind the point and
the power of ten move it. -/
theorem readUnsigned?_of_parts {whole point fraction exponent : List Char} {n : Nat} {x : Int}
    (negative : Bool) (hdigits : Digits 10 (whole ++ fraction) n) (hne : bare whole ≠ [])
    (hpoint : PointPart point fraction) (hexponent : ExponentPart exponent x) :
    readUnsigned? negative (bare (whole ++ (point ++ exponent))) =
      some ⟨negative, n, x - (bare fraction).length⟩ := by
  have hall := isDigit_of_digits hdigits
  rw [bare_append] at hall
  have hwhole : ∀ c ∈ bare whole, isDigit c = true := fun c hc =>
    hall c (List.mem_append_left _ hc)
  have hfraction : ∀ c ∈ bare fraction, isDigit c = true := fun c hc =>
    hall c (List.mem_append_right _ hc)
  rw [bare_append, bare_append,
    readUnsigned?_of_split negative hwhole hne hfraction hpoint.bare hexponent.bare,
    ← bare_append, digitsValue_of_digits hdigits]

/-! ## Rounding -/

namespace Decimal

/-- The rational number that a decimal fraction is. -/
def value (x : Decimal) : ℚ := withSign x.negative (x.digits * 10 ^ x.exponent)

/-- The decimal fraction without its sign, over one denominator. -/
def fraction (x : Decimal) : Nat × Nat :=
  if 0 ≤ x.exponent then (x.digits * 10 ^ x.exponent.toNat, 1)
  else (x.digits, 10 ^ (-x.exponent).toNat)

/-- A sign in front of the fraction is one in front of the number. -/
theorem toFloating_negate (f : Format) (negative : Bool) (digits : Nat) (exponent : Int) :
    (Decimal.mk (!negative) digits exponent).toFloating f =
      ((Decimal.mk negative digits exponent).toFloating f).negate := by
  unfold toFloating
  dsimp only
  split
  · rfl
  split
  · rfl
  split
  · rfl
  split
  · exact f.round_negate negative _ _
  · exact f.round_negate negative _ _

theorem fraction_snd_pos (x : Decimal) : 0 < x.fraction.2 := by
  unfold fraction
  split
  · exact one_pos
  · exact Nat.pow_pos (by omega)

theorem fraction_eq (x : Decimal) :
    (x.fraction.1 : ℚ) / x.fraction.2 = x.digits * 10 ^ x.exponent := by
  unfold fraction
  split
  · next hx =>
    have hpow : (10 : ℚ) ^ x.exponent = 10 ^ x.exponent.toNat := by
      rw [← zpow_natCast, Int.toNat_of_nonneg hx]
    rw [hpow, Nat.cast_mul, Nat.cast_pow, Nat.cast_one, div_one]
    rfl
  · next hx =>
    have hpow : (10 : ℚ) ^ x.exponent = (10 ^ (-x.exponent).toNat)⁻¹ := by
      rw [← zpow_natCast, Int.toNat_of_nonneg (by omega), zpow_neg, inv_inv]
    rw [hpow, Nat.cast_pow, div_eq_mul_inv]
    rfl

theorem value_eq (x : Decimal) :
    x.value = withSign x.negative ((x.fraction.1 : ℚ) / x.fraction.2) := by
  rw [value, fraction_eq]

/-- The places in front of the point tell the power of ten. -/
theorem places_spec {x : Decimal} (h : x.digits ≠ 0) :
    (10 : ℚ) ^ (((Nat.toDigits 10 x.digits).length : ℤ) + x.exponent - 1) ≤
        x.digits * 10 ^ x.exponent ∧
      x.digits * (10 : ℚ) ^ x.exponent <
        10 ^ (((Nat.toDigits 10 x.digits).length : ℤ) + x.exponent) := by
  have hten : (10 : ℚ) ≠ 0 := by norm_num
  have hunit : (0 : ℚ) < 10 ^ x.exponent := zpow_pos (by norm_num) _
  have hlength : 0 < (Nat.toDigits 10 x.digits).length := Nat.length_toDigits_pos
  have hhigh : x.digits < 10 ^ (Nat.toDigits 10 x.digits).length :=
    (Nat.length_toDigits_le_iff (by omega) hlength).mp (le_refl _)
  have hlow := ten_pow_length_toDigits_le h
  constructor
  · have hexp : ((Nat.toDigits 10 x.digits).length : ℤ) + x.exponent - 1 =
        ((Nat.toDigits 10 x.digits).length - 1 : ℕ) + x.exponent := by
      omega
    rw [hexp, zpow_add₀ hten, zpow_natCast]
    refine mul_le_mul_of_nonneg_right ?_ hunit.le
    exact_mod_cast hlow
  · rw [zpow_add₀ hten, zpow_natCast]
    refine mul_lt_mul_of_pos_right ?_ hunit
    exact_mod_cast hhigh

theorem two_pow_lt {k : Nat} (hk : k ≤ 1200) : (2 : ℚ) ^ k < 10 ^ 400 := by
  calc (2 : ℚ) ^ k ≤ 2 ^ 1200 := pow_le_pow_right₀ one_le_two hk
    _ = (2 ^ 3) ^ 400 := by rw [← pow_mul]
    _ < 10 ^ 400 := pow_lt_pow_left₀ (by norm_num) (by norm_num) (by decide)

theorem overflow_lt : double.overflow < 10 ^ (400 : ℤ) := by
  calc double.overflow ≤ 2 ^ 53 * 2 ^ (971 : ℤ) :=
        mul_le_mul_of_nonneg_right (by norm_num [double]) (zpow_nonneg zero_le_two _)
    _ = 2 ^ 1024 := by rw [← zpow_natCast, ← zpow_natCast, ← zpow_add₀ two_ne_zero]; rfl
    _ < 10 ^ 400 := two_pow_lt (by decide)

theorem lt_least : (10 : ℚ) ^ (-400 : ℤ) < 2 ^ (double.least - 1) := by
  have hpow : (2 : ℚ) ^ (double.least - 1) = (2 ^ 1075)⁻¹ := by
    rw [← zpow_natCast, ← zpow_neg]
    rfl
  rw [hpow, zpow_neg]
  exact inv_strictAnti₀ (pow_pos two_pos _) (two_pow_lt (by decide))

/-- The bounds on the places cut off only what is rounded to zero or to no number. -/
theorem toFloating_eq_round {x : Decimal} (h : |x.value| < double.overflow) :
    x.toFloating double = double.round x.negative x.fraction.1 x.fraction.2 := by
  have hsize : |x.value| = x.digits * 10 ^ x.exponent := by
    rw [value, abs_withSign, abs_of_nonneg (by positivity)]
  rw [hsize] at h
  unfold toFloating
  by_cases hzero : x.digits = 0
  · have hfraction : x.fraction.1 = 0 := by
      unfold fraction
      split <;> simp [hzero]
    rw [if_pos hzero, hfraction, Format.round, if_pos rfl]
  · obtain ⟨hlow, hhigh⟩ := places_spec hzero
    rw [if_neg hzero]
    dsimp only
    split
    · next hlarge =>
      have hpow : (10 : ℚ) ^ (400 : ℤ) ≤
          10 ^ (((Nat.toDigits 10 x.digits).length : ℤ) + x.exponent - 1) :=
        zpow_le_zpow_right₀ (by norm_num) (by omega)
      have hover := overflow_lt
      linarith
    · split
      · next hsmall =>
        have hpow : (10 : ℚ) ^ (((Nat.toDigits 10 x.digits).length : ℤ) + x.exponent) ≤
            10 ^ (-400 : ℤ) :=
          zpow_le_zpow_right₀ (by norm_num) (by omega)
        have hunder := lt_least
        refine (Format.round_of_small double_valid x.negative _ x.fraction_snd_pos ?_).symm
        rw [fraction_eq]
        linarith
      · unfold fraction
        split
        · rfl
        · rfl

/-- A decimal fraction that is not too large becomes the number that it is rounded to. -/
theorem toFloating_rounds {x : Decimal} (h : |x.value| < double.overflow) :
    double.Rounds x.value (x.toFloating double) := by
  have hq : (x.fraction.1 : ℚ) / x.fraction.2 < double.overflow := by
    rwa [value_eq, abs_withSign, abs_of_nonneg (by positivity)] at h
  rw [toFloating_eq_round h, value_eq]
  exact Format.round_rounds double_valid _ _ x.fraction_snd_pos hq

end Decimal

end Attest.Number
