/-
  Rounding. A finite floating-point number is a rational number (`Floating.value`). `Format.Rounds`
  says which number of a format a rational number is rounded to: the nearest one and, if two are
  equally near, the one with the even mantissa. Main statements: rounding a fraction gives such a
  number (`Format.round_rounds`), all such numbers have the same value (`Format.Rounds.value_eq`),
  and a number that fits another format is not changed by the conversion (`value_convert`).
-/
import Attest.Number.Format
import Mathlib.Algebra.Order.Field.Power
import Mathlib.Data.Rat.Lemmas
import Mathlib.Tactic.FieldSimp
import Mathlib.Tactic.Linarith
import Mathlib.Tactic.Positivity
import Mathlib.Tactic.Ring

namespace Attest.Number

/-! ## Values -/

/-- The number with a sign in front of it. -/
def withSign (negative : Bool) (q : ℚ) : ℚ := if negative then -q else q

namespace Floating

/-- The rational number that a finite number is. -/
def value : Floating → ℚ
  | .finite s m e => withSign s (m * 2 ^ e)
  | _ => 0

def mantissa : Floating → Nat
  | .finite _ m _ => m
  | _ => 0

end Floating

theorem abs_withSign_sub (s : Bool) (a b : ℚ) :
    |withSign s a - withSign s b| = |a - b| := by
  cases s with
  | false => rfl
  | true =>
    have hneg : withSign true a - withSign true b = -(a - b) := by
      simp only [withSign, if_true]
      ring
    rw [hneg, abs_neg]

theorem abs_sub_withSign (s : Bool) (a b : ℚ) :
    |a - withSign s b| = |withSign s a - b| := by
  have htwice : withSign s (withSign s a) = a := by cases s <;> simp [withSign]
  conv => lhs; rw [← htwice]
  exact abs_withSign_sub s (withSign s a) b

theorem withSign_withSign (s s' : Bool) (q : ℚ) :
    withSign s (withSign s' q) = withSign (s != s') q := by
  cases s <;> cases s' <;> simp [withSign]

theorem abs_withSign (s : Bool) (q : ℚ) : |withSign s q| = |q| := by
  cases s <;> simp [withSign]

/-! ## Rounding to an integer -/

theorem natCast_div_eq {n d : Nat} (hd : 0 < d) :
    (n : ℚ) / d = ((n / d : Nat) : ℚ) + ((n % d : Nat) : ℚ) / d := by
  have hne : (d : ℚ) ≠ 0 := by positivity
  have hsplit : ((d * (n / d) + n % d : Nat) : ℚ) = n := by rw [Nat.div_add_mod]
  rw [← hsplit, Nat.cast_add, Nat.cast_mul]
  field_simp

/-- Rounding to an integer goes at most half a unit, and so far only to an even integer. -/
theorem divHalfEven_error {n d : Nat} (hd : 0 < d) :
    |(divHalfEven n d : ℚ) - n / d| ≤ 1 / 2 ∧
      (|(divHalfEven n d : ℚ) - n / d| = 1 / 2 → divHalfEven n d % 2 = 0) := by
  have hpos : (0 : ℚ) < d := by exact_mod_cast hd
  have hlow : (0 : ℚ) ≤ ((n % d : Nat) : ℚ) / d := by positivity
  rw [natCast_div_eq hd]
  unfold divHalfEven
  dsimp only
  split
  · next hr =>
    have hhalf : ((n % d : Nat) : ℚ) / d < 1 / 2 := by
      rw [div_lt_div_iff₀ hpos two_pos]
      exact_mod_cast (by omega : n % d * 2 < 1 * d)
    have habs : |((n / d : Nat) : ℚ) - (((n / d : Nat) : ℚ) + ((n % d : Nat) : ℚ) / d)| =
        ((n % d : Nat) : ℚ) / d := by
      rw [sub_add_cancel_left, abs_neg, abs_of_nonneg hlow]
    rw [habs]
    exact ⟨hhalf.le, fun h => absurd h hhalf.ne⟩
  · split
    · next hr =>
      have hhalf : 1 / 2 < ((n % d : Nat) : ℚ) / d := by
        rw [div_lt_div_iff₀ two_pos hpos]
        exact_mod_cast (by omega : 1 * d < n % d * 2)
      have hone : ((n % d : Nat) : ℚ) / d < 1 := by
        rw [div_lt_one hpos]
        exact_mod_cast Nat.mod_lt n hd
      have habs : |((n / d + 1 : Nat) : ℚ) - (((n / d : Nat) : ℚ) + ((n % d : Nat) : ℚ) / d)| =
          1 - ((n % d : Nat) : ℚ) / d := by
        rw [Nat.cast_add, Nat.cast_one, add_sub_add_left_eq_sub, abs_of_pos (by linarith)]
      rw [habs]
      constructor
      · linarith
      · intro h
        linarith
    · next hless hmore =>
      have hhalf : ((n % d : Nat) : ℚ) / d = 1 / 2 := by
        rw [div_eq_div_iff hpos.ne' two_ne_zero]
        exact_mod_cast (by omega : n % d * 2 = 1 * d)
      rw [hhalf]
      refine ⟨?_, fun _ => by omega⟩
      rcases Nat.mod_two_eq_zero_or_one (n / d) with hmod | hmod
      · rw [hmod, Nat.add_zero, sub_add_cancel_left, abs_neg]
        norm_num
      · rw [hmod, Nat.cast_add, add_sub_add_left_eq_sub]
        norm_num

/-- Nothing is nearer than what lies within half a unit, and of two integers that are equally near
only one is even. -/
theorem nearest_of_error {m : Nat} {t : ℚ} (h : |(m : ℚ) - t| ≤ 1 / 2)
    (heven : |(m : ℚ) - t| = 1 / 2 → m % 2 = 0) (k : ℤ) :
    |(m : ℚ) - t| ≤ |(k : ℚ) - t| ∧
      (|(k : ℚ) - t| = |(m : ℚ) - t| → k = m ∨ m % 2 = 0 ∧ k % 2 = 1) := by
  by_cases hk : k = m
  · subst hk
    exact ⟨le_refl _, fun _ => Or.inl rfl⟩
  · have hapart : (1 : ℚ) ≤ |(k : ℚ) - m| := by
      have hint : (1 : ℤ) ≤ |k - m| := Int.one_le_abs (sub_ne_zero.mpr hk)
      exact_mod_cast hint
    have htri : |(k : ℚ) - m| ≤ |(k : ℚ) - t| + |(m : ℚ) - t| := by
      have := abs_sub_le (k : ℚ) t m
      rwa [abs_sub_comm t] at this
    refine ⟨by linarith, fun heq => Or.inr ?_⟩
    have hhalf : |(m : ℚ) - t| = 1 / 2 := by linarith
    have hnext : |k - (m : ℤ)| = 1 := by
      have hle : |(k : ℚ) - m| ≤ 1 := by linarith
      have hint : |k - (m : ℤ)| ≤ 1 := by exact_mod_cast hle
      have hpos : (1 : ℤ) ≤ |k - m| := Int.one_le_abs (sub_ne_zero.mpr hk)
      omega
    have hm := heven hhalf
    refine ⟨hm, ?_⟩
    rcases abs_eq (by norm_num : (0 : ℤ) ≤ 1) |>.mp hnext with hup | hdown
    · omega
    · omega

/-! ## Powers of two -/

theorem scale_snd_pos {n d : Nat} (hd : 0 < d) (k : Int) : 0 < (scale n d k).2 := by
  unfold scale
  split
  · exact hd
  · exact Nat.mul_pos hd (Nat.pow_pos two_pos)

theorem natCast_pow_two (k : Nat) : ((Nat.pow 2 k : Nat) : ℚ) = 2 ^ k := by
  rw [Nat.pow_eq, Nat.cast_pow, Nat.cast_ofNat]

/-- A power of two in units of a smaller one. -/
theorem two_zpow_eq {low e : Int} (h : low ≤ e) :
    (2 : ℚ) ^ e = 2 ^ (e - low).toNat * 2 ^ low := by
  rw [← zpow_natCast, ← zpow_add₀ two_ne_zero]
  congr 1
  omega

theorem scale_eq (n d : Nat) (k : Int) :
    ((scale n d k).1 : ℚ) / (scale n d k).2 = n / d * 2 ^ k := by
  unfold scale
  split
  · next hk =>
    have hpow : (2 : ℚ) ^ k = 2 ^ k.toNat := by rw [← zpow_natCast, Int.toNat_of_nonneg hk]
    simp only [Nat.cast_mul, natCast_pow_two, hpow]
    ring
  · next hk =>
    have hpow : (2 : ℚ) ^ k = (2 ^ (-k).toNat)⁻¹ := by
      rw [← zpow_natCast, Int.toNat_of_nonneg (by omega), zpow_neg, inv_inv]
    simp only [Nat.cast_mul, natCast_pow_two, hpow]
    field_simp

/-- A quotient lies between two neighbouring powers of two. -/
theorem floorLog2_spec {n d : Nat} (hn : 0 < n) (hd : 0 < d) :
    (2 : ℚ) ^ floorLog2 n d ≤ n / d ∧ (n : ℚ) / d < 2 ^ (floorLog2 n d + 1) := by
  have hdpos : (0 : ℚ) < d := by exact_mod_cast hd
  have htwo : (2 : ℚ) ≠ 0 := two_ne_zero
  have hnlow : (2 : ℚ) ^ n.log2 ≤ n := by exact_mod_cast Nat.log2_self_le hn.ne'
  have hnhigh : (n : ℚ) < 2 ^ (n.log2 + 1) := by exact_mod_cast Nat.lt_log2_self
  have hdlow : (2 : ℚ) ^ d.log2 ≤ d := by exact_mod_cast Nat.log2_self_le hd.ne'
  have hdhigh : (d : ℚ) < 2 ^ (d.log2 + 1) := by exact_mod_cast Nat.lt_log2_self
  -- The two logarithms tell the power of two except for one unit.
  have hhigh : (n : ℚ) / d < 2 ^ ((n.log2 : ℤ) - d.log2 + 1) := by
    rw [div_lt_iff₀ hdpos]
    calc (n : ℚ) < 2 ^ (n.log2 + 1) := hnhigh
      _ = 2 ^ ((n.log2 : ℤ) - d.log2 + 1) * 2 ^ d.log2 := by
        rw [← zpow_natCast, ← zpow_natCast, ← zpow_add₀ htwo]
        congr 1
        push_cast
        ring
      _ ≤ 2 ^ ((n.log2 : ℤ) - d.log2 + 1) * d := by
        exact mul_le_mul_of_nonneg_left hdlow (zpow_nonneg zero_le_two _)
  have hlow : (2 : ℚ) ^ ((n.log2 : ℤ) - d.log2 - 1) < n / d := by
    rw [lt_div_iff₀ hdpos]
    calc (2 : ℚ) ^ ((n.log2 : ℤ) - d.log2 - 1) * d
        < 2 ^ ((n.log2 : ℤ) - d.log2 - 1) * 2 ^ (d.log2 + 1) :=
          mul_lt_mul_of_pos_left hdhigh (zpow_pos two_pos _)
      _ = 2 ^ n.log2 := by
        rw [← zpow_natCast, ← zpow_natCast, ← zpow_add₀ htwo]
        congr 1
        push_cast
        ring
      _ ≤ n := hnlow
  have hscale := scale_eq n d (-((n.log2 : ℤ) - d.log2))
  have hscalepos : (0 : ℚ) < (scale n d (-((n.log2 : ℤ) - d.log2))).2 := by
    exact_mod_cast scale_snd_pos hd _
  unfold floorLog2
  dsimp only
  split
  · next hless =>
    have hone : (n : ℚ) / d * 2 ^ (-((n.log2 : ℤ) - d.log2)) < 1 := by
      rw [← hscale, div_lt_one hscalepos]
      exact_mod_cast hless
    rw [zpow_neg, ← div_eq_mul_inv, div_lt_one (zpow_pos two_pos _)] at hone
    refine ⟨hlow.le, ?_⟩
    rwa [sub_add_cancel]
  · next hless =>
    have hone : 1 ≤ (n : ℚ) / d * 2 ^ (-((n.log2 : ℤ) - d.log2)) := by
      rw [← hscale, one_le_div hscalepos]
      exact_mod_cast Nat.le_of_not_lt hless
    rw [zpow_neg, ← div_eq_mul_inv, one_le_div (zpow_pos two_pos _)] at hone
    exact ⟨hone, hhigh⟩

/-! ## Comparison -/

namespace Floating

/-- Numbers are equal where their values are; both zeros have the value zero. -/
theorem beq_finite (s : Bool) (m : Nat) (e : Int) (s' : Bool) (m' : Nat) (e' : Int) :
    (finite s m e).beq (finite s' m' e') = true ↔
      (finite s m e).value = (finite s' m' e').value := by
  have hunit : (0 : ℚ) < 2 ^ min e e' := zpow_pos two_pos _
  have hm : (m : ℚ) * 2 ^ e = (align m e m' e').1 * 2 ^ min e e' := by
    rw [two_zpow_eq (min_le_left e e'), align, Nat.cast_mul, natCast_pow_two, mul_assoc]
  have hm' : (m' : ℚ) * 2 ^ e' = (align m e m' e').2 * 2 ^ min e e' := by
    rw [two_zpow_eq (min_le_right e e'), align, Nat.cast_mul, natCast_pow_two, mul_assoc]
  rw [value, value, hm, hm', beq]
  generalize align m e m' e' = ab
  obtain ⟨a, b⟩ := ab
  dsimp only
  have hsame : (a : ℚ) * 2 ^ min e e' = b * 2 ^ min e e' ↔ a = b := by
    rw [mul_left_inj' hunit.ne', Nat.cast_inj]
  have hzero : (a : ℚ) * 2 ^ min e e' = -(b * 2 ^ min e e') ↔ a = b ∧ a = 0 := by
    rw [← neg_mul, mul_left_inj' hunit.ne']
    constructor
    · intro h
      have ha : (0 : ℚ) ≤ a := Nat.cast_nonneg a
      have hb : (0 : ℚ) ≤ b := Nat.cast_nonneg b
      have hasq : (a : ℚ) = 0 := by linarith
      have hbsq : (b : ℚ) = 0 := by linarith
      rw [Nat.cast_eq_zero] at hasq hbsq
      exact ⟨hasq.trans hbsq.symm, hasq⟩
    · rintro ⟨rfl, rfl⟩
      simp
  simp only [Bool.and_eq_true, Bool.or_eq_true, beq_iff_eq]
  cases s with
  | false =>
    cases s' with
    | false => simp [withSign, hsame]
    | true => simpa [withSign] using hzero.symm
  | true =>
    cases s' with
    | false =>
      have hswap : -((a : ℚ) * 2 ^ min e e') = b * 2 ^ min e e' ↔ a = b ∧ a = 0 := by
        rw [← hzero, neg_eq_iff_eq_neg]
      simpa [withSign] using hswap.symm
    | true => simp [withSign, hsame]

theorem isZero_finite (s : Bool) (m : Nat) (e : Int) :
    (finite s m e).isZero = true ↔ (finite s m e).value = 0 := by
  have hunit : (2 : ℚ) ^ e ≠ 0 := (zpow_pos two_pos e).ne'
  cases s with
  | false => simp [isZero, value, withSign, hunit]
  | true => simp [isZero, value, withSign, hunit]

end Floating

/-! ## The grid of a fraction -/

/-- Formats with at least two bits and some exponent. -/
structure Format.Valid (f : Format) : Prop where
  precision : 2 ≤ f.precision
  exponents : f.least ≤ f.greatest

theorem single_valid : single.Valid := ⟨by decide, by decide⟩

theorem double_valid : double.Valid := ⟨by decide, by decide⟩

namespace Format

/-- The exponent of the numbers around a fraction. -/
def gridExponent (f : Format) (n d : Nat) : Int :=
  max f.least (floorLog2 n d - (f.precision - 1 : Nat))

/-- The fraction in units of its grid, rounded to an integer. -/
def gridMantissa (f : Format) (n d : Nat) : Nat :=
  divHalfEven (scale n d (-f.gridExponent n d)).1 (scale n d (-f.gridExponent n d)).2

/-- A mantissa that rounding has made too large is halved. -/
theorem round_of_ne_zero (f : Format) (s : Bool) {n : Nat} (hn : n ≠ 0) (d : Nat) :
    f.round s n d =
      if f.gridMantissa n d = 2 ^ f.precision then
        if f.greatest < f.gridExponent n d + 1 then .infinite s
        else .finite s (2 ^ (f.precision - 1)) (f.gridExponent n d + 1)
      else if f.greatest < f.gridExponent n d then .infinite s
      else .finite s (f.gridMantissa n d) (f.gridExponent n d) := by
  rw [round, if_neg hn]
  show (let r := if f.gridMantissa n d = Nat.pow 2 f.precision then
      (Nat.pow 2 (f.precision - 1), f.gridExponent n d + 1)
      else (f.gridMantissa n d, f.gridExponent n d)
    if f.greatest < r.2 then Floating.infinite s else Floating.finite s r.1 r.2) = _
  rw [Nat.pow_eq, Nat.pow_eq]
  by_cases hm : f.gridMantissa n d = 2 ^ f.precision
  · simp only [hm, if_true]
  · simp only [hm, if_false]

variable {f : Format} {n d : Nat}

/-- A mantissa of the grid is off by at most half a unit. -/
theorem gridMantissa_error (f : Format) (n : Nat) (hd : 0 < d) :
    |(f.gridMantissa n d : ℚ) - n / d / 2 ^ f.gridExponent n d| ≤ 1 / 2 ∧
      (|(f.gridMantissa n d : ℚ) - n / d / 2 ^ f.gridExponent n d| = 1 / 2 →
        f.gridMantissa n d % 2 = 0) := by
  have hunits : (n : ℚ) / d / 2 ^ f.gridExponent n d =
      ((scale n d (-f.gridExponent n d)).1 : ℚ) / (scale n d (-f.gridExponent n d)).2 := by
    rw [scale_eq, zpow_neg, div_eq_mul_inv]
  rw [hunits]
  exact divHalfEven_error (scale_snd_pos hd _)

/-- In units of its grid a fraction has at most as many bits as the precision. -/
theorem units_lt (f : Format) (hf : f.Valid) (hn : 0 < n) (hd : 0 < d) :
    (n : ℚ) / d / 2 ^ f.gridExponent n d < 2 ^ f.precision := by
  have hp := hf.precision
  rw [div_lt_iff₀ (zpow_pos two_pos _), ← zpow_natCast, ← zpow_add₀ two_ne_zero]
  refine (floorLog2_spec hn hd).2.trans_le (zpow_le_zpow_right₀ one_le_two ?_)
  have hgrid : floorLog2 n d - (f.precision - 1 : Nat) ≤ f.gridExponent n d := le_max_right _ _
  omega

/-- Above the least exponent it has no fewer. -/
theorem le_units (hf : f.Valid) (hn : 0 < n) (hd : 0 < d) (hleast : f.least < f.gridExponent n d) :
    (2 : ℚ) ^ (f.precision - 1) ≤ n / d / 2 ^ f.gridExponent n d := by
  have hp := hf.precision
  rw [le_div_iff₀ (zpow_pos two_pos _), ← zpow_natCast, ← zpow_add₀ two_ne_zero]
  refine (zpow_le_zpow_right₀ one_le_two ?_).trans (floorLog2_spec hn hd).1
  have hgrid : f.gridExponent n d = floorLog2 n d - (f.precision - 1 : Nat) := by
    unfold gridExponent at hleast ⊢
    omega
  omega

theorem gridMantissa_le (hf : f.Valid) (hn : 0 < n) (hd : 0 < d) :
    f.gridMantissa n d ≤ 2 ^ f.precision := by
  have herror := abs_le.mp (gridMantissa_error f n hd).1
  have hunits := units_lt f hf hn hd
  have hlt : (f.gridMantissa n d : ℚ) < 2 ^ f.precision + 1 := by linarith [herror.2]
  have hnat : f.gridMantissa n d < 2 ^ f.precision + 1 := by exact_mod_cast hlt
  omega

theorem le_gridMantissa (hf : f.Valid) (hn : 0 < n) (hd : 0 < d)
    (hleast : f.least < f.gridExponent n d) : 2 ^ (f.precision - 1) ≤ f.gridMantissa n d := by
  have herror := abs_le.mp (gridMantissa_error f n hd).1
  have hunits := le_units hf hn hd hleast
  have hlt : (2 : ℚ) ^ (f.precision - 1) < f.gridMantissa n d + 1 := by linarith [herror.1]
  have hnat : 2 ^ (f.precision - 1) < f.gridMantissa n d + 1 := by exact_mod_cast hlt
  omega

/-! ## Nearest numbers -/

/-- The finite numbers of a format, in their one spelling. -/
def Has (f : Format) (x : Floating) : Prop := f.Normal x ∧ ∃ s m e, x = .finite s m e

/-- What lies half a step behind the greatest number, or farther, is not rounded to a number. -/
def overflow (f : Format) : ℚ := (2 ^ f.precision - 1 / 2) * 2 ^ f.greatest

/-- The rational number `q` is rounded to `x`: no number of the format is nearer to it, and if
another one is as near then the mantissa of `x` is even. -/
structure Rounds (f : Format) (q : ℚ) (x : Floating) : Prop where
  has : f.Has x
  inRange : |q| < f.overflow
  nearest : ∀ y, f.Has y → |x.value - q| ≤ |y.value - q|
  even : ∀ y, f.Has y → y.value ≠ x.value → |y.value - q| = |x.value - q| → x.mantissa % 2 = 0

/-- No number with so few bits is nearer, in whatever spelling, and only one with an odd mantissa
may be as near. -/
def Nearest (f : Format) (q : ℚ) (x : Floating) : Prop :=
  ∀ s m e, m < 2 ^ f.precision → f.least ≤ e →
    |x.value - q| ≤ |(Floating.finite s m e).value - q| ∧
      (|(Floating.finite s m e).value - q| = |x.value - q| →
        (Floating.finite s m e).value = x.value ∨ x.mantissa % 2 = 0 ∧ m % 2 = 1)

/-- On the grid of a fraction the rounded one is nearest, and numbers below the grid are farther
away. -/
theorem grid_nearest (hf : f.Valid) (hn : 0 < n) (hd : 0 < d) (s : Bool) {m : Nat} {e : Int}
    (hm : m < 2 ^ f.precision) (he : f.least ≤ e) :
    |(f.gridMantissa n d : ℚ) * 2 ^ f.gridExponent n d - n / d| ≤
        |withSign s (m * 2 ^ e) - n / d| ∧
      (|withSign s (m * 2 ^ e) - n / d| =
          |(f.gridMantissa n d : ℚ) * 2 ^ f.gridExponent n d - n / d| →
        withSign s (m * 2 ^ e) = f.gridMantissa n d * 2 ^ f.gridExponent n d ∨
          f.gridMantissa n d % 2 = 0 ∧ m % 2 = 1) := by
  have hunit : (0 : ℚ) < 2 ^ f.gridExponent n d := zpow_pos two_pos _
  have hscaled (a : ℚ) : |a * 2 ^ f.gridExponent n d - n / d| =
      |a - n / d / 2 ^ f.gridExponent n d| * 2 ^ f.gridExponent n d := by
    rw [← abs_of_pos hunit, ← abs_mul, abs_of_pos hunit, sub_mul, div_mul_cancel₀ _ hunit.ne']
  obtain ⟨herror, heven⟩ := gridMantissa_error f n hd
  have hnearest := nearest_of_error herror heven
  by_cases hgrid : f.gridExponent n d ≤ e
  · -- A number of the grid is an integer in its units.
    have hint : ∃ k : ℤ, withSign s (m * 2 ^ e) = k * 2 ^ f.gridExponent n d ∧
        (k % 2 = 1 → m % 2 = 1) := by
      have hshift := two_zpow_eq hgrid
      have hodd (a : Int) (h : a * 2 ^ (e - f.gridExponent n d).toNat % 2 = 1) : a % 2 = 1 := by
        rcases Int.emod_two_eq_zero_or_one a with hzero | hone
        · rw [Int.mul_emod, hzero, Int.zero_mul, Int.zero_emod] at h
          contradiction
        · exact hone
      cases s with
      | false =>
        refine ⟨m * 2 ^ (e - f.gridExponent n d).toNat, ?_, fun h => ?_⟩
        · rw [withSign, if_neg (by decide), hshift]
          push_cast
          ring
        · have := hodd m h
          omega
      | true =>
        refine ⟨-m * 2 ^ (e - f.gridExponent n d).toNat, ?_, fun h => ?_⟩
        · rw [withSign, if_pos rfl, hshift]
          push_cast
          ring
        · have := hodd (-m) h
          omega
    obtain ⟨k, hk, hparity⟩ := hint
    obtain ⟨hle, heq⟩ := hnearest k
    rw [hk, hscaled, hscaled]
    refine ⟨mul_le_mul_of_nonneg_right hle hunit.le, fun h => ?_⟩
    rcases heq (mul_right_cancel₀ hunit.ne' h) with rfl | ⟨hm, hodd⟩
    · exact Or.inl (by push_cast; rfl)
    · exact Or.inr ⟨hm, hparity hodd⟩
  · -- A number below the grid is less than the power of two at or below the fraction.
    have hp := hf.precision
    have hbase := le_units hf hn hd (by omega)
    have hsmall : withSign s (m * 2 ^ e) < 2 ^ (f.precision - 1) * 2 ^ f.gridExponent n d := by
      have habs : withSign s (m * 2 ^ e) ≤ m * 2 ^ e := by
        have hnonneg : (0 : ℚ) ≤ m * 2 ^ e :=
          mul_nonneg (Nat.cast_nonneg m) (zpow_nonneg zero_le_two _)
        cases s with
        | false => exact le_refl _
        | true =>
          rw [withSign, if_pos rfl]
          linarith
      have hbits : (m : ℚ) * 2 ^ e < 2 ^ f.precision * 2 ^ e := by
        refine mul_lt_mul_of_pos_right ?_ (zpow_pos two_pos _)
        exact_mod_cast hm
      have hpow : (2 : ℚ) ^ f.precision * 2 ^ e ≤
          2 ^ (f.precision - 1) * 2 ^ f.gridExponent n d := by
        rw [← zpow_natCast, ← zpow_natCast, ← zpow_add₀ two_ne_zero, ← zpow_add₀ two_ne_zero]
        exact zpow_le_zpow_right₀ one_le_two (by omega)
      linarith
    have hbelow : (2 : ℚ) ^ (f.precision - 1) * 2 ^ f.gridExponent n d ≤ n / d := by
      rwa [← le_div_iff₀ hunit]
    have hcorner := (hnearest (2 ^ (f.precision - 1))).1
    have hfar : |(f.gridMantissa n d : ℚ) * 2 ^ f.gridExponent n d - n / d| <
        |withSign s (m * 2 ^ e) - n / d| := by
      calc |(f.gridMantissa n d : ℚ) * 2 ^ f.gridExponent n d - n / d|
          ≤ |(2 : ℚ) ^ (f.precision - 1) * 2 ^ f.gridExponent n d - n / d| := by
            rw [hscaled, hscaled]
            refine mul_le_mul_of_nonneg_right ?_ hunit.le
            exact_mod_cast hcorner
        _ = n / d - 2 ^ (f.precision - 1) * 2 ^ f.gridExponent n d := by
            rw [abs_sub_comm, abs_of_nonneg (by linarith)]
        _ < n / d - withSign s (m * 2 ^ e) := by linarith
        _ = |withSign s (m * 2 ^ e) - n / d| := by
            rw [abs_sub_comm, abs_of_pos (by linarith)]
    exact ⟨hfar.le, fun h => absurd h hfar.ne'⟩

/-- Below the overflow the grid is one of the format. -/
theorem gridExponent_le_greatest (hf : f.Valid) (hn : 0 < n) (hd : 0 < d)
    (hq : (n : ℚ) / d < f.overflow) : f.gridExponent n d ≤ f.greatest := by
  have hp := hf.precision
  have hbound : (n : ℚ) / d < 2 ^ f.precision * 2 ^ f.greatest := by
    refine hq.trans_le (mul_le_mul_of_nonneg_right ?_ (zpow_nonneg zero_le_two _))
    linarith
  by_contra hlt
  have hbase := le_units hf hn hd (lt_of_le_of_lt hf.exponents (not_le.mp hlt))
  rw [le_div_iff₀ (zpow_pos two_pos _)] at hbase
  have hpow : (2 : ℚ) ^ f.precision * 2 ^ f.greatest ≤
      2 ^ (f.precision - 1) * 2 ^ f.gridExponent n d := by
    rw [← zpow_natCast, ← zpow_natCast, ← zpow_add₀ two_ne_zero, ← zpow_add₀ two_ne_zero]
    exact zpow_le_zpow_right₀ one_le_two (by omega)
  linarith

/-- On the last grid the mantissa is not rounded up to one bit more. -/
theorem gridMantissa_lt (hd : 0 < d) (hq : (n : ℚ) / d < f.overflow)
    (hlast : f.gridExponent n d = f.greatest) : f.gridMantissa n d < 2 ^ f.precision := by
  have herror := abs_le.mp (gridMantissa_error f n hd).1
  have hunits : (n : ℚ) / d / 2 ^ f.gridExponent n d < 2 ^ f.precision - 1 / 2 := by
    rwa [hlast, div_lt_iff₀ (zpow_pos two_pos _)]
  have hlt : (f.gridMantissa n d : ℚ) < 2 ^ f.precision := by linarith [herror.2]
  exact_mod_cast hlt

/-- A spelling of the rounded grid mantissa, with a sign, is nearest to the fraction with that
sign. -/
theorem nearest_of_grid (hf : f.Valid) (hn : 0 < n) (hd : 0 < d) (s : Bool) {m : Nat} {e : Int}
    (hvalue : (m : ℚ) * 2 ^ e = f.gridMantissa n d * 2 ^ f.gridExponent n d)
    (heven : f.gridMantissa n d % 2 = 0 → m % 2 = 0) :
    f.Nearest (withSign s (n / d)) (.finite s m e) := by
  intro s' m' e' hm' he'
  have hgrid := grid_nearest hf hn hd (s != s') hm' he'
  rw [← hvalue] at hgrid
  have hflip : |(Floating.finite s' m' e').value - withSign s (n / d)| =
      |withSign (s != s') (m' * 2 ^ e') - n / d| := by
    rw [abs_sub_withSign, Floating.value, withSign_withSign]
  rw [hflip, Floating.value, abs_withSign_sub]
  refine ⟨hgrid.1, fun h => ?_⟩
  rcases hgrid.2 h with heq | ⟨hm, hodd⟩
  · have hback := congrArg (withSign s) heq
    rw [withSign_withSign, ← Bool.bne_assoc, bne_self_eq_false, Bool.false_bne] at hback
    exact Or.inl hback
  · exact Or.inr ⟨heven hm, hodd⟩

/-- What is less than half of the least positive number is rounded to zero. -/
theorem round_of_small (hf : f.Valid) (s : Bool) (n : Nat) (hd : 0 < d)
    (hq : (n : ℚ) / d < 2 ^ (f.least - 1)) : f.round s n d = .finite s 0 f.least := by
  rcases Nat.eq_zero_or_pos n with rfl | hn
  · rw [round, if_pos rfl]
  · have hgrid : f.gridExponent n d = f.least := by
      have hlog : floorLog2 n d < f.least - 1 :=
        (zpow_lt_zpow_iff_right₀ one_lt_two).mp ((floorLog2_spec hn hd).1.trans_lt hq)
      unfold gridExponent
      omega
    have hzero : f.gridMantissa n d = 0 := by
      have herror := abs_le.mp (gridMantissa_error f n hd).1
      have hunits : (n : ℚ) / d / 2 ^ f.gridExponent n d < 1 / 2 := by
        rw [hgrid, div_lt_iff₀ (zpow_pos two_pos _)]
        rwa [zpow_sub_one₀ two_ne_zero, mul_comm, ← one_div] at hq
      have hlt : (f.gridMantissa n d : ℚ) < 1 := by linarith [herror.2]
      have hnat : f.gridMantissa n d < 1 := by exact_mod_cast hlt
      omega
    have hfull : 0 ≠ 2 ^ f.precision := (Nat.pow_pos two_pos).ne
    rw [round_of_ne_zero f s hn.ne', hzero, hgrid, if_neg hfull,
      if_neg (not_lt.mpr hf.exponents)]

/-- Zero stands for itself. -/
theorem round_zero_spec (hf : f.Valid) (s : Bool) (d : Nat) :
    f.Has (f.round s 0 d) ∧ f.Nearest (withSign s (((0 : Nat) : ℚ) / d)) (f.round s 0 d) := by
  have hround : f.round s 0 d = .finite s 0 f.least := by rw [round, if_pos rfl]
  have hvalue : (Floating.finite s 0 f.least).value = 0 := by
    cases s <;> simp [Floating.value, withSign]
  have hfraction : withSign s (((0 : Nat) : ℚ) / d) = 0 := by cases s <;> simp [withSign]
  rw [hround]
  refine ⟨⟨⟨Nat.pow_pos two_pos, le_refl _, hf.exponents, Or.inr rfl⟩, s, 0, f.least, rfl⟩, ?_⟩
  intro s' m e _ _
  rw [hvalue, hfraction, sub_zero, abs_zero, sub_zero]
  exact ⟨abs_nonneg _, fun h => Or.inl (abs_eq_zero.mp h)⟩

/-- Below the overflow the rounded fraction is a number of the format, and the nearest one. -/
theorem round_spec (hf : f.Valid) (s : Bool) (n : Nat) (hd : 0 < d)
    (hq : (n : ℚ) / d < f.overflow) :
    f.Has (f.round s n d) ∧ f.Nearest (withSign s (n / d)) (f.round s n d) := by
  rcases Nat.eq_zero_or_pos n with rfl | hn
  · exact round_zero_spec hf s d
  · have hp := hf.precision
    have hle := gridMantissa_le hf hn hd
    have hleast : f.least ≤ f.gridExponent n d := le_max_left _ _
    have hgreatest := gridExponent_le_greatest hf hn hd hq
    have hhalf : 2 ^ f.precision = 2 * 2 ^ (f.precision - 1) := by
      rw [← Nat.pow_succ', Nat.succ_eq_add_one, Nat.sub_add_cancel (by omega)]
    have hquarter : 2 ^ (f.precision - 1) = 2 * 2 ^ (f.precision - 2) := by
      rw [← Nat.pow_succ', Nat.succ_eq_add_one]
      congr 1
      omega
    have hpos : 0 < 2 ^ (f.precision - 1) := Nat.pow_pos two_pos
    rw [round_of_ne_zero f s hn.ne']
    by_cases hfull : f.gridMantissa n d = 2 ^ f.precision
    · have hroom : ¬ f.greatest < f.gridExponent n d + 1 := by
        intro hlt
        have hlast := gridMantissa_lt hd hq (by omega)
        omega
      rw [if_pos hfull, if_neg hroom]
      refine ⟨⟨⟨?_, ?_, ?_, Or.inl (le_refl _)⟩, s, _, _, rfl⟩, nearest_of_grid hf hn hd s ?_ ?_⟩
      · show 2 ^ (f.precision - 1) < 2 ^ f.precision
        omega
      · omega
      · omega
      · rw [hfull, hhalf, zpow_add₀ two_ne_zero]
        push_cast
        ring
      · omega
    · have hroom : ¬ f.greatest < f.gridExponent n d := by omega
      rw [if_neg hfull, if_neg hroom]
      refine ⟨⟨⟨?_, hleast, hgreatest, ?_⟩, s, _, _, rfl⟩, nearest_of_grid hf hn hd s rfl id⟩
      · show f.gridMantissa n d < 2 ^ f.precision
        omega
      · by_cases he : f.gridExponent n d = f.least
        · exact Or.inr he
        · exact Or.inl (le_gridMantissa hf hn hd (by omega))

/-! ## The number that is rounded to -/

variable {q : ℚ} {x y : Floating}

theorem Nearest.rounds (h : f.Nearest q x) (hx : f.Has x) (hq : |q| < f.overflow) :
    f.Rounds q x where
  has := hx
  inRange := hq
  nearest y hy := by
    obtain ⟨hnormal, s, m, e, rfl⟩ := hy
    exact (h s m e hnormal.1 hnormal.2.1).1
  even y hy hne heq := by
    obtain ⟨hnormal, s, m, e, rfl⟩ := hy
    exact (((h s m e hnormal.1 hnormal.2.1).2 heq).resolve_left hne).1

/-- Rounding a fraction gives what it is rounded to. -/
theorem round_rounds (hf : f.Valid) (s : Bool) (n : Nat) (hd : 0 < d)
    (hq : (n : ℚ) / d < f.overflow) : f.Rounds (withSign s (n / d)) (f.round s n d) := by
  obtain ⟨hhas, hnearest⟩ := round_spec hf s n hd hq
  refine hnearest.rounds hhas ?_
  rwa [abs_withSign, abs_of_nonneg (by positivity)]

/-- A nearest number has the value of the number that is rounded to. -/
theorem Rounds.value_eq_of_nearest (hx : f.Rounds q x) (hy : f.Has y) (h : f.Nearest q y) :
    x.value = y.value := by
  obtain ⟨hnormal, s, m, e, rfl⟩ := hx.has
  obtain ⟨hle, htie⟩ := h s m e hnormal.1 hnormal.2.1
  have heq := le_antisymm (hx.nearest y hy) hle
  rcases htie heq with hvalue | ⟨-, hodd⟩
  · exact hvalue
  · by_contra hne
    have heven : m % 2 = 0 := hx.even y hy (Ne.symm hne) heq.symm
    omega

/-- Every rational number is a fraction with a sign. -/
theorem exists_fraction (q : ℚ) :
    ∃ (s : Bool) (n d : Nat), 0 < d ∧ q = withSign s ((n : ℚ) / d) := by
  refine ⟨decide (q < 0), q.num.natAbs, q.den, q.den_pos, ?_⟩
  have habs : ((q.num.natAbs : ℕ) : ℚ) / q.den = |q| := by
    rw [Nat.cast_natAbs, Int.cast_abs]
    conv => rhs; rw [← Rat.num_div_den q]
    rw [abs_div, Nat.abs_cast]
  rw [habs]
  by_cases hq : q < 0
  · rw [decide_eq_true hq, withSign, if_pos rfl, abs_of_neg hq, neg_neg]
  · rw [decide_eq_false hq, withSign, if_neg (by decide), abs_of_nonneg (not_lt.mp hq)]

/-- All numbers that are rounded to have the same value. -/
theorem Rounds.value_eq (hf : f.Valid) (hx : f.Rounds q x) (hy : f.Rounds q y) :
    x.value = y.value := by
  obtain ⟨s, n, d, hd, rfl⟩ := exists_fraction q
  have hq := hx.inRange
  rw [abs_withSign, abs_of_nonneg (by positivity)] at hq
  obtain ⟨hhas, hnearest⟩ := round_spec hf s n hd hq
  exact (hx.value_eq_of_nearest hhas hnearest).trans (hy.value_eq_of_nearest hhas hnearest).symm

end Format

/-! ## Numbers of another format -/

theorem Format.Has.beq_iff {f g : Format} {x y : Floating} (hx : f.Has x) (hy : g.Has y) :
    x.beq y = true ↔ x.value = y.value := by
  obtain ⟨-, s, m, e, rfl⟩ := hx
  obtain ⟨-, s', m', e', rfl⟩ := hy
  exact Floating.beq_finite s m e s' m' e'

theorem Format.Has.isZero_iff {f : Format} {x : Floating} (hx : f.Has x) :
    x.isZero = true ↔ x.value = 0 := by
  obtain ⟨-, s, m, e, rfl⟩ := hx
  exact Floating.isZero_finite s m e

/-- The sign in front of a rounded fraction is the sign in front of the number. -/
theorem Format.round_negate (f : Format) (s : Bool) (n d : Nat) :
    f.round (!s) n d = (f.round s n d).negate := by
  by_cases hn : n = 0
  · rw [round, round, if_pos hn, if_pos hn]
    rfl
  · rw [round_of_ne_zero f s hn, round_of_ne_zero f (!s) hn, apply_ite Floating.negate,
      apply_ite Floating.negate, apply_ite Floating.negate]
    rfl

theorem Floating.beq_negate (x y : Floating) : x.negate.beq y.negate = x.beq y := by
  have hsign (s s' : Bool) : ((!s) == (!s')) = (s == s') := by
    cases s with
    | false => cases s' <;> rfl
    | true => cases s' <;> rfl
  match x, y with
  | .infinite s, .infinite s' => exact hsign s s'
  | .finite s m e, .finite s' m' e' =>
    show (_ && (((!s) == (!s')) || _)) = _
    rw [hsign]
    rfl
  | .nan, _ => rfl
  | .infinite _, .nan => rfl
  | .infinite _, .finite _ _ _ => rfl
  | .finite _ _ _, .nan => rfl
  | .finite _ _ _, .infinite _ => rfl

/-- No number of the format is as large as what is rounded to no number. -/
theorem Format.Has.lt_overflow {f : Format} {x : Floating} (hx : f.Has x) :
    |x.value| < f.overflow := by
  obtain ⟨hnormal, s, m, e, rfl⟩ := hx
  obtain ⟨hm, -, hgreatest, -⟩ := hnormal
  have hbits : (m : ℚ) ≤ 2 ^ f.precision - 1 := by
    have hlt : m + 1 ≤ 2 ^ f.precision := hm
    have hcast : (m : ℚ) + 1 ≤ 2 ^ f.precision := by exact_mod_cast hlt
    linarith
  rw [Floating.value, abs_withSign, abs_of_nonneg (by positivity)]
  calc (m : ℚ) * 2 ^ e ≤ m * 2 ^ f.greatest :=
        mul_le_mul_of_nonneg_left (zpow_le_zpow_right₀ one_le_two hgreatest) (Nat.cast_nonneg m)
    _ ≤ (2 ^ f.precision - 1) * 2 ^ f.greatest :=
        mul_le_mul_of_nonneg_right hbits (zpow_nonneg zero_le_two _)
    _ < f.overflow := mul_lt_mul_of_pos_right (by linarith) (zpow_pos two_pos _)

/-- A number of the format is rounded to itself. -/
theorem Format.Has.rounds {f : Format} {x : Floating} (hx : f.Has x) : f.Rounds x.value x where
  has := hx
  inRange := hx.lt_overflow
  nearest y _ := by
    rw [sub_self, abs_zero]
    exact abs_nonneg _
  even y _ hne heq := by
    rw [sub_self, abs_zero, abs_eq_zero, sub_eq_zero] at heq
    exact absurd heq hne

theorem Format.overflow_le {f g : Format} (hprecision : f.precision ≤ g.precision)
    (hgreatest : f.greatest ≤ g.greatest) : f.overflow ≤ g.overflow := by
  have hone : (1 : ℚ) ≤ 2 ^ g.precision := one_le_pow₀ one_le_two
  have hpow : (2 : ℚ) ^ f.precision ≤ 2 ^ g.precision := pow_le_pow_right₀ one_le_two hprecision
  exact mul_le_mul (by linarith) (zpow_le_zpow_right₀ one_le_two hgreatest)
    (zpow_nonneg zero_le_two _) (by linarith)

/-- A number is not changed by the conversion to a format with more bits and exponents. -/
theorem value_convert {f g : Format} (hg : g.Valid) {x : Floating} (hx : f.Has x)
    (hprecision : f.precision ≤ g.precision) (hleast : g.least ≤ f.least)
    (hgreatest : f.greatest ≤ g.greatest) :
    g.Has (x.convert g) ∧ (x.convert g).value = x.value := by
  have hrange := hx.lt_overflow
  have hoverflow := Format.overflow_le hprecision hgreatest
  obtain ⟨hnormal, s, m, e, rfl⟩ := hx
  obtain ⟨hm, hlow, -, -⟩ := hnormal
  have hscale := scale_eq m 1 e
  rw [Nat.cast_one, div_one] at hscale
  have hvalue : withSign s (((scale m 1 e).1 : ℚ) / (scale m 1 e).2) =
      (Floating.finite s m e).value := by
    rw [hscale, Floating.value]
  have hq : ((scale m 1 e).1 : ℚ) / (scale m 1 e).2 < g.overflow := by
    rw [← hvalue, abs_withSign, abs_of_nonneg (by positivity)] at hrange
    exact hrange.trans_le hoverflow
  obtain ⟨hhas, hnearest⟩ := Format.round_spec hg s (scale m 1 e).1 (scale_snd_pos one_pos e) hq
  refine ⟨hhas, ?_⟩
  have hbits : m < 2 ^ g.precision := by
    refine lt_of_lt_of_le ?_ (Nat.pow_le_pow_right two_pos hprecision)
    exact hm
  have hle := (hnearest s m e hbits (hleast.trans hlow)).1
  rw [hvalue, sub_self, abs_zero] at hle
  exact sub_eq_zero.mp (abs_eq_zero.mp (le_antisymm hle (abs_nonneg _)))

end Attest.Number
