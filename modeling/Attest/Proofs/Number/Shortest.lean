/-
  Shortest decimals. Every decimal in the rounding interval of a number is rounded to it
  (`Format.Within.rounds`), the search for the shortest one stays inside that interval, and for a
  double it ends within its 18 grids, the last of them finer than a quarter of the distance to the
  next double. Main statement (`toFloating_shortest`): the shortest decimal of a double, in
  whatever spelling, is read as that double.
-/
import Attest.Number.Shortest
import Attest.Proofs.Number.Decimal

namespace Attest.Number

namespace Format

variable {f : Format} {s s' : Bool} {m m' : Nat} {e e' : Int} {q : ℚ}

/-! ## One spelling -/

theorem two_pow_precision (hf : f.Valid) : 2 ^ f.precision = 2 * 2 ^ (f.precision - 1) := by
  have hp := hf.precision
  rw [← Nat.pow_succ', Nat.succ_eq_add_one, Nat.sub_add_cancel (by omega)]

/-- A number with a larger exponent than another one has more bits than there are. -/
theorem Normal.exponent_le (hf : f.Valid) (h : f.Normal (.finite s m e))
    (h' : f.Normal (.finite s' m' e')) (hvalue : (m : ℚ) * 2 ^ e = m' * 2 ^ e') : e' ≤ e := by
  by_contra hlt
  obtain ⟨hbits, hleast, -, -⟩ := h
  obtain ⟨-, -, -, hfull⟩ := h'
  replace hfull : 2 ^ (f.precision - 1) ≤ m' := hfull.resolve_right (by omega)
  have hle : e ≤ e' := by omega
  have hshift : m = m' * 2 ^ (e' - e).toNat := by
    rw [two_zpow_eq hle, ← mul_assoc] at hvalue
    exact_mod_cast mul_right_cancel₀ (zpow_pos two_pos e).ne' hvalue
  have htwo : 2 ≤ 2 ^ (e' - e).toNat := by
    calc 2 = 2 ^ 1 := rfl
      _ ≤ 2 ^ (e' - e).toNat := Nat.pow_le_pow_right two_pos (by omega)
  have hlarge : 2 ^ (f.precision - 1) * 2 ≤ m := hshift ▸ Nat.mul_le_mul hfull htwo
  have hhalf := two_pow_precision hf
  have hsmall : m < 2 ^ f.precision := hbits
  omega

/-- A magnitude has one spelling in a format. -/
theorem Normal.eq_of_magnitude (hf : f.Valid) (h : f.Normal (.finite s m e))
    (h' : f.Normal (.finite s' m' e')) (hvalue : (m : ℚ) * 2 ^ e = m' * 2 ^ e') :
    m = m' ∧ e = e' := by
  obtain rfl : e = e' := le_antisymm (h'.exponent_le hf h hvalue.symm) (h.exponent_le hf h' hvalue)
  exact ⟨by exact_mod_cast mul_right_cancel₀ (zpow_pos two_pos e).ne' hvalue, rfl⟩

/-! ## The interval of a number -/

/-- How far the next number below is, in units of the last bit. -/
def stepBelow (f : Format) (m : Nat) (e : Int) : ℚ :=
  if m = Nat.pow 2 (f.precision - 1) ∧ f.least < e then 1 / 2 else 1

theorem stepBelow_bounds (f : Format) (m : Nat) (e : Int) :
    1 / 2 ≤ f.stepBelow m e ∧ f.stepBelow m e ≤ 1 := by
  unfold stepBelow
  split <;> norm_num

/-- Halfway to the next numbers or nearer, and not halfway if the mantissa is odd. -/
structure Within (f : Format) (m : Nat) (e : Int) (q : ℚ) : Prop where
  low : (m - f.stepBelow m e / 2) * 2 ^ e ≤ q
  high : q ≤ (m + 1 / 2) * 2 ^ e
  inside : m % 2 = 1 → (m - f.stepBelow m e / 2) * 2 ^ e < q ∧ q < (m + 1 / 2) * 2 ^ e

/-- Every other number of the format is at least a step away. -/
theorem step_le (hf : f.Valid) (hx : f.Normal (.finite s m e)) (hm : 0 < m) {y : Floating}
    (hy : f.Has y) (hne : y.value ≠ m * 2 ^ e) :
    (m + 1) * 2 ^ e ≤ y.value ∨ y.value ≤ (m - f.stepBelow m e) * 2 ^ e := by
  obtain ⟨⟨-, hleast, -, hfull⟩, hnormal, s', m', e', rfl⟩ := And.intro hx hy
  obtain ⟨hbits', hleast', -, -⟩ := hnormal
  have hunit : (0 : ℚ) < 2 ^ e := zpow_pos two_pos e
  have hone : (1 : ℚ) ≤ m := by exact_mod_cast hm
  have hbelow := (f.stepBelow_bounds m e).2
  rw [Floating.value] at hne ⊢
  cases s' with
  | true =>
    -- A negative number lies below the number under a positive one, which is not negative.
    right
    have hnonneg : (0 : ℚ) ≤ (m - f.stepBelow m e) * 2 ^ e :=
      mul_nonneg (by linarith) hunit.le
    have hpos : (0 : ℚ) ≤ m' * 2 ^ e' := mul_nonneg (Nat.cast_nonneg m') (zpow_pos two_pos e').le
    rw [withSign, if_pos rfl]
    linarith
  | false =>
    rw [withSign, if_neg (by decide)] at hne ⊢
    by_cases hgrid : e ≤ e'
    · -- On the grid of the number the others are a whole unit away.
      have hshift : (m' : ℚ) * 2 ^ e' = (m' * 2 ^ (e' - e).toNat : Nat) * 2 ^ e := by
        rw [two_zpow_eq hgrid]
        push_cast
        ring
      rw [hshift] at hne ⊢
      rcases Nat.lt_trichotomy (m' * 2 ^ (e' - e).toNat) m with hlt | heq | hgt
      · right
        have hcast : ((m' * 2 ^ (e' - e).toNat : Nat) : ℚ) + 1 ≤ m := by exact_mod_cast hlt
        exact mul_le_mul_of_nonneg_right (by linarith) hunit.le
      · exact absurd (congrArg (fun k : Nat => (k : ℚ) * 2 ^ e) heq) hne
      · left
        have hcast : (m : ℚ) + 1 ≤ (m' * 2 ^ (e' - e).toNat : Nat) := by exact_mod_cast hgt
        exact mul_le_mul_of_nonneg_right hcast hunit.le
    · -- Below it the largest number is half a unit under the power of two.
      right
      replace hfull : 2 ^ (f.precision - 1) ≤ m := hfull.resolve_right (by omega)
      have hbits : m' + 1 ≤ 2 * 2 ^ (f.precision - 1) := by
        rw [← two_pow_precision hf]
        exact hbits'
      have hcast : (m' : ℚ) + 1 ≤ 2 * 2 ^ (f.precision - 1) := by exact_mod_cast hbits
      have hexp : (2 : ℚ) ^ e' ≤ 2 ^ e / 2 := by
        rw [div_eq_mul_inv, ← zpow_sub_one₀ two_ne_zero]
        exact zpow_le_zpow_right₀ one_le_two (by omega)
      have hroom : (2 : ℚ) ^ (f.precision - 1) - 1 / 2 ≤ m - f.stepBelow m e := by
        unfold stepBelow
        by_cases hpower : m = Nat.pow 2 (f.precision - 1)
        · rw [if_pos ⟨hpower, by omega⟩, hpower, natCast_pow_two]
        · have hmore : 2 ^ (f.precision - 1) + 1 ≤ m := lt_of_le_of_ne hfull (Ne.symm hpower)
          have hmore' : (2 : ℚ) ^ (f.precision - 1) + 1 ≤ m := by exact_mod_cast hmore
          rw [if_neg fun h => hpower h.1]
          linarith
      calc (m' : ℚ) * 2 ^ e' ≤ (2 * 2 ^ (f.precision - 1) - 1) * (2 ^ e / 2) :=
            mul_le_mul (by linarith) hexp (zpow_pos two_pos e').le
              (by linarith [Nat.cast_nonneg (α := ℚ) m'])
        _ = (2 ^ (f.precision - 1) - 1 / 2) * 2 ^ e := by ring
        _ ≤ (m - f.stepBelow m e) * 2 ^ e := mul_le_mul_of_nonneg_right hroom hunit.le

/-- The interval of the greatest number stops before the overflow, for its mantissa is odd. -/
theorem Within.abs_lt_overflow (hf : f.Valid) (hx : f.Normal (.finite s m e)) (hm : 0 < m)
    (h : f.Within m e q) : |q| < f.overflow := by
  obtain ⟨hbits, -, hgreatest, -⟩ := hx
  have hunit : (0 : ℚ) < 2 ^ e := zpow_pos two_pos e
  have hone : (1 : ℚ) ≤ m := by exact_mod_cast hm
  have hbelow := (f.stepBelow_bounds m e).2
  have hnonneg : 0 ≤ q := (mul_nonneg (by linarith) hunit.le).trans h.low
  have hlt : q < (2 ^ f.precision - 1 / 2) * 2 ^ e := by
    rcases Nat.mod_two_eq_zero_or_one m with heven | hodd
    · have hhalf := two_pow_precision hf
      have hroom : m + 2 ≤ 2 ^ f.precision := by
        have hlt : m < 2 ^ f.precision := hbits
        omega
      have hcast : (m : ℚ) + 2 ≤ 2 ^ f.precision := by exact_mod_cast hroom
      exact h.high.trans_lt (mul_lt_mul_of_pos_right (by linarith) hunit)
    · have hcast : (m : ℚ) + 1 ≤ 2 ^ f.precision := by exact_mod_cast hbits
      exact (h.inside hodd).2.trans_le (mul_le_mul_of_nonneg_right (by linarith) hunit.le)
  have hmore : (0 : ℚ) ≤ 2 ^ f.precision - 1 / 2 := by
    linarith [one_le_pow₀ (n := f.precision) (one_le_two (α := ℚ))]
  rw [abs_of_nonneg hnonneg]
  exact hlt.trans_le (mul_le_mul_of_nonneg_left
    (zpow_le_zpow_right₀ one_le_two hgreatest) hmore)

/-- What lies in the interval of a number is rounded to it. -/
theorem Within.rounds (hf : f.Valid) (hx : f.Normal (.finite false m e)) (hm : 0 < m)
    (h : f.Within m e q) : f.Rounds q (.finite false m e) := by
  have hunit : (0 : ℚ) < 2 ^ e := zpow_pos two_pos e
  have hvalue : (Floating.finite false m e).value = m * 2 ^ e := rfl
  have hstep : 1 / 2 * 2 ^ e ≤ f.stepBelow m e * 2 ^ e :=
    mul_le_mul_of_nonneg_right (f.stepBelow_bounds m e).1 hunit.le
  have hlow := h.low
  have hhigh := h.high
  /- Another number is nearer only if `q` has passed the middle, and as near only if `q` is one
  of the borders. -/
  have hnearest {y : Floating} (hy : f.Has y) (hne : y.value ≠ m * 2 ^ e) :
      |m * 2 ^ e - q| ≤ |y.value - q| ∧
        (m % 2 = 1 → |(m : ℚ) * 2 ^ e - q| < |y.value - q|) := by
    rcases step_le hf hx hm hy hne with habove | hunder
    · rw [abs_of_nonneg (a := y.value - q) (by linarith)]
      refine ⟨abs_le.2 ⟨by linarith, by linarith⟩, fun hodd => ?_⟩
      have hinside := (h.inside hodd).2
      exact abs_lt.2 ⟨by linarith, by linarith⟩
    · rw [abs_sub_comm y.value, abs_of_nonneg (a := q - y.value) (by linarith)]
      refine ⟨abs_le.2 ⟨by linarith, by linarith⟩, fun hodd => ?_⟩
      have hinside := (h.inside hodd).1
      exact abs_lt.2 ⟨by linarith, by linarith⟩
  refine ⟨⟨hx, _, _, _, rfl⟩, h.abs_lt_overflow hf hx hm, fun y hy => ?_, fun y hy hne heq => ?_⟩
  · by_cases hne : y.value = m * 2 ^ e
    · rw [hvalue, hne]
    · exact (hnearest hy hne).1
  · rcases Nat.mod_two_eq_zero_or_one m with heven | hodd
    · exact heven
    · exact absurd heq ((hnearest hy hne).2 hodd).ne'

/-! ## Grids -/

theorem rounding_unit_pos (f : Format) (m : Nat) (e : Int) : 0 < (f.rounding m e).unit :=
  scale_snd_pos (by decide) e

/-- A quarter of the last bit, over the unit. -/
theorem quarter_eq (e : Int) :
    ((scale 1 4 e).1 : ℚ) / (scale 1 4 e).2 = 2 ^ e / 4 := by
  rw [scale_eq]
  push_cast
  ring

theorem rounding_value (f : Format) (m : Nat) (e : Int) :
    ((f.rounding m e).value : ℚ) / (f.rounding m e).unit = m * 2 ^ e := by
  show ((4 * m * (scale 1 4 e).1 : Nat) : ℚ) / (scale 1 4 e).2 = _
  rw [Nat.cast_mul, mul_div_assoc, quarter_eq]
  push_cast
  ring

theorem rounding_high (f : Format) (m : Nat) (e : Int) :
    ((f.rounding m e).high : ℚ) / (f.rounding m e).unit = (m + 1 / 2) * 2 ^ e := by
  show (((4 * m + 2) * (scale 1 4 e).1 : Nat) : ℚ) / (scale 1 4 e).2 = _
  rw [Nat.cast_mul, mul_div_assoc, quarter_eq]
  push_cast
  ring

theorem rounding_low (f : Format) (hm : 0 < m) (e : Int) :
    ((f.rounding m e).low : ℚ) / (f.rounding m e).unit = (m - f.stepBelow m e / 2) * 2 ^ e := by
  have hstep : ((4 * m - if m = Nat.pow 2 (f.precision - 1) ∧ f.least < e then 1 else 2 : Nat) : ℚ) =
      4 * (m - f.stepBelow m e / 2) := by
    unfold stepBelow
    split
    · rw [Nat.cast_sub (by omega)]
      push_cast
      ring
    · rw [Nat.cast_sub (by omega)]
      push_cast
      ring
  show (((4 * m - if m = Nat.pow 2 (f.precision - 1) ∧ f.least < e then 1 else 2) *
    (scale 1 4 e).1 : Nat) : ℚ) / (scale 1 4 e).2 = _
  rw [Nat.cast_mul, mul_div_assoc, quarter_eq, hstep]
  ring

end Format

theorem ten_zpow_of_nonneg {k : Int} (hk : 0 ≤ k) : (10 : ℚ) ^ k = (Nat.pow 10 k.toNat : Nat) := by
  rw [Nat.pow_eq, Nat.cast_pow, Nat.cast_ofNat, ← zpow_natCast, Int.toNat_of_nonneg hk]

theorem ten_zpow_of_neg {k : Int} (hk : ¬ 0 ≤ k) :
    (10 : ℚ) ^ k = ((Nat.pow 10 (-k).toNat : Nat) : ℚ)⁻¹ := by
  rw [← ten_zpow_of_nonneg (by omega), zpow_neg, inv_inv]

namespace Rounding

variable {r : Rounding} {d : Nat} {k : Int}

/-- A decimal is admitted between the borders. -/
theorem admits_iff (hunit : 0 < r.unit) :
    r.admits d k = true ↔
      if r.closed then (r.low : ℚ) / r.unit ≤ d * 10 ^ k ∧ (d : ℚ) * 10 ^ k ≤ r.high / r.unit
      else (r.low : ℚ) / r.unit < d * 10 ^ k ∧ (d : ℚ) * 10 ^ k < r.high / r.unit := by
  have hunit' : (0 : ℚ) < r.unit := by exact_mod_cast hunit
  obtain ⟨n, u, hu, hfraction, hadmits⟩ : ∃ n u : Nat, 0 < u ∧
      (n : ℚ) / u = d * 10 ^ k * r.unit ∧
      r.admits d k = if r.closed then r.low * u ≤ n && n ≤ r.high * u
        else r.low * u < n && n < r.high * u := by
    unfold admits
    by_cases hk : 0 ≤ k
    · refine ⟨d * Nat.pow 10 k.toNat * r.unit, 1, one_pos, ?_, by simp only [hk, if_true]⟩
      rw [ten_zpow_of_nonneg hk]
      push_cast
      ring
    · refine ⟨d * r.unit, Nat.pow 10 (-k).toNat, Nat.pow_pos (by decide), ?_,
        by simp only [hk, if_false]⟩
      rw [ten_zpow_of_neg hk]
      push_cast
      ring
  have hu' : (0 : ℚ) < u := by exact_mod_cast hu
  rw [hadmits, div_le_iff₀ hunit', le_div_iff₀ hunit', div_lt_iff₀ hunit', lt_div_iff₀ hunit',
    ← hfraction, le_div_iff₀ hu', div_le_iff₀ hu', lt_div_iff₀ hu', div_lt_iff₀ hu']
  cases r.closed with
  | true =>
    simp only [if_true, Bool.and_eq_true, decide_eq_true_eq]
    norm_cast
  | false =>
    simp only [Bool.false_eq_true, if_false, Bool.and_eq_true, decide_eq_true_eq]
    norm_cast

/-- The value lies between two neighbouring decimals of a grid. -/
theorem grid_spec (hunit : 0 < r.unit) (k : Int) :
    ((r.grid k).1 : ℚ) * 10 ^ k ≤ r.value / r.unit ∧
      (r.value : ℚ) / r.unit < ((r.grid k).1 + 1) * 10 ^ k := by
  have hten : (0 : ℚ) < 10 ^ k := zpow_pos (by norm_num) k
  obtain ⟨n, u, hu, hfraction, hgrid⟩ : ∃ n u : Nat, 0 < u ∧
      (n : ℚ) / u = r.value / r.unit / 10 ^ k ∧ (r.grid k).1 = n / u := by
    unfold grid
    by_cases hk : 0 ≤ k
    · refine ⟨r.value, r.unit * Nat.pow 10 k.toNat, Nat.mul_pos hunit (Nat.pow_pos (by decide)),
        ?_, by simp only [hk, if_true]⟩
      rw [ten_zpow_of_nonneg hk]
      push_cast
      rw [div_div]
    · refine ⟨r.value * Nat.pow 10 (-k).toNat, r.unit, hunit, ?_, by simp only [hk, if_false]⟩
      rw [ten_zpow_of_neg hk, div_inv_eq_mul]
      push_cast
      ring
  have hu' : (0 : ℚ) < u := by exact_mod_cast hu
  rw [← le_div_iff₀ hten, ← div_lt_iff₀ hten, ← hfraction, hgrid]
  constructor
  · rw [le_div_iff₀ hu']
    exact_mod_cast Nat.div_mul_le_self n u
  · rw [div_lt_iff₀ hu', mul_comm]
    exact_mod_cast Nat.lt_mul_div_succ n hu

theorem admits_of_nearest? (h : r.nearest? k = some d) : r.admits d k = true := by
  unfold nearest? at h
  dsimp only at h
  split at h
  · next hboth hnext =>
    obtain rfl := Option.some.inj h
    split
    · exact hnext
    · exact hboth
  · next hhere _ =>
    obtain rfl := Option.some.inj h
    exact hhere
  · next _ hnext =>
    obtain rfl := Option.some.inj h
    exact hnext
  · cases h

theorem exists_nearest? (h : r.admits (r.grid k).1 k = true) : ∃ d, r.nearest? k = some d := by
  unfold nearest?
  dsimp only
  rw [h]
  cases r.admits ((r.grid k).1 + 1) k with
  | true => exact ⟨_, rfl⟩
  | false => exact ⟨_, rfl⟩

/-- The search ends with an admitted decimal if one of its grids has one. -/
theorem search_admits {fuel i : Nat} (hi : i < fuel) (h : ∃ d, r.nearest? (k - i) = some d) :
    r.admits (r.search k fuel).1 (r.search k fuel).2 = true := by
  induction fuel generalizing k i with
  | zero => omega
  | succ fuel ih =>
    rw [search]
    cases hhere : r.nearest? k with
    | some d => exact admits_of_nearest? hhere
    | none =>
      obtain ⟨d, hd⟩ := h
      cases i with
      | zero => rw [Int.natCast_zero, Int.sub_zero, hhere] at hd; cases hd
      | succ i =>
        refine ih (i := i) (by omega) ⟨d, ?_⟩
        rwa [show k - 1 - (i : Int) = k - ((i + 1 : Nat) : Int) by omega]

end Rounding

/-! ## The shortest decimal -/

/-- The first digit of a fraction stands at its places. -/
theorem ten_zpow_decimalPlaces_le {n u : Nat} (hn : 0 < n) (hu : 0 < u) :
    (10 : ℚ) ^ (decimalPlaces n u - 1) ≤ n / u := by
  have hu' : (0 : ℚ) < u := by exact_mod_cast hu
  have hten : (1 : ℚ) ≤ 10 := by norm_num
  unfold decimalPlaces
  by_cases hwhole : u ≤ n
  · have hlength : 0 < (Nat.toDigits 10 (n / u)).length := Nat.length_toDigits_pos
    have hle := ten_pow_length_toDigits_le (Nat.div_pos hwhole hu).ne'
    rw [if_pos hwhole, show ((Nat.toDigits 10 (n / u)).length : ℤ) - 1 =
      ((Nat.toDigits 10 (n / u)).length - 1 : ℕ) by omega, zpow_natCast, le_div_iff₀ hu']
    exact_mod_cast (Nat.mul_le_mul_right u hle).trans (Nat.div_mul_le_self n u)
  · rw [if_neg hwhole]
    dsimp only
    generalize hplaces : (Nat.toDigits 10 ((u - 1) / n)).length = places
    have hlt : (u - 1) / n < 10 ^ places := by
      rw [← hplaces]
      exact (Nat.length_toDigits_le_iff (by omega) Nat.length_toDigits_pos).mp (le_refl _)
    have hle : u ≤ n * 10 ^ places := by
      have := (Nat.div_lt_iff_lt_mul hn).mp hlt
      rw [Nat.mul_comm]
      omega
    have hbase : (10 : ℚ) ^ (-(places : ℤ)) ≤ n / u := by
      rw [zpow_neg, zpow_natCast, inv_le_comm₀ (by positivity) (by positivity), inv_div,
        div_le_iff₀ (by exact_mod_cast hn)]
      rw [mul_comm]
      exact_mod_cast hle
    refine (zpow_le_zpow_right₀ hten ?_).trans hbase
    split <;> omega

theorem trimZeros_value (d : Nat) (k : Int) (fuel : Nat) :
    ((trimZeros d k fuel).1 : ℚ) * 10 ^ (trimZeros d k fuel).2 = d * 10 ^ k := by
  induction fuel generalizing d k with
  | zero => rfl
  | succ fuel ih =>
    rw [trimZeros]
    split
    · next hzero =>
      rw [ih, zpow_add_one₀ (by norm_num)]
      have hten : ((d / 10 : Nat) : ℚ) * 10 = d := by
        exact_mod_cast Nat.div_mul_cancel (Nat.dvd_of_mod_eq_zero hzero.1)
      rw [← hten]
      ring
    · rfl

section

variable {s : Bool} {m : Nat} {e : Int}

/-- The last of 18 grids has a step below a quarter of the distance to the next double. -/
theorem double_search_admits (hx : double.Normal (.finite s m e)) (hm : 0 < m) :
    let r := double.rounding m e
    let found := r.search (decimalPlaces r.value r.unit - 1) 18
    r.admits found.1 found.2 = true := by
  intro r found
  have hunit : 0 < r.unit := double.rounding_unit_pos m e
  have hbit : (0 : ℚ) < 2 ^ e := zpow_pos two_pos e
  have hvalue : (r.value : ℚ) / r.unit = m * 2 ^ e := double.rounding_value m e
  have hpos : 0 < r.value := by
    have hm' : (0 : ℚ) < m := by exact_mod_cast hm
    have hquot : (0 : ℚ) < (r.value : ℚ) / r.unit := hvalue ▸ mul_pos hm' hbit
    by_contra hzero
    rw [Nat.eq_zero_of_not_pos hzero, Nat.cast_zero, zero_div] at hquot
    exact lt_irrefl 0 hquot
  have hfirst : (10 : ℚ) ^ (decimalPlaces r.value r.unit - 1) ≤ m * 2 ^ e :=
    hvalue ▸ ten_zpow_decimalPlaces_le hpos hunit
  refine Rounding.search_admits (i := 17) (by decide) (Rounding.exists_nearest? ?_)
  generalize decimalPlaces r.value r.unit - 1 = k at hfirst
  have hstep : (10 : ℚ) ^ (k - (17 : Nat)) < 2 ^ e / 8 := by
    have hbits : (m : ℚ) < 2 ^ 53 := by exact_mod_cast hx.1
    calc (10 : ℚ) ^ (k - (17 : Nat)) = 10 ^ k / 10 ^ 17 := by
          rw [zpow_sub₀ (by norm_num), zpow_natCast]
      _ ≤ m * 2 ^ e / 10 ^ 17 := div_le_div_of_nonneg_right hfirst (by norm_num)
      _ ≤ 2 ^ 53 * 2 ^ e / 10 ^ 17 := by
          refine div_le_div_of_nonneg_right ?_ (by norm_num)
          exact mul_le_mul_of_nonneg_right hbits.le hbit.le
      _ < 2 ^ e / 8 := by linarith
  obtain ⟨hlow, hhigh⟩ := r.grid_spec hunit (k - (17 : Nat))
  rw [hvalue] at hlow hhigh
  have hbelow := mul_le_mul_of_nonneg_right (double.stepBelow_bounds m e).1 hbit.le
  have hinside : (m - double.stepBelow m e / 2) * 2 ^ e <
        (r.grid (k - (17 : Nat))).1 * 10 ^ (k - (17 : Nat)) ∧
      ((r.grid (k - (17 : Nat))).1 : ℚ) * 10 ^ (k - (17 : Nat)) < (m + 1 / 2) * 2 ^ e := by
    generalize (10 : ℚ) ^ (k - (17 : Nat)) = step at hstep hlow hhigh ⊢
    generalize ((r.grid (k - (17 : Nat))).1 : ℚ) = d at hlow hhigh ⊢
    exact ⟨by linarith, by linarith⟩
  rw [Rounding.admits_iff hunit, double.rounding_low hm, double.rounding_high]
  split
  · exact ⟨hinside.1.le, hinside.2.le⟩
  · exact hinside

theorem within_of_admits {f : Format} (hm : 0 < m) {d : Nat} {k : Int}
    (h : (f.rounding m e).admits d k = true) : f.Within m e (d * 10 ^ k) := by
  rw [Rounding.admits_iff (f.rounding_unit_pos m e), f.rounding_low hm, f.rounding_high] at h
  have hclosed : (f.rounding m e).closed = (m % 2 == 0) := rfl
  rcases Nat.mod_two_eq_zero_or_one m with heven | hodd
  · rw [hclosed, heven, if_pos (by decide)] at h
    exact ⟨h.1, h.2, fun hodd => by omega⟩
  · rw [hclosed, hodd, if_neg (by decide)] at h
    exact ⟨h.1.le, h.2.le, fun _ => h⟩

theorem within_shortest (hx : double.Normal (.finite s m e)) (hm : 0 < m) :
    double.Within m e ((double.shortest m e).1 * 10 ^ (double.shortest m e).2) := by
  have hfound := within_of_admits hm (double_search_admits hx hm)
  rw [← trimZeros_value _ _ 400] at hfound
  exact hfound

/-- Only a double itself has its value, zero left out. -/
theorem eq_of_value_eq {x : Floating} (hx : double.Normal (.finite false m e)) (hm : 0 < m)
    (hhas : double.Has x) (hvalue : x.value = (Floating.finite false m e).value) :
    x = .finite false m e := by
  obtain ⟨hnormal, s', m', e', rfl⟩ := hhas
  have hmagnitude : (0 : ℚ) < m * 2 ^ e := mul_pos (by exact_mod_cast hm) (zpow_pos two_pos e)
  cases s' with
  | true =>
    have hnegative : (Floating.finite true m' e').value ≤ 0 :=
      neg_nonpos.2 (mul_nonneg (Nat.cast_nonneg m') (zpow_pos two_pos e').le)
    rw [hvalue] at hnegative
    exact absurd hnegative (not_le.2 hmagnitude)
  | false =>
    obtain ⟨rfl, rfl⟩ := hnormal.eq_of_magnitude double_valid hx hvalue
    rfl

/-- Decimals in the interval of a double are read as the double. -/
theorem toFloating_of_within (hx : double.Normal (.finite false m e)) (hm : 0 < m) {x : Decimal}
    (h : double.Within m e x.value) : x.toFloating double = .finite false m e := by
  have hrounds := h.rounds double_valid hx hm
  have hread := Decimal.toFloating_rounds hrounds.inRange
  exact eq_of_value_eq hx hm hread.has (hread.value_eq double_valid hrounds)

/-- The shortest decimal of a double is read as that double, in whatever way it is spelt. -/
theorem toFloating_shortest (hx : double.Normal (.finite s m e)) (hm : 0 < m) {x : Decimal}
    (hsign : x.negative = s) (hvalue : (x.digits : ℚ) * 10 ^ x.exponent =
      (double.shortest m e).1 * 10 ^ (double.shortest m e).2) :
    x.toFloating double = .finite s m e := by
  obtain ⟨negative, digits, exponent⟩ := x
  obtain rfl : negative = s := hsign
  have hwithin : double.Within m e (Decimal.mk false digits exponent).value :=
    (congrArg (double.Within m e) hvalue).mpr (within_shortest hx hm)
  have hpositive := toFloating_of_within hx hm hwithin
  cases negative with
  | false => exact hpositive
  | true =>
    have hnegate := Decimal.toFloating_negate double false digits exponent
    rw [hpositive] at hnegate
    exact hnegate

end

end Attest.Number
