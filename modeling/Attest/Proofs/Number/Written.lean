/-
  Floating-point numbers as texts. However digits are laid out, with a point or with a power of
  ten, the text spells the same decimal (`Spells`). Main statement (`read?_write`): what any layout
  writes for a finite double is read as that double, the sign of zero included.
-/
import Attest.Number.Written
import Attest.Proofs.Call.Float
import Attest.Proofs.Number.Shortest

namespace Attest.Number

/-! ## Spellings of a decimal -/

/-- Digits, perhaps a point with more digits, perhaps a power of ten, and the number that they
stand for. -/
inductive Spells : List Char → ℚ → Prop
  | intro (whole fraction exponent : List Char) {point : List Char} {x : Int}
      (hwhole : ∀ c ∈ whole, isDigit c = true) (hne : whole ≠ [])
      (hfraction : ∀ c ∈ fraction, isDigit c = true) (hpoint : PointPart point fraction)
      (hexponent : exponent = [] ∧ x = 0 ∨ exponent = 'e' :: (toString x).toList) :
      Spells (whole ++ (point ++ exponent))
        (digitsValue (whole ++ fraction) * 10 ^ (x - fraction.length))

theorem Spells.congr {text text' : List Char} {q q' : ℚ} (h : Spells text q) (htext : text' = text)
    (hq : q' = q) : Spells text' q' := by
  rw [htext, hq]
  exact h

theorem readExponent?_toString (x : Int) : readExponent? (toString x).toList = some x := by
  obtain ⟨hdigits, hbare⟩ := digits_toDigits (by decide : 1 < 10) (by decide) x.natAbs
  have hne : bare (Nat.toDigits 10 x.natAbs) ≠ [] := by rw [hbare]; exact Nat.toDigits_ne_nil
  have hread {sign : List Char} {negative : Bool} (h : (sign, negative) ∈ exponentSigns) :
      readExponent? (sign ++ Nat.toDigits 10 x.natAbs) = some (signedInt negative x.natAbs) := by
    have := readExponent?_of_digits h hdigits hne
    rwa [hbare] at this
  rw [toList_toString_int]
  by_cases hneg : x < 0
  · have hx : signedInt true x.natAbs = x := by
      rw [signedInt, if_pos rfl]
      omega
    rw [if_pos hneg]
    have hminus : (['-'], true) ∈ exponentSigns := by decide
    exact (hread hminus).trans (congrArg some hx)
  · have hx : signedInt false x.natAbs = x := by
      rw [signedInt, if_neg (by decide)]
      omega
    rw [if_neg hneg]
    have hbare : ([], false) ∈ exponentSigns := by decide
    exact (hread hbare).trans (congrArg some hx)

/-- The decimal of a spelling is read. -/
theorem Spells.exists_decimal {text : List Char} {q : ℚ} (h : Spells text q) (negative : Bool) :
    ∃ x, readUnsigned? negative text = some x ∧ x.negative = negative ∧
      (x.digits : ℚ) * 10 ^ x.exponent = q := by
  obtain ⟨_, _, _, hwhole, hne, hfraction, hpoint, hexponent⟩ := h
  refine ⟨_, readUnsigned?_of_split negative hwhole hne hfraction hpoint ?_, rfl, rfl⟩
  rcases hexponent with hnone | hsome
  · exact Or.inl hnone
  · exact Or.inr ⟨'e', _, hsome, Or.inl rfl, readExponent?_toString _⟩

theorem Spells.exists_first_digit {text : List Char} {q : ℚ} (h : Spells text q) :
    ∃ c cs, text = c :: cs ∧ isDigit c = true := by
  obtain ⟨whole, _, _, hwhole, hne, -, -, -⟩ := h
  obtain ⟨c, whole, rfl⟩ := List.exists_cons_of_ne_nil hne
  exact ⟨c, _, rfl, hwhole c List.mem_cons_self⟩

/-! ## Layouts -/

section

variable {ds : List Char} {k : Int}

theorem isDigit_of_mem_zeros (n : Nat) : ∀ c ∈ List.replicate n '0', isDigit c = true := by
  intro c hc
  rw [List.eq_of_mem_replicate hc]
  decide

/-- The point stands in front of zeros and the digits, between digits, or behind them and zeros. -/
theorem spells_placePoint (fraction : Bool) (hdigits : ∀ c ∈ ds, isDigit c = true) (hne : ds ≠ []) :
    Spells (placePoint fraction ds k) (digitsValue ds * 10 ^ (k - ds.length)) := by
  unfold placePoint
  split
  · next hk =>
    have hbehind : ∀ c ∈ List.replicate (-k).toNat '0' ++ ds, isDigit c = true :=
      List.forall_mem_append.2 ⟨isDigit_of_mem_zeros _, hdigits⟩
    refine (Spells.intro ['0'] _ [] (isDigit_of_mem_zeros 1) (by simp) hbehind (.some _)
      (Or.inl ⟨rfl, rfl⟩)).congr (by simp) ?_
    rw [digitsValue_append, digitsValue_append, digitsValue_zeros, List.length_append,
      List.length_replicate]
    have hexp : (0 : Int) - ((-k).toNat + ds.length : Nat) = k - ds.length := by omega
    rw [hexp, show digitsValue ['0'] = 0 from rfl, Nat.zero_mul, Nat.zero_mul, Nat.zero_add,
      Nat.zero_add]
  · next hk =>
    split
    · next hmiddle =>
      refine (Spells.intro (ds.take k.toNat) (ds.drop k.toNat) []
        (fun c hc => hdigits c (List.mem_of_mem_take hc)) ?_
        (fun c hc => hdigits c (List.mem_of_mem_drop hc)) (.some _)
        (Or.inl ⟨rfl, rfl⟩)).congr (by simp) ?_
      · rw [Ne, List.take_eq_nil_iff, not_or]
        exact ⟨by omega, hne⟩
      · have hexp : (0 : Int) - (ds.drop k.toNat).length = k - ds.length := by
          rw [List.length_drop]
          omega
        rw [List.take_append_drop, hexp]
    · next hbehind =>
      have hwhole : ∀ c ∈ ds ++ List.replicate (k.toNat - ds.length) '0', isDigit c = true :=
        List.forall_mem_append.2 ⟨hdigits, isDigit_of_mem_zeros _⟩
      have hnonempty : ds ++ List.replicate (k.toNat - ds.length) '0' ≠ [] := by simp [hne]
      have hpow : (10 : ℚ) ^ (k - ds.length) = 10 ^ (k.toNat - ds.length) := by
        rw [← zpow_natCast]
        congr 1
        omega
      cases fraction with
      | false =>
        refine (Spells.intro _ [] [] hwhole hnonempty (by simp) .none
          (Or.inl ⟨rfl, rfl⟩)).congr (by simp) ?_
        rw [List.append_nil, digitsValue_append, digitsValue_zeros, List.length_replicate, hpow]
        simp
      | true =>
        refine (Spells.intro _ ['0'] [] hwhole hnonempty (isDigit_of_mem_zeros 1) (.some _)
          (Or.inl ⟨rfl, rfl⟩)).congr (by simp) ?_
        rw [digitsValue_append, digitsValue_append, digitsValue_zeros, List.length_replicate, hpow,
          show digitsValue ['0'] = 0 from rfl]
        simp

theorem spells_placeExponent (hdigits : ∀ c ∈ ds, isDigit c = true) (hne : ds ≠ []) :
    Spells (placeExponent ds k) (digitsValue ds * 10 ^ (k - ds.length)) := by
  have hpoint : PointPart (if ds.length ≤ 1 then [] else '.' :: ds.drop 1) (ds.drop 1) := by
    split
    · next hone =>
      rw [List.drop_eq_nil_iff.2 hone]
      exact .none
    · exact .some _
  refine (Spells.intro (ds.take 1) (ds.drop 1) ('e' :: (toString (k - 1)).toList)
    (fun c hc => hdigits c (List.mem_of_mem_take hc)) (by simpa using hne)
    (fun c hc => hdigits c (List.mem_of_mem_drop hc)) hpoint (Or.inr rfl)).congr ?_ ?_
  · rw [placeExponent, List.append_assoc]
  · have hlength : 0 < ds.length := List.length_pos_iff.2 hne
    have hexp : k - 1 - (ds.drop 1).length = k - ds.length := by
      rw [List.length_drop]
      omega
    rw [List.take_append_drop, hexp]

end

/-- Digits stand for the same decimal in any layout. -/
theorem Layout.spells_digits (l : Layout) {ds : List Char} (hdigits : ∀ c ∈ ds, isDigit c = true)
    (hne : ds ≠ []) (k : Int) : Spells (l.digits ds k) (digitsValue ds * 10 ^ (k - ds.length)) := by
  rw [Layout.digits]
  split
  · exact spells_placePoint l.fraction hdigits hne
  · exact spells_placeExponent hdigits hne

/-! ## Numbers -/

theorem Layout.spells_zero (l : Layout) :
    Spells (if l.fraction then ['0', '.', '0'] else ['0']) 0 := by
  split
  · exact (Spells.intro ['0'] ['0'] [] (isDigit_of_mem_zeros 1) (by simp) (isDigit_of_mem_zeros 1)
      (.some _) (Or.inl ⟨rfl, rfl⟩)).congr rfl (by simp [digitsValue])
  · exact (Spells.intro ['0'] [] [] (isDigit_of_mem_zeros 1) (by simp) (by simp) .none
      (Or.inl ⟨rfl, rfl⟩)).congr rfl (by simp [digitsValue])

/-- The decimal that is written for a number. -/
def writtenDecimal (m : Nat) (e : Int) : ℚ :=
  if m = 0 then 0 else (double.shortest m e).1 * 10 ^ (double.shortest m e).2

theorem Layout.spells_magnitude (l : Layout) (m : Nat) (e : Int) :
    Spells (l.magnitude double m e) (writtenDecimal m e) := by
  rw [Layout.magnitude, writtenDecimal]
  split
  · exact l.spells_zero
  · generalize double.shortest m e = found
    obtain ⟨d, k⟩ := found
    refine (l.spells_digits (isDigit_toDigits d) Nat.toDigits_ne_nil _).congr rfl ?_
    rw [digitsValue_toDigits, add_sub_cancel_right]

/-- A double is read from every text that spells the decimal written for it. -/
theorem toFloating_writtenDecimal {s : Bool} {m : Nat} {e : Int}
    (hx : double.Normal (.finite s m e)) {x : Decimal} (hsign : x.negative = s)
    (hvalue : (x.digits : ℚ) * 10 ^ x.exponent = writtenDecimal m e) :
    x.toFloating double = .finite s m e := by
  rw [writtenDecimal] at hvalue
  split at hvalue
  · next hzero =>
    obtain ⟨negative, digits, exponent⟩ := x
    have hten : (10 : ℚ) ^ exponent ≠ 0 := zpow_ne_zero _ (by norm_num)
    obtain rfl : digits = 0 := by exact_mod_cast (mul_eq_zero.1 hvalue).resolve_right hten
    obtain rfl : negative = s := hsign
    obtain ⟨-, -, -, hfull⟩ := hx
    have hleast : e = double.least := hfull.resolve_left (by rw [hzero]; decide)
    rw [Decimal.toFloating, if_pos rfl, hzero, hleast]
  · next hm => exact toFloating_shortest hx (Nat.pos_of_ne_zero hm) hsign hvalue

theorem Layout.toList_write (l : Layout) (s : Bool) (m : Nat) (e : Int) :
    (l.write double (.finite s m e)).toList = Call.signedText s (l.magnitude double m e) := by
  rw [Layout.write, String.toList_ofList, Call.signedText]
  cases s <;> rfl

/-- What is written for a finite double is read as that double. -/
theorem read?_write (l : Layout) {x : Floating} (hx : double.Has x) :
    double.read? (l.write double x).toList = some x := by
  obtain ⟨hnormal, s, m, e, rfl⟩ := hx
  have hspells := l.spells_magnitude m e
  obtain ⟨d, hread, hsign, hvalue⟩ := hspells.exists_decimal s
  obtain ⟨c, cs, hcs, hc⟩ := hspells.exists_first_digit
  rw [hcs] at hread
  rw [l.toList_write, hcs, Call.read?_of_signedText hc hread,
    toFloating_writtenDecimal hnormal hsign hvalue]

end Attest.Number
