/-
  Integers given as words. Main statement: a word for an integer that a scalar can hold is that
  integer, and one for a larger integer is the double nearest to it (`Scalar.ofWord_toString`).
-/
import Attest.Scalar.Word
import Attest.Proofs.Call.Float

namespace Attest

open Number
open Call (scalarRange_has_iff)

/-! ## Integers in decimal -/

/-- A natural number is read if the range has it. -/
theorem Number.Range.read?_toDigits (r : Range) (n : Nat) :
    r.read? 10 (Nat.toDigits 10 n) = if n ≤ r.high.toNat then some (n : Int) else none := by
  obtain ⟨hdigits, hbare⟩ := digits_toDigits (by decide : 1 < 10) (by decide) n
  have hread := read?_of_digits (r := r) hdigits (by rw [hbare]; exact Nat.toDigits_ne_nil)
  rwa [hbare] at hread

/-- Behind a minus sign it is read if the range has its opposite. -/
theorem Number.Range.read?_minus_toDigits {r : Range} (hlow : r.low < 0) (n : Nat) :
    r.read? 10 ('-' :: Nat.toDigits 10 n) =
      if n ≤ r.low.natAbs then some (-n : Int) else none := by
  obtain ⟨hdigits, hbare⟩ := digits_toDigits (by decide : 1 < 10) (by decide) n
  have hread : readDigits 10 r.low.natAbs .tooSmall 0 (bare (Nat.toDigits 10 n)) = _ :=
    readDigits_of_digits hdigits (Nat.zero_le _)
  rw [hbare, Nat.zero_mul, Nat.zero_add] at hread
  obtain ⟨c, ds, hds, -, -⟩ := exists_first_digit n
  rw [hds] at hread ⊢
  rw [Range.read?, Range.read, if_pos hlow, hread]
  · split <;> rfl
  · simp

theorem looksNumeric_toDigits (n : Nat) : looksNumeric (Nat.toDigits 10 n) = true := by
  have hdigits := isDigit_toDigits n
  obtain ⟨c, ds, hds, hc, -⟩ := exists_first_digit n
  rw [looksNumeric, Bool.and_eq_true]
  constructor
  · rw [hds, List.any_cons, hc, Bool.true_or]
  · exact List.all_eq_true.2 fun x hx => by rw [hdigits x hx, Bool.true_or]

/-- Digits alone are a decimal fraction, if they are not too many. -/
theorem double_read?_toDigits {n : Nat} (hn : n < 2 ^ 128) :
    double.read? (Nat.toDigits 10 n) = some (ofInt n) := by
  obtain ⟨hdigits, hbare⟩ := digits_toDigits (by decide : 1 < 10) (by decide) n
  have hread : readUnsigned? false (bare (Nat.toDigits 10 n ++ ([] ++ []))) = _ :=
    readUnsigned?_of_parts false (by rwa [List.append_nil])
      (by rw [hbare]; exact Nat.toDigits_ne_nil) .none .none
  rw [List.append_nil, List.append_nil, hbare] at hread
  obtain ⟨c, ds, hds, hc, -⟩ := exists_first_digit n
  have hdouble : double.read? (Call.signedText false (c :: ds)) = _ :=
    Call.read?_of_signedText hc (hds ▸ hread)
  have hround : (⟨false, n, 0 - (bare []).length⟩ : Decimal).toFloating double = ofInt n := by
    have hsign : decide ((n : Int) < 0) = false := by simp
    rw [ofInt, hsign, Int.natAbs_natCast, Decimal.toFloating]
    by_cases hzero : n = 0
    · subst hzero
      rfl
    · have hlength : (Nat.toDigits 10 n).length ≤ 39 :=
        (Nat.length_toDigits_le_iff (by decide) (by decide)).mpr (by omega)
      have hnone : ((0 : Int) - ((bare []).length : Nat)) = 0 := rfl
      rw [if_neg hzero, hnone]
      dsimp only
      rw [if_neg (by omega), if_neg (by omega), if_pos (Int.le_refl 0)]
      show double.round false (n * 1) 1 = _
      rw [Nat.mul_one]
  rw [hds]
  exact hdouble.trans (congrArg some hround)

/-! ## Words -/

/-- No word of letters is spelled like an integer. -/
theorem toString_ne_word (i : Int) (c : Char) (rest : List Char) (hminus : c ≠ '-')
    (hdigit : isDigit c = false) : toString i ≠ String.ofList (c :: rest) := by
  intro h
  have hlist := congrArg String.toList h
  obtain ⟨d, ds, hds, hd, -⟩ := exists_first_digit i.natAbs
  rw [toList_toString_int, String.toList_ofList, hds] at hlist
  split at hlist
  · exact hminus (List.cons.inj hlist).1.symm
  · rw [(List.cons.inj hlist).1, hdigit] at hd
    cases hd

namespace Scalar

/-- A word for an integer is read in full. What is too large for a scalar is read as a decimal
fraction without places. -/
theorem ofNumeric?_toString {i : Int} (hlow : -2 ^ 127 ≤ i) (hhigh : i < 2 ^ 128) :
    ofNumeric? (toString i).toList =
      some (if i < 2 ^ 127 then .int i else .float (Number.ofInt i)) := by
  have hlowest : scalarRange.low.natAbs = 2 ^ 127 := by decide
  have hhighest : scalarRange.high.toNat = 2 ^ 127 - 1 := by decide
  rw [ofNumeric?, toList_toString_int]
  by_cases hneg : i < 0
  · have hi : -((i.natAbs : Nat) : Int) = i := by omega
    have hsmall : i < 2 ^ 127 := by omega
    rw [if_pos hneg, if_pos hsmall, Range.read?_minus_toDigits (by decide), hlowest,
      if_pos (by omega), hi]
  · have hi : ((i.natAbs : Nat) : Int) = i := by omega
    rw [if_neg hneg, Range.read?_toDigits, hhighest]
    by_cases hsmall : i < 2 ^ 127
    · rw [if_pos (by omega), if_pos hsmall, hi]
    · rw [if_neg (by omega), if_neg hsmall, looksNumeric_toDigits, if_pos rfl,
        double_read?_toDigits (by omega), hi]
      rfl

theorem ofWord_toString {i : Int} (hlow : -2 ^ 127 ≤ i) (hhigh : i < 2 ^ 128) :
    ofWord (toString i) = if i < 2 ^ 127 then .int i else .float (Number.ofInt i) := by
  have hnull : toString i ≠ "null" :=
    toString_ne_word i 'n' "ull".toList (by decide) (by decide)
  have htrue : toString i ≠ "true" :=
    toString_ne_word i 't' "rue".toList (by decide) (by decide)
  have hfalse : toString i ≠ "false" :=
    toString_ne_word i 'f' "alse".toList (by decide) (by decide)
  rw [ofWord, if_neg hnull, if_neg htrue, if_neg hfalse]
  dsimp only
  rw [ofNumeric?_toString hlow hhigh]
  rfl

end Scalar

end Attest
