/-
  Numbers behind several minus signs. A number is read with one sign, so of the numbers behind more
  of them only a decimal integer behind exactly two is read. Main statement (`compare_negated`):
  in all other cases the number is held against the value that it stands for.
-/
import Attest.Call.Resolve
import Attest.Proofs.Call.Float
import Attest.Proofs.Call.Lexical
import Attest.Proofs.Call.Negation

namespace Attest.Call

open Syntax Number
open Literal (ofTree? ofToken? negate? radixOf bareDigits magnitude? opposite integerValue
  floatValue?)

/-! ## Numbers behind minus signs -/

/-- A number token with the text behind `n` minus signs, and any parentheses around each part. -/
inductive Negated (kind : Kind) (text : List Char) : Nat → Tree → Prop
  | token {r t} (h : t.text.toList = text) : Negated kind text 0 (.leaf r kind t)
  | minus {n r s minus comments operand} (hm : minus.kind = .mark) (ht : minus.text = "-")
      (hc : ∀ c ∈ comments, c.isComment = true) (h : Negated kind text n operand) :
      Negated kind text (n + 1) (.node r .unary s (minus :: (comments ++ [operand])))
  | paren {n inner r s opening closing} (ho : opening.kind = .mark) (hc : closing.kind = .mark)
      (h : Negated kind text n inner) :
      Negated kind text n (.node r .paren s [opening, inner, closing])

variable {kind : Kind} {text : List Char} {n m : Nat} {t : Tree}

theorem isNamed_of_negated (hnamed : kind.isNamed = true) (h : Negated kind text n t) :
    t.isNamed = true := by
  cases h with
  | token => exact hnamed
  | minus => rfl
  | paren => rfl

/-- All signs are put in front of the text, for both kinds of numbers. -/
theorem ofTree?_of_negated {number : List Char → Literal} (hnamed : kind.isNamed = true)
    (htoken : ∀ s, ofToken? kind s = some (number s.toList))
    (hnegate : ∀ ds, negate? (number ds) = some (number ('-' :: ds)))
    (h : Negated kind text n t) :
    ofTree? t = some (number (List.replicate n '-' ++ text)) := by
  induction h with
  | token htext =>
    rw [ofTree?, htoken, htext]
    rfl
  | minus hm ht _ hoperand ih =>
    rw [ofTree?_of_minus _ hm ht (isNamed_of_negated hnamed hoperand), ih, Option.bind_some,
      hnegate]
    rfl
  | paren ho hc hinner ih =>
    rw [ofTree?_of_parenthesized (.paren .refl ho hc) (isNamed_of_negated hnamed hinner), ih]

/-! ## Integers -/

theorem IntegerText.isInteger (h : IntegerText text m) : IsInteger text := by
  have hends : EndsNumber [] := by simp [EndsNumber]
  have hlexeme := lexeme_integer h hends false
  obtain ⟨c, rest, rfl, hc⟩ := h.head
  rw [List.append_nil] at hlexeme
  have hspelt := lexeme_spelt false rest (not_isBlank_of_decimal hc)
  rw [hlexeme] at hspelt
  exact hspelt.integer rfl

/-- A radix mark is no digit of a decimal number. -/
theorem readDigits_of_mark {mark : Char} (hmark : digitValue? 10 mark = none) (limit : Nat)
    (overflow : Misread) (cs : List Char) :
    readDigits 10 limit overflow 0 ('0' :: mark :: cs) = .error .invalidDigit := by
  have hzero : digitValue? 10 '0' = some 0 := by decide
  rw [readDigits, hzero]
  dsimp only
  rw [if_pos (by omega), readDigits, hmark]

/-- Behind a sign only decimal literals are read. -/
theorem readDigits_bareDigits_of_text (h : IntegerText text m) {limit : Nat} (hm : m ≤ limit)
    (overflow : Misread) :
    readDigits 10 limit overflow 0 (bareDigits text) =
      if (radixOf text).1 = 10 then .ok m else .error .invalidDigit := by
  obtain ⟨hmark, hdigits, hne, -, hsuffix⟩ := h
  have hradix := radixOf_of_text hmark hdigits hne hsuffix
  simp only [radixMarks, List.mem_cons, Prod.mk.injEq, List.not_mem_nil, or_false] at hmark
  rw [hradix]
  rcases hmark with ⟨rfl, rfl⟩ | ⟨rfl, rfl⟩ | ⟨rfl, rfl⟩ | ⟨rfl, rfl⟩
  · rw [if_pos rfl, List.nil_append, bareDigits_append_suffix hdigits hsuffix,
      readDigits_of_digits hdigits (Nat.zero_le _), Nat.zero_mul, Nat.zero_add, if_pos hm]
  all_goals
    rw [List.cons_append, List.cons_append, bareDigits_cons (by decide),
      bareDigits_cons (by decide), readDigits_of_mark (by decide)]
    rfl

theorem integerValue_of_two_signs (h : IntegerText text m) (hm : m < 2 ^ 127) :
    integerValue ('-' :: '-' :: text) =
      .ok (if (radixOf text).1 = 10 then some (m : Int) else none) := by
  rw [integerValue, skipBlanks_minus, magnitude?_minus h.isInteger,
    readDigits_bareDigits_of_text h (by omega)]
  by_cases hradix : (radixOf text).1 = 10
  · have hrange : scalarRange.has (- -(m : Int)) = true := by
      rw [scalarRange_has_iff]
      omega
    rw [if_pos hradix, if_pos hradix]
    show (opposite (-(m : Int))).map some = _
    rw [opposite, if_pos hrange, neg_neg]
    rfl
  · rw [if_neg hradix, if_neg hradix]
    rfl

/-- One sign is read in front of every literal, two only in front of a decimal one, and more never.
The signs that are read count. -/
theorem integerValue_of_signs (h : IntegerText text m) (hm : m < 2 ^ 127) (n : Nat) :
    integerValue (List.replicate n '-' ++ text) =
      .ok (if n ≤ 1 ∨ n = 2 ∧ (radixOf text).1 = 10 then some ((-1) ^ n * (m : Int))
        else none) := by
  match n with
  | 0 =>
    rw [List.replicate_zero, List.nil_append, integerValue_of_text h, if_pos hm,
      if_pos (Or.inl (by omega)), pow_zero, one_mul]
  | 1 =>
    rw [List.replicate_one, List.singleton_append, integerValue_of_negative h, if_pos hm,
      if_pos (Or.inl (by omega)), pow_one, neg_one_mul]
  | 2 =>
    show integerValue ('-' :: '-' :: text) = _
    rw [integerValue_of_two_signs h hm]
    simp
  | n + 3 =>
    simp only [List.replicate_succ, List.cons_append]
    rw [integerValue_minus_minus_minus, if_neg (by omega)]

/-! ## Floats -/

/-- Signs are kept in front of a float literal, and its suffix is taken off. -/
theorem floatValue?_of_parts {whole point fraction exponent suffix : List Char} {x : Int}
    (hdigits : Digits 10 (whole ++ fraction) m) (hpoint : PointPart point fraction)
    (hexponent : ExponentPart exponent x) (hsuffix : suffix ∈ floatSuffixes) (n : Nat) :
    floatValue? (List.replicate n '-' ++ (whole ++ (point ++ exponent) ++ suffix)) =
      double.read? (List.replicate n '-' ++ bare (whole ++ (point ++ exponent))) := by
  have hchars : ∀ c ∈ List.replicate n '-' ++ (whole ++ (point ++ exponent)), c ∈ floatChars := by
    rw [List.forall_mem_append]
    refine ⟨fun c hc => ?_, mem_floatChars_of_parts hdigits hpoint hexponent⟩
    rw [List.eq_of_mem_replicate hc]
    decide
  have hbody : 'f' ∉ bare (List.replicate n '-' ++ (whole ++ (point ++ exponent))) := by
    intro hmem
    have := hchars 'f' (List.mem_of_mem_filter hmem)
    contradiction
  have hsigns : bare (List.replicate n '-') = List.replicate n '-' :=
    List.filter_eq_self.mpr fun c hc => by rw [List.eq_of_mem_replicate hc]; decide
  rw [floatValue?, ← List.append_assoc, filter_floatChars hchars hsuffix, dropSuffix hbody hsuffix,
    bare_append, hsigns]

/-- The second of two signs begins neither a fraction nor a word. -/
theorem read?_of_two_signs (cs : List Char) : double.read? ('-' :: '-' :: cs) = none := by
  have hnumber : readUnsigned? true ('-' :: cs) = none := rfl
  have hne (word : String) (h : word.toList.head? ≠ some '-') :
      (String.ofList (lowerAscii ('-' :: cs)) == word) = false := by
    rw [beq_eq_false_iff_ne]
    rintro rfl
    exact h (by rw [String.toList_ofList]; rfl)
  have hword : readWord? true ('-' :: cs) = none := by
    simp only [readWord?, hne "inf" (by decide), hne "infinity" (by decide),
      hne "nan" (by decide), Bool.or_false, Bool.false_eq_true, if_false]
  rw [Format.read?, hnumber, hword]

/-- More than one sign is read in front of no float literal. -/
theorem floatValue?_of_signs {k : Int} (h : FloatText text m k) (n : Nat) :
    floatValue? (List.replicate n '-' ++ text) =
      if n ≤ 1 then some (Floating.negate^[n] ((Decimal.mk false m k).toFloating double))
      else none := by
  match n with
  | 0 => exact floatValue?_of_text (d := ⟨false, m, k⟩) h
  | 1 =>
    have hread := floatValue?_of_text (d := ⟨true, m, k⟩) h
    exact hread.trans (congrArg some (Decimal.toFloating_negate double false m k))
  | n + 2 =>
    cases h with
    | intro hdigits _ _ hpoint _ _ hexponent _ hsuffix =>
      rw [floatValue?_of_parts hdigits hpoint hexponent hsuffix, if_neg (by omega)]
      exact read?_of_two_signs _

theorem beq_iterate_negate (n : Nat) (x y : Floating) :
    (Floating.negate^[n] x).beq (Floating.negate^[n] y) = x.beq y := by
  induction n with
  | zero => rfl
  | succ n ih =>
    rw [Function.iterate_succ_apply', Function.iterate_succ_apply', Floating.beq_negate, ih]

/-! ## Comparison -/

/-- What a number token denotes behind `n` minus signs is compared equal to it with at most one
sign, and with two signs if it is a decimal integer; otherwise it is compared unequal. -/
theorem compare_negated :
    (∀ m, Negated .integer text n t → IntegerText text m → m < 2 ^ 127 →
      compare t (.int ((-1) ^ n * m)) =
        .ok (if n ≤ 1 ∨ n = 2 ∧ (radixOf text).1 = 10 then .equal else .notEqual)) ∧
    (∀ m k x, Negated .float text n t → FloatText text m k →
      double.Rounds (Decimal.mk false m k).value x →
      compare t (.float (Floating.negate^[n] x)) =
        .ok (if n ≤ 1 then .equal else .notEqual)) := by
  constructor
  · intro m ht htext hm
    have hread : ofTree? t = some (.integer (List.replicate n '-' ++ text)) :=
      ofTree?_of_negated rfl (fun _ => rfl) (fun _ => rfl) ht
    have hdenotes : (Literal.integer (List.replicate n '-' ++ text)).denotes
        (.int ((-1) ^ n * (m : Int))) = .ok (decide (n ≤ 1 ∨ n = 2 ∧ (radixOf text).1 = 10)) := by
      rw [Literal.denotes, integerValue_of_signs htext hm]
      split
      · next h => simp [h, Except.map]
      · next h => simp [h, Except.map]
    exact compare_of_ofTree? hread hdenotes decide_eq_true_iff
  · intro m k x ht htext hx
    have hread : ofTree? t = some (.float (List.replicate n '-' ++ text)) :=
      ofTree?_of_negated rfl (fun _ => rfl) (fun _ => rfl) ht
    have hy : double.Rounds (Decimal.mk false m k).value
        ((Decimal.mk false m k).toFloating double) := Decimal.toFloating_rounds hx.inRange
    have hequal : ((Decimal.mk false m k).toFloating double).beq x = true :=
      (hy.has.beq_iff hx.has).mpr (hy.value_eq double_valid hx)
    refine compare_of_ofTree? hread rfl ?_
    rw [floatValue?_of_signs htext]
    by_cases hn : n ≤ 1
    · rw [if_pos hn]
      dsimp only
      rw [beq_iterate_negate]
      exact iff_of_true hequal hn
    · rw [if_neg hn]
      exact iff_of_false Bool.false_ne_true hn

/-! ## Signs that are not read -/

/-- A number behind a minus sign. -/
def behindMinus (operand : Tree) : Tree :=
  .node .plain .unary ⟨0, 0⟩ [.leaf .plain .mark ⟨.mark, "-", 0, 0⟩, operand]

theorem Negated.behindMinus (h : Negated kind text n t) :
    Negated kind text (n + 1) (behindMinus t) := by
  have hnone : ∀ c ∈ ([] : List Tree), c.isComment = true := by simp
  exact .minus rfl rfl hnone h

/-- The literal `0x5`. -/
def hexFive : Tree := .leaf .plain .integer ⟨.integer, "0x5", 0, 0⟩

/-- The literal `1.5`. -/
def oneAndHalf : Tree := .leaf .plain .float ⟨.float, "1.5", 0, 0⟩

theorem integerText_five : IntegerText "0x5".toList 5 := by
  have hdigits : Digits 16 ['5'] 5 := .digit (d := 5) (Or.inl rfl) (by decide) .nil
  have hmark : (['0', 'x'], 16) ∈ radixMarks := by decide
  have htext : IntegerText (['0', 'x'] ++ (['5'] ++ [])) 5 :=
    .intro hmark hdigits (by decide) (by decide) (by decide)
  exact htext

theorem floatText_oneAndHalf : FloatText "1.5".toList 15 (-1) := by
  have hdigits : Digits 10 (['1'] ++ ['5']) 15 :=
    .digit (d := 1) (Or.inl rfl) (by decide) (.digit (d := 5) (Or.inl rfl) (by decide) .nil)
  have htext : FloatText (['1'] ++ (['.', '5'] ++ []) ++ []) 15 (0 - (1 : Nat)) :=
    .intro hdigits (by decide) (by decide) (.some ['5']) (by decide) (by simp) .none (by simp)
      (by decide)
  exact htext

/-- The double `1.5`, `3 * 2 ^ 51 / 2 ^ 52`. -/
def doubleOneAndHalf : Floating := .finite false 6755399441055744 (-52)

theorem doubleOneAndHalf_has : double.Has doubleOneAndHalf := ⟨by decide, _, _, _, rfl⟩

theorem doubleOneAndHalf_value : doubleOneAndHalf.value = (Decimal.mk false 15 (-1)).value := by
  norm_num [Decimal.value, doubleOneAndHalf, Floating.value, withSign]

theorem oneAndHalf_rounds : double.Rounds (Decimal.mk false 15 (-1)).value doubleOneAndHalf := by
  rw [← doubleOneAndHalf_value]
  exact doubleOneAndHalf_has.rounds

theorem compare_negated_five :
    Negated .integer "0x5".toList 1 (behindMinus hexFive) ∧ IntegerText "0x5".toList 5 ∧
    compare (behindMinus hexFive) (.int ((-1) ^ 1 * (5 : Nat))) = .ok .equal ∧
    Negated .float "1.5".toList 1 (behindMinus oneAndHalf) ∧ FloatText "1.5".toList 15 (-1) ∧
    double.Rounds (Decimal.mk false 15 (-1)).value doubleOneAndHalf ∧
    compare (behindMinus oneAndHalf) (.float (Floating.negate^[1] doubleOneAndHalf)) =
      .ok .equal := by
  have hinteger : Negated .integer "0x5".toList 1 (behindMinus hexFive) := .behindMinus (.token rfl)
  have hfloat : Negated .float "1.5".toList 1 (behindMinus oneAndHalf) := .behindMinus (.token rfl)
  exact ⟨hinteger, integerText_five,
    compare_negated.1 5 hinteger integerText_five (by decide), hfloat, floatText_oneAndHalf,
    oneAndHalf_rounds, compare_negated.2 15 (-1) _ hfloat floatText_oneAndHalf oneAndHalf_rounds⟩

/-- Numbers behind several signs are held against the values that they stand for, and the call that
has such a number as argument is not found. -/
theorem negated_twice_rejected :
    (Negated .integer "0x5".toList 2 (behindMinus (behindMinus hexFive)) ∧
      IntegerText "0x5".toList 5 ∧
      compare (behindMinus (behindMinus hexFive)) (.int ((-1) ^ 2 * (5 : Nat))) = .ok .notEqual) ∧
    (Negated .float "1.5".toList 2 (behindMinus (behindMinus oneAndHalf)) ∧
      FloatText "1.5".toList 15 (-1) ∧ double.Has doubleOneAndHalf ∧
      doubleOneAndHalf.value = (Decimal.mk false 15 (-1)).value ∧
      compare (behindMinus (behindMinus oneAndHalf))
        (.float (Floating.negate^[2] doubleOneAndHalf)) = .ok .notEqual) ∧
    resolve (.parse "fn t() \x7b x.should().be(--0x5); \x7d") "should" "be" 1 (.scalar (.int 5)) =
      .ok none := by
  have hinteger : Negated .integer "0x5".toList 0 hexFive := .token rfl
  have hfloat : Negated .float "1.5".toList 0 oneAndHalf := .token rfl
  refine ⟨⟨hinteger.behindMinus.behindMinus, integerText_five, rfl⟩,
    ⟨hfloat.behindMinus.behindMinus, floatText_oneAndHalf, doubleOneAndHalf_has,
      doubleOneAndHalf_value, rfl⟩, ?_⟩
  decide +kernel

end Attest.Call
