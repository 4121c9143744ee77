/-
  Words for all scalars. Each kind is spelt in a way that no earlier reading of a word takes for
  itself: a number has a point or an exponent unless it is an integer, and quotation marks stand in
  no number. Main statement (`Expected.ofWords_words`): whatever was expected is got back from its
  words, digits and words such as `null` between quotation marks included.
-/
import Attest.Proofs.Number.Written
import Attest.Proofs.Scalar.Word

namespace Attest

open Number

/-! ## Words -/

namespace Scalar

/-- The word for a scalar. Nothing between quotation marks is escaped. -/
def word : Scalar → String
  | null => "null"
  | bool b => if b then "true" else "false"
  | int i => toString i
  | float x => exactLayout.write double x
  | char c => String.ofList ['\'', c, '\'']
  | text s => String.ofList ('"' :: s.toList ++ ['"'])

/-- What a scalar can hold: integers of 128 bits, and doubles that are finite. -/
def Holds : Scalar → Prop
  | int i => scalarRange.has i = true
  | float x => double.Has x
  | _ => True

/-- A word that is none of the three keywords is read as a number, as a character or as a text. -/
theorem ofWord_of_first {w : String} {c : Char} {rest : List Char} (hw : w.toList = c :: rest)
    (hkeyword : c ≠ 'n' ∧ c ≠ 't' ∧ c ≠ 'f') :
    ofWord w = ((ofNumeric? (c :: rest)).or (ofCharacter? (c :: rest))).getD
      (text (((between? '"' (c :: rest)).map String.ofList).getD w)) := by
  have hne {k : Char} {ks : List Char} (hk : c ≠ k) : w ≠ String.ofList (k :: ks) := by
    intro h
    rw [h, String.toList_ofList] at hw
    exact hk (List.cons.inj hw).1.symm
  obtain ⟨hn, ht, hf⟩ := hkeyword
  have hnull : w ≠ "null" := hne hn
  have htrue : w ≠ "true" := hne ht
  have hfalse : w ≠ "false" := hne hf
  rw [ofWord, if_neg hnull, if_neg htrue, if_neg hfalse, hw]

end Scalar

/-! ## Numbers -/

/-- A character of a number with a point or an exponent. -/
def inNumeral (c : Char) : Bool := isDigit c || ['.', '-', '+', 'e', 'E'].contains c

theorem inNumeral_toString (x : Int) : ∀ c ∈ (toString x).toList, inNumeral c = true := by
  have hdigits : ∀ c ∈ Nat.toDigits 10 x.natAbs, inNumeral c = true := fun c hc => by
    rw [inNumeral, isDigit_toDigits _ c hc, Bool.true_or]
  rw [toList_toString_int]
  split
  · exact List.forall_mem_cons.2 ⟨by decide, hdigits⟩
  · exact hdigits

theorem Number.Spells.inNumeral {text : List Char} {q : ℚ} (h : Spells text q) :
    ∀ c ∈ text, inNumeral c = true := by
  obtain ⟨_, _, _, hwhole, -, hfraction, hpoint, hexponent⟩ := h
  have hdigit {c : Char} (hc : isDigit c = true) : Attest.inNumeral c = true := by
    rw [Attest.inNumeral, hc, Bool.true_or]
  refine List.forall_mem_append.2 ⟨fun c hc => hdigit (hwhole c hc),
    List.forall_mem_append.2 ⟨?_, ?_⟩⟩
  · cases hpoint with
    | none => exact fun _ hc => absurd hc List.not_mem_nil
    | some => exact List.forall_mem_cons.2 ⟨by decide, fun c hc => hdigit (hfraction c hc)⟩
  · rcases hexponent with ⟨rfl, -⟩ | rfl
    · exact fun _ hc => absurd hc List.not_mem_nil
    · exact List.forall_mem_cons.2 ⟨by decide, inNumeral_toString _⟩

/-- A number with a point or an exponent is none without. -/
theorem Number.mark_mem_magnitude {l : Layout} (hfraction : l.fraction = true) (m : Nat) (e : Int) :
    '.' ∈ l.magnitude double m e ∨ 'e' ∈ l.magnitude double m e := by
  rw [Layout.magnitude, hfraction]
  split
  · simp
  · generalize double.shortest m e = found
    dsimp only
    rw [Layout.digits, hfraction]
    split
    · left
      rw [placePoint]
      split
      · simp
      · split <;> simp
    · right
      simp [placeExponent]

namespace Scalar

/-- The first character is a sign or a digit. -/
theorem exists_first_write {x : Floating} (hx : double.Has x) :
    ∃ c cs, (exactLayout.write double x).toList = c :: cs ∧ c ≠ 'n' ∧ c ≠ 't' ∧ c ≠ 'f' := by
  obtain ⟨-, s, m, e, rfl⟩ := hx
  obtain ⟨c, cs, hcs, hc⟩ := (exactLayout.spells_magnitude m e).exists_first_digit
  have hletter : c ≠ 'n' ∧ c ≠ 't' ∧ c ≠ 'f' := by
    refine ⟨?_, ?_, ?_⟩ <;> rintro rfl <;> contradiction
  rw [Layout.toList_write, hcs]
  cases s with
  | false => exact ⟨c, cs, rfl, hletter⟩
  | true => exact ⟨'-', c :: cs, rfl, by decide⟩

theorem ofNumeric?_write {x : Floating} (hx : double.Has x) :
    ofNumeric? (exactLayout.write double x).toList = some (float x) := by
  have hread := read?_write exactLayout hx
  obtain ⟨-, s, m, e, rfl⟩ := hx
  rw [Layout.toList_write] at hread ⊢
  have hspells := exactLayout.spells_magnitude m e
  have htext : ∀ c ∈ exactLayout.magnitude double m e,
      c ∈ Call.signedText s (exactLayout.magnitude double m e) := by
    intro c hc
    cases s with
    | false => exact hc
    | true => exact List.mem_cons_of_mem _ hc
  have hinteger : scalarRange.read? 10
      (Call.signedText s (exactLayout.magnitude double m e)) = none := by
    rcases mark_mem_magnitude (l := exactLayout) rfl m e with hmark | hmark
    · exact read?_of_not_digit (by decide) (by decide) (by decide) (htext _ hmark)
    · exact read?_of_not_digit (by decide) (by decide) (by decide) (htext _ hmark)
  have hlooks : looksNumeric (Call.signedText s (exactLayout.magnitude double m e)) = true := by
    obtain ⟨c, cs, hcs, hc⟩ := hspells.exists_first_digit
    rw [looksNumeric, Bool.and_eq_true, List.any_eq_true, List.all_eq_true]
    refine ⟨⟨c, htext c (by rw [hcs]; exact List.mem_cons_self), hc⟩, ?_⟩
    cases s with
    | false => exact hspells.inNumeral
    | true => exact List.forall_mem_cons.2 ⟨by decide, hspells.inNumeral⟩
  rw [ofNumeric?, hinteger, hlooks, hread]
  rfl

/-! ## Quotation marks -/

/-- A quotation mark stands in no number. -/
theorem ofNumeric?_quoted {mark : Char} (hmark : mark = '\'' ∨ mark = '"') (cs : List Char) :
    ofNumeric? (mark :: cs) = none := by
  have hlooks : looksNumeric (mark :: cs) = false := by
    rw [looksNumeric, List.all_cons]
    rcases hmark with rfl | rfl
    · exact Bool.and_false _
    · exact Bool.and_false _
  have hinteger : scalarRange.read? 10 (mark :: cs) = none := by
    rcases hmark with rfl | rfl
    · exact read?_of_not_digit (by decide) (by decide) (by decide) List.mem_cons_self
    · exact read?_of_not_digit (by decide) (by decide) (by decide) List.mem_cons_self
  rw [ofNumeric?, hinteger, hlooks]
  rfl

theorem between?_quoted (mark : Char) (cs : List Char) :
    between? mark (mark :: (cs ++ [mark])) = some cs := by
  simp [between?]

/-- Every scalar is got back from its word. -/
theorem ofWord_word {s : Scalar} (h : s.Holds) : ofWord s.word = s := by
  cases s with
  | null => rfl
  | bool b => cases b <;> rfl
  | int i =>
    obtain ⟨hlow, hhigh⟩ := (Call.scalarRange_has_iff i).1 h
    exact (ofWord_toString hlow (by omega)).trans (if_pos hhigh)
  | float x =>
    have hnumeric := ofNumeric?_write h
    obtain ⟨c, cs, hcs, hkeyword⟩ := exists_first_write h
    rw [hcs] at hnumeric
    rw [word, ofWord_of_first hcs hkeyword, hnumeric]
    rfl
  | char c =>
    have hread : ofCharacter? ['\'', c, '\''] = some (char c) := by
      have hbetween : between? '\'' ['\'', c, '\''] = some [c] := between?_quoted '\'' [c]
      rw [ofCharacter?, hbetween]
    rw [word, ofWord_of_first (String.toList_ofList) (by decide), ofNumeric?_quoted (Or.inl rfl),
      hread]
    rfl
  | text s =>
    have hcharacter : ofCharacter? ('"' :: (s.toList ++ ['"'])) = none := rfl
    rw [word, List.cons_append, ofWord_of_first (String.toList_ofList) (by decide),
      ofNumeric?_quoted (Or.inr rfl), hcharacter, between?_quoted]
    simp

end Scalar

namespace Expected

def isSequence : Expected → Bool
  | scalar _ => false
  | sequence _ => true

def scalars : Expected → List Scalar
  | scalar s => [s]
  | sequence ss => ss

/-- Whatever was expected is got back from the words for its scalars and the sequence flag. -/
theorem ofWords_words {e : Expected} (h : ∀ s ∈ e.scalars, s.Holds) :
    ofWords e.isSequence (e.scalars.map Scalar.word) = e := by
  cases e with
  | scalar s => exact congrArg scalar (Scalar.ofWord_word (h s List.mem_cons_self))
  | sequence ss =>
    have hwords : (ss.map Scalar.word).map Scalar.ofWord = ss := by
      rw [List.map_map]
      conv_rhs => rw [← List.map_id ss]
      exact List.map_congr_left fun s hs => Scalar.ofWord_word (h s hs)
    have hflag (ws : List String) : ofWords true ws = sequence (ws.map Scalar.ofWord) := by
      unfold ofWords
      split
      · contradiction
      · rfl
    exact (hflag _).trans (congrArg sequence hwords)

/-- Values of all kinds, with words that look like others between their quotation marks. -/
def lookalikes : List Scalar :=
  [.null, .bool true, .int (-2 ^ 127), .float (.finite true 1 (-1074)),
    .float (.finite true 0 (-1074)), .char '\'', .char '"', .text "null", .text "1e5", .text "\"",
    .text "'x'"]

theorem ofWords_words_lookalikes :
    (∀ s ∈ (sequence lookalikes).scalars, s.Holds) ∧
      lookalikes.map Scalar.word =
        ["null", "true", "-170141183460469231731687303715884105728", "-5e-324", "-0.0", "'''",
          "'\"'", "\"null\"", "\"1e5\"", "\"\"\"", "\"'x'\""] ∧
      ofWords true (lookalikes.map Scalar.word) = sequence lookalikes := by
  have hleast : double.Has (.finite true 1 (-1074)) := ⟨by decide, _, _, _, rfl⟩
  have hzero : double.Has (.finite true 0 (-1074)) := ⟨by decide, _, _, _, rfl⟩
  have hholds : ∀ s ∈ (sequence lookalikes).scalars, s.Holds := by
    simp only [scalars, lookalikes, List.forall_mem_cons, Scalar.Holds, hleast, hzero, true_and]
    exact ⟨by decide, fun _ h => nomatch h⟩
  exact ⟨hholds, by decide +kernel, ofWords_words hholds⟩

end Expected

end Attest
