/-
  What the text of a variable is taken for. Main statements: each kind of text is taken for what
  it spells (`datumOfVariable_of_bool`, `datumOfVariable_of_integer`), and a text that spells
  neither a truth value nor a number stays a text or a list of texts (`datumOfVariable_of_plain`).
-/
import Attest.Config.Layer
import Attest.Proofs.Number.Digits

namespace Attest

open Number

/-- The text spells neither a truth value nor a number. -/
structure IsPlain (text : String) : Prop where
  notTrue : lower text ≠ "true"
  notFalse : lower text ≠ "false"
  notInteger : (signed 64).read? 10 text.toList = none
  notNumber : double.read? text.toList = none

instance (text : String) : Decidable (IsPlain text) :=
  decidable_of_iff (lower text ≠ "true" ∧ lower text ≠ "false" ∧
      (signed 64).read? 10 text.toList = none ∧ double.read? text.toList = none)
    ⟨fun ⟨htrue, hfalse, hinteger, hnumber⟩ => ⟨htrue, hfalse, hinteger, hnumber⟩,
      fun h => ⟨h.notTrue, h.notFalse, h.notInteger, h.notNumber⟩⟩

variable {key text : String} {cs : List Char}

theorem datumOfVariable_of_bool {b : Bool} (h : lower text = if b then "true" else "false") :
    datumOfVariable key text = .bool b := by
  rw [datumOfVariable, h]
  cases b <;> rfl

theorem datumOfVariable_of_plain (h : IsPlain text) :
    datumOfVariable key text =
      if key = sourceRootsKey then .list ((Text.splitString ',' text).map .text) else .text text := by
  rw [datumOfVariable, if_neg h.notTrue, if_neg h.notFalse, h.notInteger, h.notNumber]

/-! ## Integers -/

theorem toLower_of_digitValue? {c : Char} {d : Nat} (h : digitValue? 10 c = some d) :
    c.toLower = c := by
  obtain ⟨hc, hd⟩ := digitOf_of_digitValue? h
  have hall : ∀ i < 10, (digitChars i).all (fun x => x.toLower == x) = true := by decide
  exact beq_iff_eq.1 (hc.of_all_lt (p := fun _ x => x.toLower == x) hd hall)

/-- No integer is spelled with letters, whatever their case. -/
theorem lower_ne_of_read? {r : Range} {i : Int} (h : r.read? 10 text.toList = some i) (c : Char)
    (rest : List Char) (hplus : c ≠ '+') (hminus : c ≠ '-') (hdigit : digitValue? 10 c = none) :
    lower text ≠ String.ofList (c :: rest) := by
  intro hlower
  have hlist : lowerAscii text.toList = c :: rest := by
    rw [lower] at hlower
    exact String.ofList_injective hlower
  obtain ⟨x, tail, hx, hfirst, -⟩ := List.map_eq_cons_iff.1 hlist
  have hxplus : x ≠ '+' := by
    rintro rfl
    exact hplus hfirst.symm
  have hxminus : x ≠ '-' := by
    rintro rfl
    exact hminus hfirst.symm
  have hxdigit : digitValue? 10 x = none := by
    cases hd : digitValue? 10 x with
    | none => rfl
    | some d =>
      rw [toLower_of_digitValue? hd] at hfirst
      rw [hfirst, hdigit] at hd
      cases hd
  rw [hx, read?_of_not_digit hxplus hxminus hxdigit List.mem_cons_self] at h
  cases h

theorem datumOfVariable_of_integer {i : Int} (h : (signed 64).read? 10 text.toList = some i) :
    datumOfVariable key text = .int i := by
  have htrue : lower text ≠ "true" :=
    lower_ne_of_read? h 't' "rue".toList (by decide) (by decide) (by decide)
  have hfalse : lower text ≠ "false" :=
    lower_ne_of_read? h 'f' "alse".toList (by decide) (by decide) (by decide)
  rw [datumOfVariable, if_neg htrue, if_neg hfalse, h]

/-! ## Texts with a comma -/

theorem readExponent?_comma (h : ',' ∈ cs) : readExponent? cs = none := by
  have hall {ds : List Char} (hds : ',' ∈ ds) : ds.all isDigit = false := by
    rw [List.all_eq_false]
    exact ⟨',', hds, by decide⟩
  unfold readExponent?
  split
  next negative ds heq =>
    have hds : ',' ∈ ds := by
      split at heq
      · obtain ⟨-, rfl⟩ := Prod.mk.inj heq
        simpa using h
      · obtain ⟨-, rfl⟩ := Prod.mk.inj heq
        simpa using h
      · obtain ⟨-, rfl⟩ := Prod.mk.inj heq
        exact h
    simp [hall hds]

theorem mem_dropWhile_comma (h : ',' ∈ cs) : ',' ∈ cs.dropWhile isDigit := by
  rw [← List.takeWhile_append_dropWhile (p := isDigit) (l := cs), List.mem_append] at h
  refine h.resolve_left fun hmem => ?_
  exact absurd (List.all_eq_true.1 List.all_takeWhile _ hmem) (by decide)

theorem readUnsigned?_comma (negative : Bool) (h : ',' ∈ cs) : readUnsigned? negative cs = none := by
  have hrest := mem_dropWhile_comma h
  rw [readUnsigned?]
  split
  next fraction rest heq =>
    have hcomma : ',' ∈ rest := by
      split at heq
      · next hpoint =>
        obtain ⟨-, rfl⟩ := Prod.mk.inj heq
        rw [hpoint] at hrest
        exact mem_dropWhile_comma (by simpa using hrest)
      · obtain ⟨-, rfl⟩ := Prod.mk.inj heq
        exact hrest
    split
    · rfl
    · split
      · simp at hcomma
      · split
        · next c r hmark =>
          have hmark : c ≠ ',' := by
            rintro rfl
            simp at hmark
          rw [readExponent?_comma ((List.mem_cons.1 hcomma).resolve_left (Ne.symm hmark))]
          rfl
        · rfl

theorem lower_ne_of_comma (h : ',' ∈ cs) {word : String} (hword : ',' ∉ word.toList) :
    String.ofList (lowerAscii cs) ≠ word := by
  rintro rfl
  rw [String.toList_ofList] at hword
  exact hword (List.mem_map.2 ⟨',', h, by decide⟩)

theorem readWord?_comma (negative : Bool) (h : ',' ∈ cs) : readWord? negative cs = none := by
  have hne {word : String} (hword : ',' ∉ word.toList) :
      (String.ofList (lowerAscii cs) == word) = false :=
    beq_false_of_ne (lower_ne_of_comma h hword)
  rw [readWord?, hne (by decide), hne (by decide), hne (by decide)]
  rfl

theorem format_read?_comma (f : Format) (h : ',' ∈ cs) : f.read? cs = none := by
  unfold Format.read?
  split
  next negative body heq =>
    have hbody : ',' ∈ body := by
      split at heq
      · obtain ⟨-, rfl⟩ := Prod.mk.inj heq
        simpa using h
      · obtain ⟨-, rfl⟩ := Prod.mk.inj heq
        simpa using h
      · obtain ⟨-, rfl⟩ := Prod.mk.inj heq
        exact h
    rw [readUnsigned?_comma negative hbody]
    exact readWord?_comma negative hbody

/-- A list of several texts is never taken for anything else. -/
theorem isPlain_of_comma (h : ',' ∈ text.toList) : IsPlain text where
  notTrue := lower_ne_of_comma h (by decide)
  notFalse := lower_ne_of_comma h (by decide)
  notInteger := read?_of_not_digit (by decide) (by decide) (by decide) h
  notNumber := format_read?_comma _ h

/-! ## Names -/

/-- What a name begins with begins no number that has digits. -/
theorem isIdentifier_first (h : isIdentifier cs = true) : ∃ c rest, cs = c :: rest ∧ c ≠ '+' ∧
    c ≠ '-' ∧ c ≠ '.' ∧ digitValue? 10 c = none := by
  cases cs with
  | nil => cases h
  | cons c rest =>
    have hfirst : (c == '_' || Text.isAlphabetic c) = true := (isIdentifier_cons.1 h).1
    have hne {x : Char} (hx : (x == '_' || Text.isAlphabetic x) = false) : c ≠ x := by
      rintro rfl
      rw [hx] at hfirst
      cases hfirst
    refine ⟨c, rest, rfl, hne (by decide), hne (by decide), hne (by decide), ?_⟩
    cases hdigit : digitValue? 10 c with
    | none => rfl
    | some d =>
      obtain ⟨hc, hd⟩ := digitOf_of_digitValue? hdigit
      have hall := hc.of_all_lt (p := fun _ x => !(x == '_' || Text.isAlphabetic x)) hd (by decide)
      rw [hfirst] at hall
      cases hall

theorem readUnsigned?_of_first {negative : Bool} {c : Char} {rest : List Char} (hpoint : c ≠ '.')
    (hdigit : digitValue? 10 c = none) : readUnsigned? negative (c :: rest) = none := by
  have hc : isDigit c = false := by
    cases hisDigit : isDigit c with
    | false => rfl
    | true =>
      have := isSome_digitValue? hisDigit
      rw [hdigit] at this
      cases this
  have htake : (c :: rest).takeWhile isDigit = [] := List.takeWhile_cons_of_neg (by simp [hc])
  have hdrop : (c :: rest).dropWhile isDigit = c :: rest := List.dropWhile_cons_of_neg (by simp [hc])
  rw [readUnsigned?, htake, hdrop]
  split
  next fraction rest' heq =>
    split at heq
    · next hcons => exact absurd (List.cons.inj hcons).1 hpoint
    · obtain ⟨rfl, -⟩ := Prod.mk.inj heq
      rfl

/-- The only numbers that are spelled like names are those that have no digits. -/
theorem format_read?_of_isIdentifier (f : Format) (h : isIdentifier cs = true) :
    f.read? cs = readWord? false cs := by
  obtain ⟨c, rest, rfl, hplus, hminus, hpoint, hdigit⟩ := isIdentifier_first h
  unfold Format.read?
  split
  next negative body heq =>
    split at heq
    · next hcons => exact absurd (List.cons.inj hcons).1 hplus
    · next hcons => exact absurd (List.cons.inj hcons).1 hminus
    · obtain ⟨rfl, rfl⟩ := Prod.mk.inj heq
      rw [readUnsigned?_of_first hpoint hdigit]

theorem read?_of_isIdentifier (r : Range) (h : isIdentifier cs = true) : r.read? 10 cs = none := by
  obtain ⟨c, rest, rfl, hplus, hminus, -, hdigit⟩ := isIdentifier_first h
  exact read?_of_not_digit hplus hminus hdigit List.mem_cons_self

end Attest
