/-
  Lexemes. Each function that reads a lexeme gives characters off the front of the text
  (`lexeme_isPrefix`), so a scanner that drops as many characters as the lexeme has drops the
  lexeme. Names do not begin with a digit; integers do, and hold only digits, Latin letters and
  underscores.
-/
import Attest.Syntax.Token

namespace Attest.Syntax

open Text (isNameStart isNameContinue)

/-! ## Comments and quoted texts -/

theorem blockCommentRest_isPrefix (depth : Nat) (cs : List Char) :
    blockCommentRest depth cs <+: cs := by
  fun_induction blockCommentRest depth cs with
  | case1 => exact List.prefix_rfl
  | case2 depth cs ih => simpa using ih
  | case3 cs => exact ⟨cs, rfl⟩
  | case4 depth cs ih => simpa using ih
  | case5 depth c cs _ _ _ ih => simpa using ih

theorem comment?_isPrefix {cs l : List Char} {kind : TokenKind} (h : comment? cs = some (kind, l)) :
    l <+: cs := by
  unfold comment? at h
  split at h
  · obtain ⟨-, rfl⟩ := Prod.mk.inj (Option.some.inj h)
    simpa using List.takeWhile_prefix _
  · obtain ⟨-, rfl⟩ := Prod.mk.inj (Option.some.inj h)
    simpa using blockCommentRest_isPrefix 0 _
  · contradiction

theorem quotedRest_isPrefix (cs : List Char) : quotedRest cs <+: cs := by
  fun_induction quotedRest cs with
  | case1 => exact List.prefix_rfl
  | case2 c cs ih => simpa using ih
  | case3 cs => exact ⟨cs, rfl⟩
  | case4 c cs _ _ ih => simpa using ih

theorem text?_isPrefix {cs l : List Char} (h : text? cs = some l) : l <+: cs := by
  unfold text? at h
  split at h
  all_goals first
    | contradiction
    | obtain rfl := Option.some.inj h
      simpa using quotedRest_isPrefix _

theorem rawRest_isPrefix (hashes cs : List Char) : rawRest hashes cs <+: cs := by
  induction cs with
  | nil => exact List.prefix_rfl
  | cons c cs ih =>
    rw [rawRest]
    split
    · next h =>
      have hp : hashes <+: cs := List.isPrefixOf_iff_prefix.mp (Bool.and_eq_true_iff.mp h).2
      simpa using hp
    · simpa using ih

theorem rawBody?_isPrefix {cs l : List Char} (h : rawBody? cs = some l) : l <+: cs := by
  unfold rawBody? at h
  split at h
  · next cs =>
    dsimp only at h
    split at h
    · next rest hrest =>
      obtain rfl := Option.some.inj h
      have hcs : cs = cs.takeWhile (· == '#') ++ '"' :: rest := by
        rw [← hrest, List.takeWhile_append_dropWhile]
      conv => rhs; rw [hcs]
      simpa using rawRest_isPrefix _ rest
    · contradiction
  · contradiction

theorem rawText?_isPrefix {cs l : List Char} (h : rawText? cs = some l) : l <+: cs := by
  unfold rawText? at h
  split at h
  · obtain ⟨m, hm, rfl⟩ := Option.map_eq_some_iff.mp h
    simpa using rawBody?_isPrefix hm
  · obtain ⟨m, hm, rfl⟩ := Option.map_eq_some_iff.mp h
    simpa using rawBody?_isPrefix hm
  · exact rawBody?_isPrefix h

/-! ## Characters -/

theorem escape?_isPrefix {cs e : List Char} (h : escape? cs = some e) : e <+: cs := by
  unfold escape? at h
  split at h
  · split at h
    · obtain rfl := Option.some.inj h
      simp
    · contradiction
  · contradiction
  · next cs =>
    dsimp only at h
    split at h
    · next hdigits hrest =>
      obtain rfl := Option.some.inj h
      have hcs : cs = cs.takeWhile isHexDigit ++ cs.dropWhile isHexDigit :=
        List.takeWhile_append_dropWhile.symm
      conv => rhs; rw [hcs]
      rw [hdigits, hrest]
      simp
    · contradiction
  · next cs _ =>
    dsimp only at h
    split at h
    · obtain rfl := Option.some.inj h
      simpa using (List.takeWhile_prefix isHexDigit).trans (List.take_prefix 4 cs)
    · contradiction
  · obtain rfl := Option.some.inj h
    simp
  · contradiction

/-- A character that is neither a quotation mark nor a backslash stands for itself. -/
theorem charBody?_plain {c : Char} (hempty : c ≠ '\'') (hescape : c ≠ '\\') (cs : List Char) :
    charBody? ('\'' :: c :: cs) =
      if cs.head? = some '\'' then some ['\'', c, '\''] else none := by
  split
  · next h =>
    obtain ⟨rest, rfl⟩ := List.head?_eq_some_iff.mp h
    rw [charBody?]
    · exact hempty
    · exact hescape
  · next h =>
    rw [charBody?]
    · intro rest hrest
      exact hempty (List.cons.inj (List.cons.inj hrest).2).1
    · intro rest hrest
      exact hescape (List.cons.inj (List.cons.inj hrest).2).1
    · intro d rest hrest
      rw [(List.cons.inj (List.cons.inj hrest).2).2] at h
      exact h rfl

theorem charBody?_isPrefix {cs l : List Char} (h : charBody? cs = some l) : l <+: cs := by
  unfold charBody? at h
  split at h
  · obtain rfl := Option.some.inj h
    simp
  · next cs =>
    split at h
    · next e he =>
      split at h
      · next hquote =>
        obtain rfl := Option.some.inj h
        obtain ⟨rest, rfl⟩ := escape?_isPrefix he
        rw [List.drop_left] at hquote
        obtain ⟨tail, rfl⟩ := List.head?_eq_some_iff.mp hquote
        simp
      · contradiction
    · contradiction
  · obtain rfl := Option.some.inj h
    simp
  · contradiction

theorem char?_isPrefix {cs l : List Char} (h : char? cs = some l) : l <+: cs := by
  unfold char? at h
  split at h
  · obtain ⟨m, hm, rfl⟩ := Option.map_eq_some_iff.mp h
    simpa using charBody?_isPrefix hm
  · exact charBody?_isPrefix h

/-! ## Names -/

theorem word?_isPrefix {cs l : List Char} (h : word? cs = some l) : l <+: cs := by
  unfold word? at h
  split at h
  · split at h
    all_goals
      obtain rfl := Option.some.inj h
      simp [List.takeWhile_prefix]
  · split at h
    · obtain rfl := Option.some.inj h
      simpa using List.takeWhile_prefix _
    · contradiction
  · contradiction

theorem isDecimal_of_isNameStart {c : Char} (h : isNameStart c = true) : isDecimal c = false := by
  rw [Bool.eq_false_iff]
  intro hd
  have hle : '0' ≤ c ∧ c ≤ '9' := by simpa [isDecimal] using hd
  have hlow : c.toNat < 65 := by
    have := Char.le_def.mp hle.2
    rw [UInt32.le_iff_toNat_le] at this
    exact Nat.lt_of_le_of_lt this (by decide)
  -- The first range of letters starts at 65.
  have hnone : Text.identifierStartRanges.has c.toNat = false := by
    unfold Text.identifierStartRanges
    exact if_pos hlow
  have hne : (c == '_') = false := by
    rw [beq_eq_false_iff_ne]
    rintro rfl
    exact absurd hd (by decide)
  rw [isNameStart, hnone, hne] at h
  contradiction

/-- A name is not empty and does not begin with a digit. -/
theorem word?_head {cs l : List Char} (h : word? cs = some l) :
    ∃ c rest, l = c :: rest ∧ isDecimal c = false := by
  unfold word? at h
  split at h
  · split at h
    all_goals
      obtain rfl := Option.some.inj h
      exact ⟨'r', _, rfl, by decide⟩
  · split at h
    · next hc =>
      obtain rfl := Option.some.inj h
      exact ⟨_, _, rfl, isDecimal_of_isNameStart hc⟩
    · contradiction
  · contradiction

/-- No point stands in a name. -/
theorem word?_not_mem_point {cs l : List Char} (h : word? cs = some l) : '.' ∉ l := by
  have hcontinue : isNameContinue '.' = false := by decide +kernel
  have hstart : isNameStart '.' = false := by decide +kernel
  have hname (c : Char) (cs : List Char) (hc : isNameStart c = true) :
      '.' ∉ c :: cs.takeWhile isNameContinue := by
    rw [List.mem_cons, not_or]
    refine ⟨?_, fun hmem => ?_⟩
    · rintro rfl
      exact Bool.eq_false_iff.mp hstart hc
    · exact Bool.eq_false_iff.mp hcontinue (List.all_eq_true.mp List.all_takeWhile _ hmem)
  unfold word? at h
  split at h
  · split at h
    · next hc =>
      obtain rfl := Option.some.inj h
      simpa using hname _ _ hc
    · obtain rfl := Option.some.inj h
      decide
  · split at h
    · next hc =>
      obtain rfl := Option.some.inj h
      exact hname _ _ hc
    · contradiction
  · contradiction

/-! ## Numbers -/

theorem fraction?_isPrefix {cs l : List Char} (h : fraction? cs = some l) : l <+: cs := by
  unfold fraction? at h
  split at h
  · split at h
    · split at h
      · contradiction
      · obtain rfl := Option.some.inj h
        simpa using List.takeWhile_prefix _
    · obtain rfl := Option.some.inj h
      exact List.prefix_rfl
  · obtain rfl := Option.some.inj h
    simp

/-- A filtered first character is either there or not. -/
theorem filter_take_one_isPrefix (p : Char → Bool) (cs : List Char) :
    (cs.take 1).filter p <+: cs := by
  cases cs with
  | nil => simp
  | cons c cs =>
    rw [List.take_succ_cons, List.take_zero]
    cases h : p c <;> simp [h]

theorem exponent?_isPrefix {cs l : List Char} (h : exponent? cs = some l) : l <+: cs := by
  unfold exponent? at h
  split at h
  · next c cs =>
    split at h
    · dsimp only at h
      split at h
      · obtain rfl := Option.some.inj h
        simp
      · obtain rfl := Option.some.inj h
        obtain ⟨rest, hrest⟩ := filter_take_one_isPrefix (fun s => s == '+' || s == '-') cs
        have hdrop : cs.drop ((cs.take 1).filter fun s => s == '+' || s == '-').length = rest := by
          conv => lhs; arg 2; rw [← hrest]
          exact List.drop_left
        rw [hdrop]
        conv => rhs; rw [← hrest]
        simpa using List.takeWhile_prefix _
    · contradiction
  · contradiction

theorem floatSuffix_isPrefix (cs : List Char) : floatSuffix cs <+: cs := by
  unfold floatSuffix
  split
  · split
    · split
      · simp
      · simpa using List.takeWhile_prefix _
    · simp
  · simp

/-- What is read behind a first part extends it. -/
theorem append_prefix_of_drop {a b cs : List Char} (ha : a <+: cs) (hb : b <+: cs.drop a.length) :
    a ++ b <+: cs := by
  obtain ⟨rest, rfl⟩ := ha
  rw [List.drop_left] at hb
  simpa using hb

theorem float?_isPrefix {cs l : List Char} (h : float? cs = some l) : l <+: cs := by
  unfold float? at h
  dsimp only at h
  split at h
  · contradiction
  · next fraction hfraction =>
    have hbody :=
      append_prefix_of_drop (List.takeWhile_prefix isDecimalPart) (fraction?_isPrefix hfraction)
    split at h
    · obtain rfl := Option.some.inj h
      exact hbody
    · next hexponent =>
      obtain rfl := Option.some.inj h
      exact append_prefix_of_drop (append_prefix_of_drop hbody (exponent?_isPrefix hexponent))
        (floatSuffix_isPrefix _)
    · split at h
      · contradiction
      · obtain rfl := Option.some.inj h
        exact append_prefix_of_drop hbody (floatSuffix_isPrefix _)

theorem integerSuffix_isPrefix (cs : List Char) : integerSuffix cs <+: cs := by
  unfold integerSuffix
  cases h : (numericTypes.map String.toList).find? fun s => s.isPrefixOf cs with
  | none => simp
  | some s =>
    have hs := List.find?_some h
    exact List.isPrefixOf_iff_prefix.mp hs

theorem radixDigits_isPrefix (mark : Char) (accepts : Char → Bool) (cs : List Char) :
    radixDigits mark accepts cs <+: '0' :: mark :: cs := by
  unfold radixDigits
  split
  · simp
  · simpa using List.takeWhile_prefix _

theorem integerDigits_isPrefix (cs : List Char) : integerDigits cs <+: cs := by
  unfold integerDigits
  split
  · exact radixDigits_isPrefix _ _ _
  · exact radixDigits_isPrefix _ _ _
  · exact radixDigits_isPrefix _ _ _
  · exact List.takeWhile_prefix _

theorem integer_isPrefix (cs : List Char) : integer cs <+: cs :=
  append_prefix_of_drop (integerDigits_isPrefix cs) (integerSuffix_isPrefix _)

theorem number?_isPrefix {member : Bool} {cs l : List Char} {kind : TokenKind}
    (h : number? member cs = some (kind, l)) : l <+: cs := by
  unfold number? at h
  split at h
  · split at h
    · split at h
      · next hfloat =>
        obtain ⟨-, rfl⟩ := Prod.mk.inj (Option.some.inj h)
        exact float?_isPrefix hfloat
      · obtain ⟨-, rfl⟩ := Prod.mk.inj (Option.some.inj h)
        exact integer_isPrefix _
    · contradiction
  · contradiction

/-- The characters of integers: digits of any radix, radix marks, suffixes, underscores. -/
def isNumeral (c : Char) : Bool := c == '_' || isDecimal c || isLatinLetter c

/-- An integer begins with a digit, and the rest of it looks like one name. -/
structure IsInteger (l : List Char) : Prop where
  head : ∃ c rest, l = c :: rest ∧ isDecimal c = true
  chars : ∀ c ∈ l, isNumeral c = true

theorem isNumeral_of_isHexDigit {c : Char} (h : isHexDigit c = true) : isNumeral c = true := by
  simp only [isHexDigit, Bool.or_eq_true, Bool.and_eq_true, decide_eq_true_eq] at h
  simp only [isNumeral, isDecimal, isLatinLetter, Bool.or_eq_true, Bool.and_eq_true,
    decide_eq_true_eq]
  rcases h with (h | h) | h
  · exact Or.inl (Or.inr h)
  · exact Or.inr (Or.inl ⟨h.1, Char.le_trans h.2 (by decide)⟩)
  · exact Or.inr (Or.inr ⟨h.1, Char.le_trans h.2 (by decide)⟩)

theorem isNumeral_of_isDecimalPart {c : Char} (h : isDecimalPart c = true) :
    isNumeral c = true := by
  rw [isDecimalPart, Bool.or_eq_true] at h
  rw [isNumeral, Bool.or_eq_true, Bool.or_eq_true]
  exact Or.inl h

theorem isNumeral_of_hexPart {c : Char} (h : (c == '_' || isHexDigit c) = true) :
    isNumeral c = true := by
  rcases Bool.or_eq_true_iff.mp h with h | h
  · rw [eq_of_beq h]
    decide
  · exact isNumeral_of_isHexDigit h

theorem isNumeral_of_octalPart {c : Char} (h : (c == '_' || ('0' ≤ c && c ≤ '7')) = true) :
    isNumeral c = true := by
  rcases Bool.or_eq_true_iff.mp h with h | h
  · rw [eq_of_beq h]
    decide
  · simp only [Bool.and_eq_true, decide_eq_true_eq] at h
    have hd : isDecimal c = true := by
      simpa [isDecimal] using And.intro h.1 (Char.le_trans h.2 (by decide))
    simp [isNumeral, hd]

theorem isNumeral_of_binaryPart {c : Char} (h : (c == '_' || c == '0' || c == '1') = true) :
    isNumeral c = true := by
  simp only [Bool.or_eq_true, beq_iff_eq] at h
  rcases h with (rfl | rfl) | rfl
  · decide
  · decide
  · decide

theorem radixDigits_chars {mark : Char} {accepts : Char → Bool} (hmark : isNumeral mark = true)
    (haccepts : ∀ c, accepts c = true → isNumeral c = true) (cs : List Char) :
    ∀ c ∈ radixDigits mark accepts cs, isNumeral c = true := by
  intro c hc
  unfold radixDigits at hc
  split at hc
  · rw [List.mem_singleton.mp hc]
    decide
  · rcases List.mem_cons.mp hc with rfl | hc
    · decide
    rcases List.mem_cons.mp hc with rfl | hc
    · exact hmark
    · exact haccepts c (List.all_eq_true.mp List.all_takeWhile c hc)

theorem integerDigits_chars (cs : List Char) : ∀ c ∈ integerDigits cs, isNumeral c = true := by
  unfold integerDigits
  split
  · exact radixDigits_chars (by decide) (fun _ => isNumeral_of_hexPart) _
  · exact radixDigits_chars (by decide) (fun _ => isNumeral_of_octalPart) _
  · exact radixDigits_chars (by decide) (fun _ => isNumeral_of_binaryPart) _
  · intro c hc
    exact isNumeral_of_isDecimalPart (List.all_eq_true.mp List.all_takeWhile c hc)

theorem integerSuffix_chars (cs : List Char) : ∀ c ∈ integerSuffix cs, isNumeral c = true := by
  unfold integerSuffix
  cases h : (numericTypes.map String.toList).find? fun s => s.isPrefixOf cs with
  | none => simp
  | some s =>
    have hall : ∀ s ∈ numericTypes.map String.toList, s.all isNumeral = true := by decide
    exact List.all_eq_true.mp (hall s (List.mem_of_find?_eq_some h))

theorem integerDigits_head {c : Char} (cs : List Char) (h : isDecimal c = true) :
    ∃ d rest, integerDigits (c :: cs) = d :: rest ∧ isDecimal d = true := by
  unfold integerDigits
  split
  all_goals first
    | (unfold radixDigits
       split
       · exact ⟨'0', _, rfl, by decide⟩
       · exact ⟨'0', _, rfl, by decide⟩)
    | exact ⟨c, _, by rw [List.takeWhile_cons_of_pos (by simp [isDecimalPart, h])], h⟩

theorem isInteger_integer {c : Char} (cs : List Char) (h : isDecimal c = true) :
    IsInteger (integer (c :: cs)) := by
  refine ⟨?_, ?_⟩
  · obtain ⟨d, rest, hd, hdec⟩ := integerDigits_head cs h
    exact ⟨d, _, by rw [integer, hd, List.cons_append], hdec⟩
  · intro x hx
    rcases List.mem_append.mp hx with hx | hx
    · exact integerDigits_chars _ x hx
    · exact integerSuffix_chars _ x hx

theorem number?_integer {member : Bool} {cs l : List Char}
    (h : number? member cs = some (.integer, l)) : IsInteger l := by
  unfold number? at h
  split at h
  · split at h
    · next hc =>
      split at h
      · simp at h
      · obtain ⟨-, rfl⟩ := Prod.mk.inj (Option.some.inj h)
        exact isInteger_integer _ hc
    · contradiction
  · contradiction

/-- A number is an integer or a float. -/
theorem number?_kind {member : Bool} {cs l : List Char} {kind : TokenKind}
    (h : number? member cs = some (kind, l)) : kind = .integer ∨ kind = .float := by
  unfold number? at h
  split at h
  · split at h
    · split at h
      · obtain ⟨rfl, -⟩ := Prod.mk.inj (Option.some.inj h)
        exact Or.inr rfl
      · obtain ⟨rfl, -⟩ := Prod.mk.inj (Option.some.inj h)
        exact Or.inl rfl
    · contradiction
  · contradiction

/-! ## All lexemes -/

/-- What the lexeme at the front of a text can be. -/
theorem lexeme_cases (member : Bool) (cs : List Char) :
    comment? cs = some (lexeme member cs) ∨
    (∃ l, rawText? cs = some l ∧ lexeme member cs = (.rawText, l)) ∨
    (∃ l, text? cs = some l ∧ lexeme member cs = (.text, l)) ∨
    (∃ l, char? cs = some l ∧ lexeme member cs = (.char, l)) ∨
    number? member cs = some (lexeme member cs) ∨
    (∃ l, word? cs = some l ∧ lexeme member cs = (.word, l)) ∨
    lexeme member cs = (.mark, cs.take 1) := by
  unfold lexeme
  dsimp only
  cases comment? cs with
  | some r => simp
  | none =>
  cases rawText? cs with
  | some l => simp
  | none =>
  cases text? cs with
  | some l => simp
  | none =>
  cases char? cs with
  | some l => simp
  | none =>
  cases number? member cs with
  | some r => simp
  | none =>
  cases word? cs with
  | some l => simp
  | none => simp

theorem lexeme_isPrefix (member : Bool) (cs : List Char) : (lexeme member cs).2 <+: cs := by
  rcases lexeme_cases member cs with h | ⟨l, hl, h⟩ | ⟨l, hl, h⟩ | ⟨l, hl, h⟩ | h | ⟨l, hl, h⟩ | h
  · exact comment?_isPrefix h
  · rw [h]; exact rawText?_isPrefix hl
  · rw [h]; exact text?_isPrefix hl
  · rw [h]; exact char?_isPrefix hl
  · exact number?_isPrefix h
  · rw [h]; exact word?_isPrefix hl
  · rw [h]; exact List.take_prefix 1 cs

/-! ## Lexemes are not empty -/

theorem comment?_ne_nil {cs l : List Char} {kind : TokenKind} (h : comment? cs = some (kind, l)) :
    l ≠ [] := by
  unfold comment? at h
  split at h
  · obtain ⟨-, rfl⟩ := Prod.mk.inj (Option.some.inj h)
    exact List.cons_ne_nil _ _
  · obtain ⟨-, rfl⟩ := Prod.mk.inj (Option.some.inj h)
    exact List.cons_ne_nil _ _
  · contradiction

theorem rawBody?_ne_nil {cs l : List Char} (h : rawBody? cs = some l) : l ≠ [] := by
  unfold rawBody? at h
  split at h
  · dsimp only at h
    split at h
    · obtain rfl := Option.some.inj h
      exact List.cons_ne_nil _ _
    · contradiction
  · contradiction

theorem rawText?_ne_nil {cs l : List Char} (h : rawText? cs = some l) : l ≠ [] := by
  unfold rawText? at h
  split at h
  · obtain ⟨m, -, rfl⟩ := Option.map_eq_some_iff.mp h
    exact List.cons_ne_nil _ _
  · obtain ⟨m, -, rfl⟩ := Option.map_eq_some_iff.mp h
    exact List.cons_ne_nil _ _
  · exact rawBody?_ne_nil h

theorem text?_ne_nil {cs l : List Char} (h : text? cs = some l) : l ≠ [] := by
  unfold text? at h
  split at h
  all_goals first
    | contradiction
    | obtain rfl := Option.some.inj h
      exact List.cons_ne_nil _ _

theorem charBody?_ne_nil {cs l : List Char} (h : charBody? cs = some l) : l ≠ [] := by
  unfold charBody? at h
  split at h
  · obtain rfl := Option.some.inj h
    exact List.cons_ne_nil _ _
  · split at h
    · split at h
      · obtain rfl := Option.some.inj h
        exact List.cons_ne_nil _ _
      · contradiction
    · contradiction
  · obtain rfl := Option.some.inj h
    exact List.cons_ne_nil _ _
  · contradiction

theorem char?_ne_nil {cs l : List Char} (h : char? cs = some l) : l ≠ [] := by
  unfold char? at h
  split at h
  · obtain ⟨m, -, rfl⟩ := Option.map_eq_some_iff.mp h
    exact List.cons_ne_nil _ _
  · exact charBody?_ne_nil h

theorem float?_ne_nil {c : Char} {cs l : List Char} (hc : isDecimal c = true)
    (h : float? (c :: cs) = some l) : l ≠ [] := by
  -- The first digit is the first character.
  have hwhole (a : List Char) : (c :: cs).takeWhile isDecimalPart ++ a ≠ [] := by
    rw [List.takeWhile_cons_of_pos (by simp [isDecimalPart, hc])]
    exact List.cons_ne_nil _ _
  unfold float? at h
  dsimp only at h
  split at h
  · contradiction
  · split at h
    · obtain rfl := Option.some.inj h
      exact hwhole _
    · obtain rfl := Option.some.inj h
      rw [List.append_assoc, List.append_assoc]
      exact hwhole _
    · split at h
      · contradiction
      · obtain rfl := Option.some.inj h
        rw [List.append_assoc]
        exact hwhole _

theorem number?_ne_nil {member : Bool} {cs l : List Char} {kind : TokenKind}
    (h : number? member cs = some (kind, l)) : l ≠ [] := by
  unfold number? at h
  split at h
  · split at h
    · next hc =>
      split at h
      · next hfloat =>
        obtain ⟨-, rfl⟩ := Prod.mk.inj (Option.some.inj h)
        exact float?_ne_nil hc hfloat
      · obtain ⟨-, rfl⟩ := Prod.mk.inj (Option.some.inj h)
        obtain ⟨d, rest, hd, -⟩ := (isInteger_integer _ hc).head
        rw [hd]
        exact List.cons_ne_nil _ _
    · contradiction
  · contradiction

theorem lexeme_ne_nil (member : Bool) {cs : List Char} (hcs : cs ≠ []) :
    (lexeme member cs).2 ≠ [] := by
  rcases lexeme_cases member cs with h | ⟨l, hl, h⟩ | ⟨l, hl, h⟩ | ⟨l, hl, h⟩ | h | ⟨l, hl, h⟩ | h
  · exact comment?_ne_nil h
  · rw [h]; exact rawText?_ne_nil hl
  · rw [h]; exact text?_ne_nil hl
  · rw [h]; exact char?_ne_nil hl
  · exact number?_ne_nil h
  · obtain ⟨c, rest, hc, -⟩ := word?_head hl
    rw [h, hc]
    exact List.cons_ne_nil _ _
  · rw [h]
    simpa using hcs

/-! ## Kinds and texts -/

theorem comment?_kind {cs l : List Char} {kind : TokenKind} (h : comment? cs = some (kind, l)) :
    kind = .lineComment ∨ kind = .blockComment := by
  unfold comment? at h
  split at h
  · obtain ⟨rfl, -⟩ := Prod.mk.inj (Option.some.inj h)
    exact Or.inl rfl
  · obtain ⟨rfl, -⟩ := Prod.mk.inj (Option.some.inj h)
    exact Or.inr rfl
  · contradiction

/-- Only names are words. -/
theorem lexeme_word {member : Bool} {cs l : List Char} (h : lexeme member cs = (.word, l)) :
    word? cs = some l := by
  rcases lexeme_cases member cs with hl | ⟨l', -, hl⟩ | ⟨l', -, hl⟩ | ⟨l', -, hl⟩ | hl |
    ⟨l', hword, hl⟩ | hl
  · rw [h] at hl
    rcases comment?_kind hl with hkind | hkind <;> contradiction
  · cases h.symm.trans hl
  · cases h.symm.trans hl
  · cases h.symm.trans hl
  · rw [h] at hl
    rcases number?_kind hl with hkind | hkind <;> contradiction
  · cases h.symm.trans hl
    exact hword
  · cases h.symm.trans hl

/-- What the text of a lexeme says, as far as its kind decides it. -/
structure Spelt (kind : TokenKind) (l : List Char) : Prop where
  nonempty : l ≠ []
  word : kind = .word → ∃ c rest, l = c :: rest ∧ isDecimal c = false
  integer : kind = .integer → IsInteger l
  mark : kind = .mark → ∃ c, l = [c] ∧ Text.isBlank c = false

theorem lexeme_spelt (member : Bool) {c : Char} (cs : List Char) (hc : Text.isBlank c = false) :
    Spelt (lexeme member (c :: cs)).1 (lexeme member (c :: cs)).2 := by
  have hcases := lexeme_cases member (c :: cs)
  have hne := lexeme_ne_nil member (List.cons_ne_nil c cs)
  generalize lexeme member (c :: cs) = r at hcases hne
  obtain ⟨kind, l⟩ := r
  rcases hcases with h | ⟨l', -, h⟩ | ⟨l', -, h⟩ | ⟨l', -, h⟩ | h | ⟨l', hl, h⟩ | h
  · rcases comment?_kind h with rfl | rfl <;> exact ⟨hne, by simp, by simp, by simp⟩
  · obtain ⟨rfl, rfl⟩ := Prod.mk.inj h
    exact ⟨hne, by simp, by simp, by simp⟩
  · obtain ⟨rfl, rfl⟩ := Prod.mk.inj h
    exact ⟨hne, by simp, by simp, by simp⟩
  · obtain ⟨rfl, rfl⟩ := Prod.mk.inj h
    exact ⟨hne, by simp, by simp, by simp⟩
  · rcases number?_kind h with rfl | rfl
    · exact ⟨hne, by simp, fun _ => number?_integer h, by simp⟩
    · exact ⟨hne, by simp, by simp, by simp⟩
  · obtain ⟨rfl, rfl⟩ := Prod.mk.inj h
    exact ⟨hne, fun _ => word?_head hl, by simp, by simp⟩
  · obtain ⟨rfl, rfl⟩ := Prod.mk.inj h
    exact ⟨hne, by simp, by simp, fun _ => ⟨c, rfl, hc⟩⟩

end Attest.Syntax
