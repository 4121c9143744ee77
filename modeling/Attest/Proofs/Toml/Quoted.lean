/-
  Quoted text of TOML. `Style.Writes` says which texts may stand between the marks of a style, piece
  by piece, and what each of them means; it counts the marks in a row, because three of them end a
  multi-line text. Main statements: such a text is read as what it means
  (`Style.readFrom_of_writes`), every text is written in one (`Style.writes_body`), so what is
  quoted is read back (`readQuoted?_quote`).
-/
import Attest.Toml.Quoted
import Mathlib.Tactic.IntervalCases

namespace Attest.Toml

namespace Style

/-- A text between the marks of a style and its meaning, `run` marks standing in front of it. A
mark may stand for itself only in a multi-line text, two in a row at most. -/
inductive Writes (s : Style) : Nat → List Char → List Char → Prop
  | nil {run} : Writes s run [] []
  | mark {run body cs} (hmultiline : s.multiline = true) (hrun : run < 2)
      (h : Writes s (run + 1) body cs) : Writes s run (s.mark :: body) (s.mark :: cs)
  | plain {run c body cs} (hmark : c ≠ s.mark) (hescape : s.escapes = true → c ≠ '\\')
      (hcontrol : isControl c = false ∨ s.multiline = true ∧ c = '\n') (h : Writes s 0 body cs) :
      Writes s run (c :: body) (c :: cs)
  | escape {run e c body cs} (hescapes : s.escapes = true) (he : simpleEscape? e = some c)
      (h : Writes s 0 body cs) : Writes s run ('\\' :: e :: body) (c :: cs)
  | code {run h₁ h₂ h₃ h₄ c body cs} (hescapes : s.escapes = true)
      (hcode : codePoint? [h₁, h₂, h₃, h₄] = some c) (h : Writes s 0 body cs) :
      Writes s run ('\\' :: 'u' :: h₁ :: h₂ :: h₃ :: h₄ :: body) (c :: cs)

variable {s : Style} {run : Nat} {ds cs rest : List Char}

/-! ## The end of a text -/

theorem mark_ne_backslash (h : s.escapes = true) : s.mark ≠ '\\' := by
  have hmark : s.mark = '"' := by simpa [escapes] using h
  rw [hmark]
  decide

theorem closing?_of_ne {c : Char} (hc : c ≠ s.mark) (rest : List Char) :
    s.closing? (c :: rest) = none := by
  unfold closing?
  split
  · split
    · next heq => rw [if_neg (by simp [← (List.cons.inj heq).1, hc])]
    · rfl
  · exact if_neg hc

/-- Up to two marks in front of the delimiter of a multi-line text belong to the text. -/
theorem closing?_marks (hmultiline : s.multiline = true) {k : Nat} (hk : k ≤ 2)
    (hrest : rest.head? ≠ some s.mark) :
    s.closing? (List.replicate k s.mark ++ (s.delimiter ++ rest)) =
      some (List.replicate k s.mark, rest) := by
  rw [delimiter, closing?.eq_def, if_pos hmultiline, if_pos hmultiline]
  rcases rest with _ | ⟨c, _ | ⟨d, rest⟩⟩
  · interval_cases k <;> simp [List.replicate]
  · have hc : c ≠ s.mark := by simpa using hrest
    interval_cases k <;> simp [List.replicate, hc]
  · have hc : c ≠ s.mark := by simpa using hrest
    interval_cases k <;> simp [List.replicate, hc]

/-- Fewer than three marks in a row end no multi-line text. -/
theorem closing?_of_few (hmultiline : s.multiline = true) {k : Nat} (hk : k ≤ 2) {c : Char}
    (hc : c ≠ s.mark) (rest : List Char) :
    s.closing? (List.replicate k s.mark ++ c :: rest) = none := by
  rcases Nat.eq_zero_or_pos k with rfl | hpos
  · exact closing?_of_ne hc rest
  · rw [closing?.eq_def, if_pos hmultiline]
    rcases rest with _ | ⟨d, rest⟩
    · interval_cases k <;> simp [List.replicate, hc]
    · interval_cases k <;> simp [List.replicate, hc]

/-- A text is nothing but marks, no more than may stand in a row, or its first marks are followed by
another character. -/
theorem Writes.marks (h : s.Writes run ds cs) (hrun : run ≤ 2) :
    ∃ k, run + k ≤ 2 ∧ (ds = List.replicate k s.mark ∧ cs = ds ∨
      ∃ c tail, ds = List.replicate k s.mark ++ c :: tail ∧ c ≠ s.mark) := by
  induction h with
  | nil => exact ⟨0, hrun, Or.inl ⟨rfl, rfl⟩⟩
  | @mark run ds cs _ hlt _ ih =>
    obtain ⟨k, hk, hbody⟩ := ih (by omega)
    refine ⟨k + 1, by omega, ?_⟩
    rcases hbody with ⟨rfl, rfl⟩ | ⟨c, tail, rfl, hc⟩
    · exact Or.inl ⟨rfl, rfl⟩
    · exact Or.inr ⟨c, tail, rfl, hc⟩
  | plain hmark => exact ⟨0, hrun, Or.inr ⟨_, _, rfl, hmark⟩⟩
  | escape hescapes => exact ⟨0, hrun, Or.inr ⟨_, _, rfl, (mark_ne_backslash hescapes).symm⟩⟩
  | code hescapes => exact ⟨0, hrun, Or.inr ⟨_, _, rfl, (mark_ne_backslash hescapes).symm⟩⟩

/-! ## Reading what is written -/

theorem readFrom_of_closing {c : Char} {tail : List Char} {done : List Char × List Char}
    (h : s.closing? (c :: tail) = some done) : s.readFrom false (c :: tail) = some done := by
  rw [readFrom.eq_def]
  simp only [Bool.false_and, Bool.false_eq_true, if_false, h]

/-- A character that begins no escape and does not end the text stands for itself. -/
theorem readFrom_plain {c : Char} {tail : List Char} (hclosing : s.closing? (c :: tail) = none)
    (hescape : s.escapes = true → c ≠ '\\')
    (hcontrol : isControl c = false ∨ s.multiline = true ∧ c = '\n') :
    s.readFrom false (c :: tail) = cons? c (s.readFrom false tail) := by
  have hskip : (s.escapes && decide (c = '\\')) = false := by
    rw [Bool.and_eq_false_imp]
    simpa using hescape
  rw [readFrom.eq_def]
  simp only [Bool.false_and, Bool.false_eq_true, if_false, hclosing, hskip]
  rcases hcontrol with hplain | ⟨hmultiline, rfl⟩
  · have hfeed : c ≠ '\n' := by
      rintro rfl
      exact absurd hplain (by decide)
    have hreturn : c ≠ '\r' := by
      rintro rfl
      exact absurd hplain (by decide)
    rw [if_neg hfeed, if_neg hreturn, hplain, if_neg (by decide)]
  · rw [if_pos rfl, if_pos hmultiline]

/-- No line ends behind a backslash that a letter follows. -/
theorem not_isContinuation {c : Char} (hspace : isSpace c = false) (hfeed : c ≠ '\n')
    (hreturn : c ≠ '\r') (tail : List Char) : isContinuation (c :: tail) = false := by
  rw [isContinuation, skipSpaces, List.dropWhile_cons_of_neg (by simp [hspace])]
  unfold atLineEnd
  split
  · next heq => exact absurd (List.cons.inj heq).1 hfeed
  · next heq => exact absurd (List.cons.inj heq).1 hreturn
  · rfl

theorem readFrom_escape {e c : Char} (hescapes : s.escapes = true)
    (he : simpleEscape? e = some c) (tail : List Char) :
    s.readFrom false ('\\' :: e :: tail) = cons? c (s.readFrom false tail) := by
  have hclosing := closing?_of_ne (mark_ne_backslash hescapes).symm (e :: tail)
  have hread (hcontinues : isContinuation (e :: tail) = false) (hu : e ≠ 'u') (hU : e ≠ 'U') :
      s.readFrom false ('\\' :: e :: tail) = cons? c (s.readFrom false tail) := by
    rw [readFrom.eq_def]
    simp only [Bool.false_and, Bool.false_eq_true, if_false, hclosing, hescapes, decide_true,
      Bool.and_true, if_true, hcontinues, Bool.and_false]
    split
    · next heq => exact absurd (List.cons.inj heq).1 hu
    · next heq => exact absurd (List.cons.inj heq).1 hU
    · next heq =>
      obtain ⟨rfl, rfl⟩ := List.cons.inj heq
      rw [he, Option.bind_some]
    · contradiction
  have hletter : e ∈ ['b', 't', 'n', 'f', 'r', '"', '\\'] := by
    unfold simpleEscape? at he
    split at he <;> simp_all
  simp only [List.mem_cons, List.not_mem_nil, or_false] at hletter
  rcases hletter with rfl | rfl | rfl | rfl | rfl | rfl | rfl <;>
    exact hread (not_isContinuation rfl (by decide) (by decide) _) (by decide) (by decide)

theorem readFrom_code {h₁ h₂ h₃ h₄ c : Char} (hescapes : s.escapes = true)
    (hcode : codePoint? [h₁, h₂, h₃, h₄] = some c) (tail : List Char) :
    s.readFrom false ('\\' :: 'u' :: h₁ :: h₂ :: h₃ :: h₄ :: tail) =
      cons? c (s.readFrom false tail) := by
  have hclosing := closing?_of_ne (mark_ne_backslash hescapes).symm
    ('u' :: h₁ :: h₂ :: h₃ :: h₄ :: tail)
  have hcontinues : isContinuation ('u' :: h₁ :: h₂ :: h₃ :: h₄ :: tail) = false :=
    not_isContinuation rfl (by decide) (by decide) _
  rw [readFrom.eq_def]
  simp only [Bool.false_and, Bool.false_eq_true, if_false, hclosing, hescapes, decide_true,
    Bool.and_true, if_true, hcontinues, Bool.and_false, hcode, Option.bind_some]

/-- A text between marks is read as what it means. -/
theorem readFrom_of_writes (hmark : isControl s.mark = false) (h : s.Writes run ds cs)
    (hrun : run ≤ 2) (hrest : rest.head? ≠ some s.mark) :
    s.readFrom false (ds ++ (s.delimiter ++ rest)) = some (cs, rest) := by
  induction h with
  | nil =>
    -- The delimiter begins with a mark in either case.
    obtain ⟨tail, htail⟩ : ∃ tail, s.delimiter ++ rest = s.mark :: tail := by
      rw [delimiter]
      split <;> exact ⟨_, rfl⟩
    have hclosing : s.closing? (s.delimiter ++ rest) = some ([], rest) := by
      by_cases hmultiline : s.multiline = true
      · exact closing?_marks hmultiline (k := 0) (by omega) hrest
      · rw [delimiter, closing?.eq_def, if_neg hmultiline, if_neg hmultiline]
        exact if_pos rfl
    rw [htail] at hclosing
    rw [List.nil_append, htail, readFrom_of_closing hclosing]
  | @mark run ds cs hmultiline hlt hbody ih =>
    obtain ⟨k, hk, hmarks⟩ := hbody.marks (by omega)
    rcases hmarks with ⟨rfl, rfl⟩ | ⟨c, tail, rfl, hc⟩
    · -- The last marks are read together with the delimiter.
      have hclosing := closing?_marks hmultiline (k := k + 1) (by omega) hrest
      rw [List.replicate_succ, List.cons_append] at hclosing
      rw [List.cons_append, readFrom_of_closing hclosing]
    · have hclosing := closing?_of_few hmultiline (k := k + 1) (by omega) hc
        (tail ++ (s.delimiter ++ rest))
      rw [List.replicate_succ, List.cons_append] at hclosing
      rw [List.append_assoc, List.cons_append] at ih
      rw [List.cons_append, List.append_assoc, List.cons_append,
        readFrom_plain hclosing mark_ne_backslash (Or.inl hmark), ih (by omega)]
      rfl
  | plain hne hescape hcontrol _ ih =>
    rw [List.cons_append, readFrom_plain (closing?_of_ne hne _) hescape hcontrol, ih (by omega)]
    rfl
  | escape hescapes he _ ih =>
    rw [List.cons_append, List.cons_append, readFrom_escape hescapes he, ih (by omega)]
    rfl
  | code hescapes hcode _ ih =>
    simp only [List.cons_append]
    rw [readFrom_code hescapes hcode, ih (by omega)]
    rfl

/-! ## Writing -/

/-- The written form of a control character. -/
theorem exists_hexFour {c : Char} (h : isControl c = true) :
    ∃ h₁ h₂ h₃ h₄, hexFour c.toNat = [h₁, h₂, h₃, h₄] ∧ codePoint? [h₁, h₂, h₃, h₄] = some c := by
  have hall : ∀ n < 128, (hexFour n).length = 4 ∧ codePoint? (hexFour n) = some (Char.ofNat n) := by
    decide +kernel
  have hlow : c.toNat < 128 := by
    rw [isControl, Bool.or_eq_true, Bool.and_eq_true, decide_eq_true_eq, beq_iff_eq] at h
    omega
  obtain ⟨hlength, hcode⟩ := hall c.toNat hlow
  rw [Char.ofNat_toNat] at hcode
  match heq : hexFour c.toNat, hlength with
  | [h₁, h₂, h₃, h₄], _ => exact ⟨h₁, h₂, h₃, h₄, rfl, heq ▸ hcode⟩

/-- Between double quotes every text has a written form. -/
theorem writes_encodeFrom (multiline : Bool) (run : Nat) (cs : List Char) :
    Writes ⟨'"', multiline⟩ run (encodeFrom multiline run cs) cs := by
  induction cs generalizing run with
  | nil => exact .nil
  | cons c cs ih =>
    rw [encodeFrom]
    split
    · next hquote =>
      subst hquote
      split
      · next hrun =>
        rw [Bool.and_eq_true, decide_eq_true_eq] at hrun
        exact .mark hrun.1 hrun.2 (ih _)
      · exact .escape rfl rfl (ih 0)
    · next hquote =>
      unfold encodeChar
      split
      · next h => subst h; exact .escape rfl rfl (ih 0)
      split
      · next h => subst h; exact .escape rfl rfl (ih 0)
      split
      · next h =>
        subst h
        split
        · next hmultiline => exact .plain hquote (fun _ => by decide) (Or.inr ⟨hmultiline, rfl⟩) (ih 0)
        · exact .escape rfl rfl (ih 0)
      split
      · next h => subst h; exact .escape rfl rfl (ih 0)
      split
      · next h => subst h; exact .escape rfl rfl (ih 0)
      split
      · next h => subst h; exact .escape rfl rfl (ih 0)
      split
      · next hcontrol =>
        obtain ⟨h₁, h₂, h₃, h₄, heq, hcode⟩ := exists_hexFour hcontrol
        rw [heq]
        exact .code rfl hcode (ih 0)
      · next hbackslash hcontrol =>
        exact .plain hquote (fun _ => hbackslash) (Or.inl (Bool.eq_false_iff.mpr hcontrol)) (ih 0)

theorem le_longestRun (x : Char) (run : Nat) (cs : List Char) : run ≤ longestRun x run cs := by
  induction cs generalizing run with
  | nil => exact Nat.le_refl run
  | cons c cs ih =>
    rw [longestRun]
    split
    · exact Nat.le_of_succ_le (ih (run + 1))
    · exact Nat.le_max_left _ _

/-- Single quotes hold a text as it is, if it has no controls and not too many of them in a row. -/
theorem writes_verbatim (multiline : Bool) {run : Nat} {cs : List Char}
    (hcontrol : ∀ c ∈ cs, isControl c = false ∨ multiline = true ∧ c = '\n')
    (hrun : longestRun '\'' run cs ≤ if multiline then 2 else 0) :
    Writes ⟨'\'', multiline⟩ run cs cs := by
  induction cs generalizing run with
  | nil => exact .nil
  | cons c cs ih =>
    rw [List.forall_mem_cons] at hcontrol
    rw [longestRun] at hrun
    split at hrun
    · next hmark =>
      subst hmark
      have hle := le_longestRun '\'' (run + 1) cs
      cases multiline with
      | false => simp at hrun; omega
      | true => exact .mark rfl (by simp at hrun; omega) (ih hcontrol.2 hrun)
    · next hmark =>
      exact .plain hmark (by simp [escapes]) hcontrol.1 (ih hcontrol.2 (by omega))

/-- What stands between the marks of a text in a style, the first line end of a multi-line text
apart. -/
def body (s : Style) (cs : List Char) : List Char :=
  if s.escapes then encodeFrom s.multiline 0 cs else cs

theorem writes_body_of_escapes {multiline : Bool} (cs : List Char) :
    Writes ⟨'"', multiline⟩ 0 (body ⟨'"', multiline⟩ cs) cs :=
  writes_encodeFrom multiline 0 cs

/-- The style that is chosen for a text can hold it. -/
theorem writes_body (cs : List Char) : (forText cs).Writes 0 ((forText cs).body cs) cs := by
  have hcontrols {multiline : Bool} (h : cs.any (fun c => isControl c && c != '\n') = false)
      (hlines : multiline = true ∨ cs.contains '\n' = false) :
      ∀ c ∈ cs, isControl c = false ∨ multiline = true ∧ c = '\n' := by
    intro c hc
    have hplain := List.any_eq_false.mp h c hc
    rcases Bool.eq_false_or_eq_true (isControl c) with hcontrol | hcontrol
    · obtain rfl : c = '\n' := by simpa [hcontrol] using hplain
      rcases hlines with hlines | hlines
      · exact Or.inr ⟨hlines, rfl⟩
      · simp [hc] at hlines
    · exact Or.inl hcontrol
  unfold forText
  dsimp only
  split
  · exact writes_body_of_escapes cs
  split
  · next h =>
    simp only [Bool.and_eq_true, Bool.not_eq_true', beq_iff_eq] at h
    exact writes_verbatim false (hcontrols h.1.1 (Or.inr h.1.2)) h.2.le
  split
  · exact writes_body_of_escapes cs
  split
  · next h =>
    simp only [Bool.and_eq_true, Bool.not_eq_true', decide_eq_true_eq] at h
    exact writes_verbatim true (hcontrols h.1 (Or.inl rfl)) h.2
  split
  · exact writes_body_of_escapes cs
  · exact writes_body_of_escapes cs

/-! ## Quoting -/

/-- The styles there are. -/
def all : List Style := [basic, literal, multilineBasic, multilineLiteral]

theorem forText_mem_all (cs : List Char) : forText cs ∈ all := by
  unfold forText
  dsimp only
  split
  · decide
  split
  · decide
  split
  · decide
  split
  · decide
  split
  · decide
  · decide

theorem isControl_mark (hs : s ∈ all) : isControl s.mark = false := by
  have hall : ∀ s ∈ all, isControl s.mark = false := by decide
  exact hall s hs

/-- A text without lines does not begin with a line end, nor does the delimiter. -/
theorem Writes.head_ne (hmark : isControl s.mark = false) (h : s.Writes run ds cs)
    (hlines : '\n' ∉ cs) :
    ∀ c ∈ (ds ++ (s.delimiter ++ rest)).head?, c ≠ '\n' ∧ c ≠ '\r' := by
  have hplain {c : Char} (hc : isControl c = false) : c ≠ '\n' ∧ c ≠ '\r' := by
    constructor
    · rintro rfl
      exact absurd hc (by decide)
    · rintro rfl
      exact absurd hc (by decide)
  intro c hc
  cases h with
  | nil =>
    rw [delimiter] at hc
    have : c = s.mark := by
      split at hc <;> simpa using hc.symm
    exact this ▸ hplain hmark
  | mark => exact Option.some.inj hc ▸ hplain hmark
  | plain _ _ hcontrol =>
    obtain rfl := Option.some.inj hc
    rcases hcontrol with hcontrol | ⟨-, rfl⟩
    · exact hplain hcontrol
    · simp at hlines
  | escape => exact Option.some.inj hc ▸ by decide
  | code => exact Option.some.inj hc ▸ by decide

theorem dropLineEnd_of_ne {cs : List Char} (h : ∀ c ∈ cs.head?, c ≠ '\n' ∧ c ≠ '\r') :
    dropLineEnd cs = cs := by
  unfold dropLineEnd
  split
  · exact absurd rfl (h '\n' rfl).1
  · exact absurd rfl (h '\r' rfl).2
  · rfl

/-- What is encoded behind the delimiter is read back. -/
theorem read?_of_writes (hs : s ∈ all) (h : s.Writes 0 (s.body cs) cs)
    (hrest : rest.head? ≠ some s.mark) :
    s.read? ((if s.multiline && cs.contains '\n' then ['\n'] else []) ++
      (s.body cs ++ (s.delimiter ++ rest))) = some (cs, rest) := by
  have hread := readFrom_of_writes (isControl_mark hs) h (by omega) hrest
  rw [read?]
  by_cases hmultiline : s.multiline = true
  · rw [if_pos hmultiline, hmultiline, Bool.true_and]
    by_cases hlines : cs.contains '\n' = true
    · rw [if_pos hlines]
      exact hread
    · have hhead : ∀ c ∈ (s.body cs ++ (s.delimiter ++ rest)).head?, c ≠ '\n' ∧ c ≠ '\r' :=
        h.head_ne (isControl_mark hs) (by simpa using hlines)
      rw [if_neg hlines, List.nil_append, dropLineEnd_of_ne hhead, hread]
  · rw [if_neg hmultiline, Bool.eq_false_iff.mpr hmultiline, Bool.false_and, if_neg (by decide),
      List.nil_append, hread]

/-- On one line no text begins with the mark, so its delimiter is not taken for a longer one. -/
theorem Writes.not_marks (h : s.Writes run ds cs) (hmultiline : s.multiline = false)
    (hrest : rest.head? ≠ some s.mark) (tail : List Char) :
    ds ++ (s.delimiter ++ rest) ≠ s.mark :: s.mark :: tail := by
  intro heq
  cases h with
  | nil =>
    rw [delimiter, hmultiline] at heq
    exact hrest (congrArg List.head? (List.cons.inj heq).2)
  | mark hmulti => simp [hmultiline] at hmulti
  | plain hmark => exact hmark (List.cons.inj heq).1
  | escape hescapes => exact mark_ne_backslash hescapes (List.cons.inj heq).1.symm
  | code hescapes => exact mark_ne_backslash hescapes (List.cons.inj heq).1.symm

theorem opening?_delimiter (hs : s ∈ all) (ds : List Char)
    (hds : s.multiline = false → ∀ tail, ds ≠ s.mark :: s.mark :: tail) :
    opening? (s.delimiter ++ ds) = some (s, ds) := by
  simp only [all, List.mem_cons, List.not_mem_nil, or_false] at hs
  rcases hs with rfl | rfl | rfl | rfl
  · rw [show basic.delimiter ++ ds = '"' :: ds from rfl]
    unfold opening?
    split
    · next tail heq => exact absurd (List.cons.inj heq).2 (hds rfl tail)
    · next heq => simp at heq
    · next heq => rw [(List.cons.inj heq).2]
    · next heq => simp at heq
    · next hother _ => exact absurd rfl (hother ds)
  · rw [show literal.delimiter ++ ds = '\'' :: ds from rfl]
    unfold opening?
    split
    · next heq => simp at heq
    · next tail heq => exact absurd (List.cons.inj heq).2 (hds rfl tail)
    · next heq => simp at heq
    · next heq => rw [(List.cons.inj heq).2]
    · next hother => exact absurd rfl (hother ds)
  · rfl
  · rfl

end Style

/-- What is quoted is read back. No quotation mark may follow. -/
theorem readQuoted?_quote (text : String) {rest : List Char}
    (hrest : ∀ c ∈ rest.head?, c ≠ '"' ∧ c ≠ '\'') :
    readQuoted? ((quote text).toList ++ rest) = some (text, rest) := by
  have hs := Style.forText_mem_all text.toList
  have hwrites := Style.writes_body text.toList
  generalize hstyle : Style.forText text.toList = s at hs hwrites
  have hmark : rest.head? ≠ some s.mark := by
    have hall : ∀ s ∈ Style.all, s.mark = '"' ∨ s.mark = '\'' := by decide
    intro heq
    rcases hall s hs with hquote | hquote
    · exact (hrest _ heq).1 hquote
    · exact (hrest _ heq).2 hquote
  have hread := Style.read?_of_writes hs hwrites hmark
  have hopen := Style.opening?_delimiter hs ((if s.multiline && text.toList.contains '\n'
      then ['\n'] else []) ++ (s.body text.toList ++ (s.delimiter ++ rest))) (by
    intro hmultiline tail
    rw [hmultiline, Bool.false_and, if_neg (by decide), List.nil_append]
    exact hwrites.not_marks hmultiline hmark tail)
  rw [quote, hstyle, String.toList_ofList, Style.encode]
  rw [Style.body] at hopen hread
  simp only [List.append_assoc] at hopen hread ⊢
  rw [readQuoted?, hopen, Option.bind_some]
  dsimp only
  rw [hread, Option.map_some, String.ofList_toList]

end Attest.Toml
