/-
  Line breaks of two characters. Writing a carriage return in front of every line feed changes no
  lexeme but those that run over several lines, and line comments, which take the carriage return
  at their end. Main statement: `lexeme_crlf`.
-/
import Attest.Proofs.Syntax.Lexeme

namespace Attest.Syntax

open Text (isBlank isNameStart isNameContinue)

/-- Writes a carriage return in front of every line feed. -/
def crlf : List Char → List Char
  | [] => []
  | c :: cs => if c = '\n' then '\r' :: '\n' :: crlf cs else c :: crlf cs

@[simp] theorem crlf_nil : crlf [] = [] := rfl

@[simp] theorem crlf_lineFeed (cs : List Char) : crlf ('\n' :: cs) = '\r' :: '\n' :: crlf cs := rfl

theorem crlf_cons {c : Char} (hc : c ≠ '\n') (cs : List Char) : crlf (c :: cs) = c :: crlf cs :=
  if_neg hc

theorem crlf_append (a b : List Char) : crlf (a ++ b) = crlf a ++ crlf b := by
  induction a with
  | nil => rfl
  | cons c a ih =>
    by_cases hc : c = '\n'
    · rw [hc, List.cons_append, crlf_lineFeed, crlf_lineFeed, ih]
      rfl
    · rw [List.cons_append, crlf_cons hc, crlf_cons hc, ih, List.cons_append]

theorem crlf_of_not_mem {cs : List Char} (h : '\n' ∉ cs) : crlf cs = cs := by
  induction cs with
  | nil => rfl
  | cons c cs ih =>
    rw [List.mem_cons, not_or] at h
    rw [crlf_cons (Ne.symm h.1), ih h.2]

theorem takeWhile_crlf {p : Char → Bool} (hn : p '\n' = false) (hr : p '\r' = false)
    (cs : List Char) : (crlf cs).takeWhile p = cs.takeWhile p := by
  induction cs with
  | nil => rfl
  | cons c cs ih =>
    by_cases hc : c = '\n'
    · simp [hc, hn, hr]
    · rw [crlf_cons hc, List.takeWhile_cons, List.takeWhile_cons, ih]

theorem dropWhile_crlf {p : Char → Bool} (hn : p '\n' = false) (hr : p '\r' = false)
    (cs : List Char) : (crlf cs).dropWhile p = crlf (cs.dropWhile p) := by
  induction cs with
  | nil => rfl
  | cons c cs ih =>
    by_cases hc : c = '\n'
    · simp [hc, hn, hr]
    · rw [crlf_cons hc, List.dropWhile_cons, List.dropWhile_cons, ih]
      split
      · rfl
      · rw [crlf_cons hc]

/-- Behind characters that are no line feeds the same is left. -/
theorem drop_crlf {l cs : List Char} (h : l <+: cs) (hl : '\n' ∉ l) :
    (crlf cs).drop l.length = crlf (cs.drop l.length) := by
  obtain ⟨rest, rfl⟩ := h
  rw [crlf_append, crlf_of_not_mem hl, List.drop_left, List.drop_left]

/-- What stands in front of both texts has no line feed. -/
theorem not_mem_of_isPrefix_crlf {l cs : List Char} (h : l <+: cs) (h' : l <+: crlf cs) :
    '\n' ∉ l := by
  induction l generalizing cs with
  | nil => simp
  | cons c l ih =>
    obtain ⟨rest, rfl⟩ := h
    rw [List.cons_append] at h'
    by_cases hc : c = '\n'
    · rw [hc, crlf_lineFeed, List.cons_prefix_cons] at h'
      exact absurd h'.1 (by decide)
    · rw [crlf_cons hc, List.cons_prefix_cons] at h'
      rw [List.mem_cons, not_or]
      exact ⟨Ne.symm hc, ih (List.prefix_append l rest) h'.2⟩

/-- The first character but a line feed is the same. -/
theorem crlf_cases (cs : List Char) : (cs = [] ∧ crlf cs = []) ∨
    (∃ ds, cs = '\n' :: ds ∧ crlf cs = '\r' :: '\n' :: crlf ds) ∨
    ∃ c ds, c ≠ '\n' ∧ cs = c :: ds ∧ crlf cs = c :: crlf ds := by
  cases cs with
  | nil => exact Or.inl ⟨rfl, rfl⟩
  | cons c cs =>
    by_cases hc : c = '\n'
    · exact Or.inr (Or.inl ⟨cs, by rw [hc], by rw [hc]; rfl⟩)
    · exact Or.inr (Or.inr ⟨c, cs, hc, rfl, crlf_cons hc cs⟩)

/-- A character other than a carriage return stands in front of the same text with its line breaks
written anew. -/
theorem eq_cons_of_crlf {c : Char} {cs ds : List Char} (hc : c ≠ '\r') (h : crlf cs = c :: ds) :
    ∃ es, cs = c :: es ∧ ds = crlf es := by
  rcases crlf_cases cs with ⟨-, hcs⟩ | ⟨es, -, hcs⟩ | ⟨d, es, -, rfl, hcs⟩
  · rw [hcs] at h
    contradiction
  · rw [hcs, List.cons.injEq] at h
    exact absurd h.1.symm hc
  · rw [hcs, List.cons.injEq] at h
    exact ⟨es, by rw [h.1], h.2.symm⟩

theorem eq_cons_cons_of_crlf {c d : Char} {cs ds : List Char} (hc : c ≠ '\r') (hd : d ≠ '\r')
    (h : crlf cs = c :: d :: ds) : ∃ es, cs = c :: d :: es := by
  obtain ⟨es, rfl, hes⟩ := eq_cons_of_crlf hc h
  obtain ⟨fs, rfl, -⟩ := eq_cons_of_crlf hd hes.symm
  exact ⟨fs, rfl⟩

/-! ## Comments and quoted texts -/

theorem blockCommentRest_crlf (depth : Nat) (cs : List Char) :
    blockCommentRest depth (crlf cs) = crlf (blockCommentRest depth cs) := by
  fun_induction blockCommentRest depth cs with
  | case1 => simp [blockCommentRest]
  | case2 depth cs ih => simp [crlf, blockCommentRest, ih]
  | case3 cs => simp [crlf, blockCommentRest]
  | case4 depth cs ih => simp [crlf, blockCommentRest, ih]
  | case5 depth c cs hopen hclose hinner ih =>
    by_cases hc : c = '\n'
    · simp [hc, blockCommentRest, ih]
    · rw [crlf_cons hc, crlf_cons hc, blockCommentRest, ih]
      · intro ds hslash hds
        obtain ⟨es, rfl, -⟩ := eq_cons_of_crlf (by decide) hds
        exact hopen es hslash rfl
      · intro ds hdepth hstar hds
        obtain ⟨es, rfl, -⟩ := eq_cons_of_crlf (by decide) hds
        exact hclose es hdepth hstar rfl
      · intro n ds hdepth hstar hds
        obtain ⟨es, rfl, -⟩ := eq_cons_of_crlf (by decide) hds
        exact hinner n es hdepth hstar rfl

theorem quotedRest_crlf (cs : List Char) : quotedRest (crlf cs) = crlf (quotedRest cs) := by
  fun_induction quotedRest cs with
  | case1 => rfl
  | case2 c cs ih =>
    by_cases hc : c = '\n'
    · simp [crlf, hc, quotedRest, ih]
    · simp [crlf, hc, quotedRest, ih]
  | case3 cs => simp [crlf, quotedRest]
  | case4 c cs hescape hquote ih =>
    by_cases hc : c = '\n'
    · simp [crlf, hc, quotedRest, ih]
    · rw [crlf_cons hc, crlf_cons hc, quotedRest, if_neg hquote, ih]
      intro d ds hbackslash hds
      cases cs with
      | nil => contradiction
      | cons e es => exact hescape e es hbackslash rfl

theorem text?_crlf (cs : List Char) : text? (crlf cs) = (text? cs).map crlf := by
  fun_cases text? cs with
  | case1 cs => simp [crlf, text?, quotedRest_crlf]
  | case2 cs => simp [crlf, text?, quotedRest_crlf]
  | case3 cs => simp [crlf, text?, quotedRest_crlf]
  | case4 cs hquote hbytes hc =>
    rw [Option.map_none, text?]
    · intro ds hds
      obtain ⟨es, rfl, -⟩ := eq_cons_of_crlf (by decide) hds
      exact hquote es rfl
    · intro ds hds
      obtain ⟨es, rfl⟩ := eq_cons_cons_of_crlf (by decide) (by decide) hds
      exact hbytes es rfl
    · intro ds hds
      obtain ⟨es, rfl⟩ := eq_cons_cons_of_crlf (by decide) (by decide) hds
      exact hc es rfl

theorem isPrefixOf_crlf {h : List Char} (hh : ∀ c ∈ h, c ≠ '\n' ∧ c ≠ '\r') (cs : List Char) :
    h.isPrefixOf (crlf cs) = h.isPrefixOf cs := by
  induction h generalizing cs with
  | nil => simp
  | cons c h ih =>
    rw [List.forall_mem_cons] at hh
    obtain ⟨⟨hn, hr⟩, hh⟩ := hh
    rcases crlf_cases cs with ⟨rfl, hcs⟩ | ⟨ds, rfl, hcs⟩ | ⟨d, ds, -, rfl, hcs⟩
    · rfl
    · rw [hcs, List.isPrefixOf_cons_cons, List.isPrefixOf_cons_cons, beq_false_of_ne hn,
        beq_false_of_ne hr, Bool.false_and, Bool.false_and]
    · rw [hcs, List.isPrefixOf_cons_cons, List.isPrefixOf_cons_cons, ih hh]

theorem rawRest_crlf {hashes : List Char} (hh : ∀ c ∈ hashes, c ≠ '\n' ∧ c ≠ '\r')
    (cs : List Char) : rawRest hashes (crlf cs) = crlf (rawRest hashes cs) := by
  induction cs with
  | nil => rfl
  | cons c cs ih =>
    by_cases hc : c = '\n'
    · simp [hc, rawRest, ih]
    · rw [crlf_cons hc, rawRest, rawRest, isPrefixOf_crlf hh, ih]
      split
      · rw [crlf_cons hc, crlf_of_not_mem fun hmem => (hh _ hmem).1 rfl]
      · rw [crlf_cons hc]

theorem rawBody?_crlf (cs : List Char) : rawBody? (crlf cs) = (rawBody? cs).map crlf := by
  rcases crlf_cases cs with ⟨rfl, hcs⟩ | ⟨ds, rfl, hcs⟩ | ⟨c, ds, -, rfl, hcs⟩
  · rfl
  · rw [hcs]; rfl
  · rw [hcs]
    by_cases hr : c = 'r'
    · rw [hr, rawBody?, rawBody?]
      have hhashes : ∀ d ∈ ds.takeWhile (· == '#'), d ≠ '\n' ∧ d ≠ '\r' := by
        intro d hd
        have hd := List.all_eq_true.mp List.all_takeWhile d hd
        rw [eq_of_beq hd]
        decide
      rw [takeWhile_crlf (by decide) (by decide), dropWhile_crlf (by decide) (by decide)]
      rcases crlf_cases (ds.dropWhile (· == '#')) with ⟨hds, hds'⟩ | ⟨es, hds, hds'⟩ |
        ⟨e, es, -, hds, hds'⟩
      · rw [hds', hds]; rfl
      · rw [hds', hds]; rfl
      · rw [hds', hds]
        by_cases hquote : e = '"'
        · subst hquote
          simp [crlf, crlf_append, rawRest_crlf hhashes,
            crlf_of_not_mem fun hmem => (hhashes _ hmem).1 rfl]
        · simp [hquote]
    · rw [rawBody?, rawBody?, Option.map_none]
      · intro es hes
        exact hr (List.cons.inj hes).1
      · intro es hes
        exact hr (List.cons.inj hes).1

theorem map_cons_crlf {c : Char} (hc : c ≠ '\n') (o : Option (List Char)) :
    (o.map crlf).map (c :: ·) = (o.map (c :: ·)).map crlf := by
  cases o with
  | none => rfl
  | some l => exact congrArg some (crlf_cons hc l).symm

theorem rawText?_crlf (cs : List Char) : rawText? (crlf cs) = (rawText? cs).map crlf := by
  have hb : 'b' ≠ '\n' := by decide
  have hc : 'c' ≠ '\n' := by decide
  fun_cases rawText? cs with
  | case1 cs => rw [crlf_cons hb, rawText?, rawBody?_crlf, map_cons_crlf hb]
  | case2 cs => rw [crlf_cons hc, rawText?, rawBody?_crlf, map_cons_crlf hc]
  | case3 cs hbytes hc =>
    rw [rawText?, rawBody?_crlf]
    · intro ds hds
      obtain ⟨es, rfl, -⟩ := eq_cons_of_crlf (by decide) hds
      exact hbytes es rfl
    · intro ds hds
      obtain ⟨es, rfl, -⟩ := eq_cons_of_crlf (by decide) hds
      exact hc es rfl

/-! ## Characters -/

theorem takeWhile_take_crlf {p : Char → Bool} (hn : p '\n' = false) (hr : p '\r' = false)
    (n : Nat) (cs : List Char) : ((crlf cs).take n).takeWhile p = (cs.take n).takeWhile p := by
  induction n generalizing cs with
  | zero => rfl
  | succ n ih =>
    rcases crlf_cases cs with ⟨rfl, hcs⟩ | ⟨ds, rfl, hcs⟩ | ⟨d, ds, -, rfl, hcs⟩
    · rfl
    · simp [hcs, hn, hr]
    · rw [hcs, List.take_succ_cons, List.take_succ_cons, List.takeWhile_cons, List.takeWhile_cons,
        ih]

/-- An escape is the same if it is not that of a line feed. -/
theorem escape?_crlf {cs : List Char} (hcs : cs.head? ≠ some '\n') :
    escape? (crlf cs) = escape? cs := by
  have hn : isHexDigit '\n' = false := by decide
  have hr : isHexDigit '\r' = false := by decide
  rcases crlf_cases cs with ⟨rfl, -⟩ | ⟨ds, rfl, -⟩ | ⟨c, ds, hc, rfl, hcs'⟩
  · rfl
  · contradiction
  rw [hcs']
  by_cases hx : c = 'x'
  · subst hx
    rcases crlf_cases ds with ⟨rfl, -⟩ | ⟨es, rfl, hds⟩ | ⟨a, es, -, rfl, hds⟩
    · rfl
    · rw [hds]
      cases es <;> simp [escape?, hn, hr]
    · rw [hds]
      rcases crlf_cases es with ⟨rfl, hes⟩ | ⟨fs, rfl, hes⟩ | ⟨b, fs, -, rfl, hes⟩
      · rfl
      · simp [hes, escape?, hn, hr]
      · simp [hes, escape?]
  · by_cases hu : c = 'u'
    · subst hu
      rcases crlf_cases ds with ⟨rfl, -⟩ | ⟨es, rfl, hds⟩ | ⟨d, es, hd, rfl, hds⟩
      · rfl
      · simp [hds, escape?, hn, hr]
      · rw [hds]
        by_cases hbrace : d = '\x7b'
        · subst hbrace
          rw [escape?, escape?, takeWhile_crlf hn hr, dropWhile_crlf hn hr]
          rcases crlf_cases (es.dropWhile isHexDigit) with ⟨h, h'⟩ | ⟨fs, h, h'⟩ | ⟨e, fs, -, h, h'⟩
          · rw [h', h]
          · rw [h', h]
            cases es.takeWhile isHexDigit <;> simp
          · rw [h', h]
            cases es.takeWhile isHexDigit with
            | nil => rfl
            | cons a as =>
              by_cases he : e = '\x7d'
              · subst he
                rfl
              · simp [he]
        · have hdigits := takeWhile_take_crlf hn hr 4 (d :: es)
          rw [crlf_cons hd] at hdigits
          rw [escape?, escape?, hdigits]
          · intro fs hfs
            exact hbrace (List.cons.inj hfs).1
          · intro fs hfs
            exact hbrace (List.cons.inj hfs).1
    · have hplain (es : List Char) : escape? (c :: es) = some [c] := by
        rw [escape?]
        · exact fun _ _ _ h _ => hx h
        · exact hx
        · exact fun _ h _ => hu h
        · exact hu
      rw [hplain, hplain]

theorem head?_crlf {c : Char} (hn : c ≠ '\n') (hr : c ≠ '\r') (cs : List Char) :
    (crlf cs).head? = some c ↔ cs.head? = some c := by
  rcases crlf_cases cs with ⟨rfl, -⟩ | ⟨ds, rfl, hcs⟩ | ⟨d, ds, -, rfl, hcs⟩
  · rfl
  · simp [hcs, Ne.symm hn, Ne.symm hr]
  · rw [hcs, List.head?_cons, List.head?_cons]

/-- So is a character literal without a line feed. -/
theorem charBody?_crlf {cs : List Char} (h : ∀ l, charBody? cs = some l → '\n' ∉ l) :
    charBody? (crlf cs) = charBody? cs := by
  have hquoteMark {es : List Char} : (crlf es).head? = some '\'' ↔ es.head? = some '\'' :=
    head?_crlf (by decide) (by decide) es
  rcases crlf_cases cs with ⟨rfl, -⟩ | ⟨ds, rfl, hcs⟩ | ⟨c, ds, hc, rfl, hcs⟩
  · rfl
  · rw [hcs]
    rfl
  rw [hcs]
  by_cases hquote : c = '\''
  · subst hquote
    rcases crlf_cases ds with ⟨rfl, -⟩ | ⟨es, rfl, hds⟩ | ⟨d, es, hd, rfl, hds⟩
    · rfl
    · -- A line feed between quotation marks would be the character.
      rw [hds, charBody?_plain (by decide) (by decide), charBody?_plain (by decide) (by decide)]
      rw [charBody?_plain (by decide) (by decide)] at h
      by_cases hes : es.head? = some '\''
      · rw [if_pos hes] at h
        exact absurd (h _ rfl) (by decide)
      · rw [if_neg hes]
        rfl
    rw [hds]
    by_cases hempty : d = '\''
    · subst hempty
      rfl
    by_cases hescape : d = '\\'
    · subst hescape
      rw [charBody?] at h
      rw [charBody?, charBody?]
      by_cases hes : es.head? = some '\n'
      · obtain ⟨fs, rfl⟩ := List.head?_eq_some_iff.mp hes
        have hplain (c : Char) (hc : c = '\n' ∨ c = '\r') (gs : List Char) :
            escape? (c :: gs) = some [c] := by
          rcases hc with rfl | rfl <;> rfl
        rw [hplain _ (Or.inl rfl)] at h
        rw [crlf_lineFeed, hplain _ (Or.inl rfl), hplain _ (Or.inr rfl)]
        simp only [List.length_singleton, List.drop_succ_cons, List.drop_zero] at h ⊢
        by_cases hfs : fs.head? = some '\''
        · rw [if_pos hfs] at h
          exact absurd (h _ rfl) (by decide)
        · rw [if_neg hfs]
          rfl
      · rw [escape?_crlf hes]
        cases he : escape? es with
        | none => rfl
        | some e =>
          have hprefix := escape?_isPrefix he
          have he' : escape? (crlf es) = some e := (escape?_crlf hes).trans he
          have hmem := not_mem_of_isPrefix_crlf hprefix (escape?_isPrefix he')
          simp only [drop_crlf hprefix hmem, hquoteMark]
    · rw [charBody?_plain hempty hescape, charBody?_plain hempty hescape]
      simp only [hquoteMark]
  · rw [charBody?, charBody?]
    all_goals
      intros
      simp_all only [List.cons.injEq, false_and]

theorem char?_crlf {cs : List Char} (h : ∀ l, char? cs = some l → '\n' ∉ l) :
    char? (crlf cs) = char? cs := by
  have hb : 'b' ≠ '\n' := by decide
  fun_cases char? cs with
  | case1 cs =>
    rw [crlf_cons hb, char?, charBody?_crlf]
    intro l hl hmem
    exact h ('b' :: l) (by rw [char?, hl]; rfl) (List.mem_cons_of_mem _ hmem)
  | case2 cs hbytes =>
    rw [char?, charBody?_crlf]
    · intro l hl
      exact h l (by rw [char?, hl]; exact hbytes)
    · intro ds hds
      obtain ⟨es, rfl, -⟩ := eq_cons_of_crlf (by decide) hds
      exact hbytes es rfl

/-! ## Numbers and words -/

/-- What both texts begin with leaves the same behind it. -/
theorem drop_of_isPrefix {l cs : List Char} (h : l <+: cs) (h' : l <+: crlf cs) :
    (crlf cs).drop l.length = crlf (cs.drop l.length) :=
  drop_crlf h (not_mem_of_isPrefix_crlf h h')

theorem fraction?_crlf (cs : List Char) : fraction? (crlf cs) = fraction? cs := by
  rcases crlf_cases cs with ⟨rfl, -⟩ | ⟨ds, rfl, hcs⟩ | ⟨c, ds, -, rfl, hcs⟩
  · rfl
  · rw [hcs]
    rfl
  rw [hcs]
  by_cases hpoint : c = '.'
  · subst hpoint
    rcases crlf_cases ds with ⟨rfl, -⟩ | ⟨es, rfl, hds⟩ | ⟨d, es, hd, rfl, hds⟩
    · rfl
    · rw [hds]
      rfl
    · have hdigits := takeWhile_crlf (p := isDecimalPart) (by decide) (by decide) (d :: es)
      rw [hds] at hdigits
      rw [hds, fraction?, fraction?, hdigits]
  · rw [fraction?, fraction?]
    · exact fun _ h => hpoint (List.cons.inj h).1
    · exact fun _ h => hpoint (List.cons.inj h).1

theorem exponent?_crlf (cs : List Char) : exponent? (crlf cs) = exponent? cs := by
  rcases crlf_cases cs with ⟨rfl, -⟩ | ⟨ds, rfl, hcs⟩ | ⟨c, ds, -, rfl, hcs⟩
  · rfl
  · rw [hcs]
    rfl
  have hsign : ((crlf ds).take 1).filter (fun s => s == '+' || s == '-') =
      (ds.take 1).filter fun s => s == '+' || s == '-' := by
    rcases crlf_cases ds with ⟨rfl, -⟩ | ⟨es, rfl, hds⟩ | ⟨d, es, -, rfl, hds⟩
    · rfl
    · rw [hds]
      rfl
    · rw [hds]
      rfl
  have hdrop := drop_of_isPrefix (filter_take_one_isPrefix (fun s => s == '+' || s == '-') ds)
    (by rw [← hsign]; exact filter_take_one_isPrefix _ _)
  rw [hcs, exponent?, exponent?, hsign]
  dsimp only
  rw [hdrop, takeWhile_crlf (by decide) (by decide)]

theorem floatSuffix_crlf (cs : List Char) : floatSuffix (crlf cs) = floatSuffix cs := by
  rcases crlf_cases cs with ⟨rfl, -⟩ | ⟨ds, rfl, hcs⟩ | ⟨c, ds, -, rfl, hcs⟩
  · rfl
  · rw [hcs]
    rfl
  · rw [hcs, floatSuffix, floatSuffix, takeWhile_crlf (by decide) (by decide)]

theorem float?_crlf (cs : List Char) : float? (crlf cs) = float? cs := by
  have hwhole := takeWhile_crlf (p := isDecimalPart) (by decide) (by decide) cs
  have hprefix : cs.takeWhile isDecimalPart <+: cs := List.takeWhile_prefix _
  have hprefix' : cs.takeWhile isDecimalPart <+: crlf cs := by
    rw [← hwhole]
    exact List.takeWhile_prefix _
  have hdrop := drop_of_isPrefix hprefix hprefix'
  have hfraction := fraction?_crlf (cs.drop (cs.takeWhile isDecimalPart).length)
  unfold float?
  dsimp only
  rw [hwhole, hdrop, hfraction]
  cases hf : fraction? (cs.drop (cs.takeWhile isDecimalPart).length) with
  | none => rfl
  | some fraction =>
    have hbody := append_prefix_of_drop hprefix (fraction?_isPrefix hf)
    have hafter : fraction <+: (crlf cs).drop (cs.takeWhile isDecimalPart).length := by
      rw [hdrop]
      exact fraction?_isPrefix (hfraction.trans hf)
    have hbody' := append_prefix_of_drop hprefix' hafter
    have hrest := drop_of_isPrefix hbody hbody'
    have hexponent := exponent?_crlf (cs.drop (cs.takeWhile isDecimalPart ++ fraction).length)
    dsimp only
    rw [hrest, hexponent]
    cases he : exponent? (cs.drop (cs.takeWhile isDecimalPart ++ fraction).length) with
    | none => rw [floatSuffix_crlf]
    | some exponent =>
      have hall := append_prefix_of_drop hbody (exponent?_isPrefix he)
      have hafter : exponent <+:
          (crlf cs).drop (cs.takeWhile isDecimalPart ++ fraction).length := by
        rw [hrest]
        exact exponent?_isPrefix (hexponent.trans he)
      have hall' := append_prefix_of_drop hbody' hafter
      cases exponent with
      | nil => rfl
      | cons c digits =>
        dsimp only
        rw [drop_of_isPrefix hall hall', floatSuffix_crlf]

theorem integerSuffix_crlf (cs : List Char) : integerSuffix (crlf cs) = integerSuffix cs := by
  have hprefix : ∀ s ∈ numericTypes.map String.toList, s.isPrefixOf (crlf cs) = s.isPrefixOf cs := by
    have hall : (numericTypes.map String.toList).all (·.all fun c => c != '\n' && c != '\r') =
        true := by
      decide
    intro s hs
    have hs := List.all_eq_true.mp hall s hs
    exact isPrefixOf_crlf (by simpa using hs) cs
  rw [integerSuffix, integerSuffix, ← List.head?_filter, ← List.head?_filter,
    List.filter_congr hprefix]

theorem radixDigits_crlf {accepts : Char → Bool} (hn : accepts '\n' = false)
    (hr : accepts '\r' = false) (mark : Char) (cs : List Char) :
    radixDigits mark accepts (crlf cs) = radixDigits mark accepts cs := by
  rw [radixDigits, radixDigits, takeWhile_crlf hn hr]

theorem integerDigits_crlf (cs : List Char) : integerDigits (crlf cs) = integerDigits cs := by
  fun_cases integerDigits cs with
  | case1 cs =>
    rw [crlf_cons (by decide), crlf_cons (by decide), integerDigits,
      radixDigits_crlf (by decide) (by decide)]
  | case2 cs =>
    rw [crlf_cons (by decide), crlf_cons (by decide), integerDigits,
      radixDigits_crlf (by decide) (by decide)]
  | case3 cs =>
    rw [crlf_cons (by decide), crlf_cons (by decide), integerDigits,
      radixDigits_crlf (by decide) (by decide)]
  | case4 cs hhex hoctal hbinary =>
    rw [integerDigits, takeWhile_crlf (by decide) (by decide)]
    · intro ds hds
      obtain ⟨es, rfl⟩ := eq_cons_cons_of_crlf (by decide) (by decide) hds
      exact hhex es rfl
    · intro ds hds
      obtain ⟨es, rfl⟩ := eq_cons_cons_of_crlf (by decide) (by decide) hds
      exact hoctal es rfl
    · intro ds hds
      obtain ⟨es, rfl⟩ := eq_cons_cons_of_crlf (by decide) (by decide) hds
      exact hbinary es rfl

theorem integer_crlf (cs : List Char) : integer (crlf cs) = integer cs := by
  have hdigits := integerDigits_crlf cs
  have hdrop := drop_of_isPrefix (integerDigits_isPrefix cs)
    (by rw [← hdigits]; exact integerDigits_isPrefix _)
  rw [integer, integer, hdigits, hdrop, integerSuffix_crlf]

theorem number?_crlf (member : Bool) (cs : List Char) :
    number? member (crlf cs) = number? member cs := by
  rcases crlf_cases cs with ⟨rfl, -⟩ | ⟨ds, rfl, hcs⟩ | ⟨c, ds, -, rfl, hcs⟩
  · rfl
  · rw [hcs]
    rfl
  · have hfloat := float?_crlf (c :: ds)
    have hinteger := integer_crlf (c :: ds)
    rw [hcs] at hfloat hinteger
    rw [hcs]
    simp only [number?, hfloat, hinteger]

theorem word?_crlf (cs : List Char) : word? (crlf cs) = word? cs := by
  have hn : isNameContinue '\n' = false := by decide
  have hr : isNameContinue '\r' = false := by decide
  have hstart (c : Char) (hc : isNameStart c = true) : c ≠ '\n' := by
    rintro rfl
    exact absurd hc (by decide)
  fun_cases word? cs with
  | case1 c cs hc =>
    rw [crlf_cons (by decide), crlf_cons (by decide), crlf_cons (hstart c hc), word?, if_pos hc,
      takeWhile_crlf hn hr]
  | case2 c cs hc =>
    rw [crlf_cons (by decide), crlf_cons (by decide)]
    by_cases hbreak : c = '\n'
    · rw [hbreak]
      rfl
    · rw [crlf_cons hbreak, word?, if_neg hc]
  | case3 c cs hraw hc =>
    rw [crlf_cons (hstart c hc), word?, if_pos hc, takeWhile_crlf hn hr]
    intro d ds hr' hds
    obtain ⟨es, rfl, hes⟩ := eq_cons_of_crlf (by decide) hds
    cases es with
    | nil => exact absurd hes (List.cons_ne_nil _ _)
    | cons e es => exact hraw e es hr' rfl
  | case4 c cs hraw hc =>
    by_cases hbreak : c = '\n'
    · rw [hbreak]
      rfl
    · rw [crlf_cons hbreak, word?, if_neg hc]
      intro d ds hr' hds
      obtain ⟨es, rfl, hes⟩ := eq_cons_of_crlf (by decide) hds
      cases es with
      | nil => exact absurd hes (List.cons_ne_nil _ _)
      | cons e es => exact hraw e es hr' rfl
  | case5 => rfl

/-! ## Lexemes -/

/-- The carriage return in front of a text that begins with a line feed. -/
def carriage : List Char → List Char
  | '\n' :: _ => ['\r']
  | _ => []

/-- A line runs up to the next line break, and takes the first character of it. -/
theorem takeWhile_line_crlf (cs : List Char) : (crlf cs).takeWhile (· != '\n') =
    cs.takeWhile (· != '\n') ++ carriage (cs.dropWhile (· != '\n')) := by
  induction cs with
  | nil => rfl
  | cons c cs ih =>
    by_cases hc : c = '\n'
    · subst hc
      rfl
    · have hne : (c != '\n') = true := bne_iff_ne.mpr hc
      simp only [crlf_cons hc, List.takeWhile_cons, List.dropWhile_cons, hne, if_true, ih,
        List.cons_append]

/-- A line comment takes the carriage return at its end. -/
theorem comment?_lineComment_crlf {l rest : List Char}
    (h : comment? (l ++ rest) = some (.lineComment, l)) :
    '\n' ∉ l ∧ comment? (crlf (l ++ rest)) = some (.lineComment, l ++ carriage rest) := by
  have hslash : '/' ≠ '\n' := by decide
  generalize hcs : l ++ rest = cs at h
  fun_cases comment? cs with
  | case1 cs =>
    obtain rfl := (Prod.mk.inj (Option.some.inj h)).2
    have hrest : rest = cs.dropWhile (· != '\n') := by
      rw [List.cons_append, List.cons_append, List.cons.injEq, List.cons.injEq] at hcs
      exact List.append_cancel_left (hcs.2.2.trans List.takeWhile_append_dropWhile.symm)
    refine ⟨fun hmem => ?_, ?_⟩
    · simp only [List.mem_cons, hslash.symm, false_or] at hmem
      exact absurd (List.all_eq_true.mp List.all_takeWhile _ hmem) (by decide)
    · rw [crlf_cons hslash, crlf_cons hslash, comment?, takeWhile_line_crlf, hrest]
      rfl
  | case2 => simp [comment?] at h
  | case3 => simp_all [comment?]

theorem comment?_crlf {cs : List Char} {kind : TokenKind} {l : List Char}
    (hkind : kind ≠ .lineComment) (h : comment? cs = some (kind, l)) :
    comment? (crlf cs) = some (kind, crlf l) := by
  fun_cases comment? cs with
  | case1 cs =>
    rw [comment?] at h
    exact absurd (Prod.mk.inj (Option.some.inj h)).1.symm hkind
  | case2 cs =>
    rw [comment?] at h
    obtain ⟨rfl, rfl⟩ := Prod.mk.inj (Option.some.inj h)
    simp [crlf, comment?, blockCommentRest_crlf]
  | case3 cs hline hblock => simp_all [comment?]

theorem comment?_none_crlf {cs : List Char} (h : comment? cs = none) :
    comment? (crlf cs) = none := by
  rw [comment?]
  · intro ds hds
    obtain ⟨es, rfl⟩ := eq_cons_cons_of_crlf (by decide) (by decide) hds
    rw [comment?] at h
    contradiction
  · intro ds hds
    obtain ⟨es, rfl⟩ := eq_cons_cons_of_crlf (by decide) (by decide) hds
    rw [comment?] at h
    contradiction

/-- What a lexeme takes of the line break behind it. -/
def taken (kind : TokenKind) (rest : List Char) : List Char :=
  if kind = .lineComment then carriage rest else []

/-- A lexeme that both texts begin with. -/
theorem crlf_of_isPrefix {l cs : List Char} (h : l <+: cs) (h' : l <+: crlf cs) : crlf l = l :=
  crlf_of_not_mem (not_mem_of_isPrefix_crlf h h')

/-- The lexeme at the front of a text is the same with its line breaks written anew, if it is no
character literal with a line break in it. -/
theorem lexeme_crlf {member : Bool} {c : Char} {cs rest l : List Char} {kind : TokenKind}
    (hblank : isBlank c = false) (hlex : lexeme member (c :: cs) = (kind, l))
    (hrest : l ++ rest = c :: cs) (hchar : kind = .char → '\n' ∉ l) :
    lexeme member (crlf (c :: cs)) = (kind, crlf l ++ taken kind rest) := by
  have hlong {k : TokenKind} (hk : k ≠ .lineComment) (m : List Char) :
      crlf m ++ taken k rest = crlf m := by
    rw [taken, if_neg hk, List.append_nil]
  unfold lexeme at hlex ⊢
  dsimp only at hlex ⊢
  cases hcomment : comment? (c :: cs) with
  | some r =>
    obtain ⟨k, m⟩ := r
    rw [hcomment, Option.some_or, Option.getD_some] at hlex
    obtain ⟨rfl, rfl⟩ := Prod.mk.inj hlex
    by_cases hk : k = .lineComment
    · obtain rfl := hk
      rw [← hrest] at hcomment ⊢
      obtain ⟨hmem, hcrlf⟩ := comment?_lineComment_crlf hcomment
      rw [hcrlf, Option.some_or, Option.getD_some, crlf_of_not_mem hmem, taken, if_pos rfl]
    · rw [comment?_crlf hk hcomment, Option.some_or, Option.getD_some, hlong hk]
  | none =>
  rw [hcomment, Option.none_or] at hlex
  rw [comment?_none_crlf hcomment, Option.none_or, rawText?_crlf, text?_crlf]
  cases hraw : rawText? (c :: cs) with
  | some m =>
    rw [hraw] at hlex
    obtain ⟨rfl, rfl⟩ := Prod.mk.inj hlex
    exact congrArg _ (hlong (by decide) m).symm
  | none =>
  rw [hraw] at hlex
  cases htext : text? (c :: cs) with
  | some m =>
    rw [htext] at hlex
    obtain ⟨rfl, rfl⟩ := Prod.mk.inj hlex
    exact congrArg _ (hlong (by decide) m).symm
  | none =>
  rw [htext] at hlex
  have hsame : char? (crlf (c :: cs)) = char? (c :: cs) := char?_crlf fun m hm => by
    rw [hm] at hlex
    obtain ⟨rfl, rfl⟩ := Prod.mk.inj hlex
    exact hchar rfl
  rw [hsame, number?_crlf, word?_crlf]
  cases hcharacter : char? (c :: cs) with
  | some m =>
    rw [hcharacter] at hlex
    obtain ⟨rfl, rfl⟩ := Prod.mk.inj hlex
    rw [hlong (by decide), crlf_of_not_mem (hchar rfl)]
    rfl
  | none =>
  rw [hcharacter] at hlex
  cases hnumber : number? member (c :: cs) with
  | some r =>
    obtain ⟨k, m⟩ := r
    rw [hnumber] at hlex
    obtain ⟨rfl, rfl⟩ := Prod.mk.inj hlex
    have hk : k ≠ .lineComment := by
      rintro rfl
      rcases number?_kind hnumber with h | h <;> contradiction
    rw [hlong hk, crlf_of_isPrefix (number?_isPrefix hnumber)
      (number?_isPrefix ((number?_crlf _ _).trans hnumber))]
    rfl
  | none =>
  rw [hnumber] at hlex
  cases hword : word? (c :: cs) with
  | some m =>
    rw [hword] at hlex
    obtain ⟨rfl, rfl⟩ := Prod.mk.inj hlex
    rw [hlong (by decide), crlf_of_isPrefix (word?_isPrefix hword)
      (word?_isPrefix ((word?_crlf _).trans hword))]
    rfl
  | none =>
    rw [hword] at hlex
    obtain ⟨rfl, rfl⟩ := Prod.mk.inj hlex
    have hc : c ≠ '\n' := by
      rintro rfl
      exact absurd hblank (by decide)
    rw [hlong (by decide), List.take_succ_cons, List.take_zero, crlf_cons hc, crlf_cons hc]
    rfl

end Attest.Syntax
