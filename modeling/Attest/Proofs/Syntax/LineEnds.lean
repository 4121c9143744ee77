/-
  Scanning a text whose line breaks are written anew, each with a carriage return in front. The
  tokens are the same (`scan_crlf`), each as many bytes later as there are line breaks in front of
  it, and the same operators stand at them (`aligned_crlf`).
-/
import Attest.Proofs.Syntax.LineBreak
import Attest.Proofs.Syntax.Aligned

namespace Attest.Syntax

open Text (isBlank byteLength rowOf)

/-- The text with a carriage return in front of every line feed. -/
def crlfText (text : String) : String := String.ofList (crlf text.toList)

theorem length_le_crlf (cs : List Char) : cs.length ≤ (crlf cs).length := by
  induction cs with
  | nil => exact Nat.le_refl 0
  | cons c cs ih =>
    by_cases hc : c = '\n'
    · simp only [hc, crlf_lineFeed, List.length_cons]
      omega
    · simp only [crlf_cons hc, List.length_cons]
      omega

/-! ## Places -/

/-- The second place has a carriage return more in front of it for every row. -/
structure Shifted (p q : Place) : Prop where
  offset : q.offset = p.offset + p.row
  row : q.row = p.row
  points : q.points = p.points

namespace Shifted

variable {p q : Place}

theorem step (h : Shifted p q) {c : Char} (hc : c ≠ '\n') : Shifted (p.step c) (q.step c) := by
  obtain ⟨hoffset, hrow, hpoints⟩ := h
  refine ⟨?_, ?_, hpoints⟩
  · simp only [Place.step, if_neg hc, hoffset]
    omega
  · simp only [Place.step, if_neg hc, hrow]

theorem lineFeed (h : Shifted p q) : Shifted (p.step '\n') ((q.step '\r').step '\n') := by
  obtain ⟨hoffset, hrow, hpoints⟩ := h
  refine ⟨?_, ?_, hpoints⟩
  · simp only [Place.step, hoffset, Text.utf8Size_carriageReturn, if_true]
    omega
  · simp [Place.step, hrow]

theorem advance (h : Shifted p q) (l : List Char) :
    Shifted (p.advance l) (q.advance (crlf l)) := by
  induction l generalizing p q with
  | nil => exact h
  | cons c l ih =>
    by_cases hc : c = '\n'
    · rw [hc, crlf_lineFeed]
      exact ih h.lineFeed
    · rw [crlf_cons hc]
      exact ih (h.step hc)

theorem after (h : Shifted p q) (kind : TokenKind) (l : List Char) :
    Shifted (p.after kind l) (q.after kind (crlf l)) := by
  have hadvance := h.advance l
  have hpoint : crlf l = ['.'] ↔ l = ['.'] := by
    constructor
    · intro hl
      obtain ⟨es, rfl, hes⟩ := eq_cons_of_crlf (by decide) hl
      cases es with
      | nil => rfl
      | cons e es =>
        have := length_le_crlf (e :: es)
        rw [← hes] at this
        contradiction
    · rintro rfl
      rfl
  unfold Place.after
  cases kind with
  | lineComment => exact hadvance
  | blockComment => exact hadvance
  | _ => exact ⟨hadvance.offset, hadvance.row, by simp only [hpoint, h.points]⟩

end Shifted

/-! ## Tokens -/

/-- The same token, as many bytes later as there are line breaks in front of it. A line comment may
have taken a carriage return. -/
structure LineBroken (t u : Token) : Prop where
  kind : u.kind = t.kind
  row : u.row = t.row
  start : u.start = t.start + t.row
  like : t.Like u
  text : t.kind ≠ .lineComment → u.text.toList = crlf t.text.toList

theorem Shifted.lineBroken {p q : Place} (h : Shifted p q) {kind : TokenKind} {l m : List Char}
    (hlike : m = l ∨ kind.isLong = true ∧ 2 ≤ l.length ∧ 2 ≤ m.length)
    (htext : kind ≠ .lineComment → m = crlf l) :
    LineBroken ⟨kind, String.ofList l, p.offset, p.row⟩ ⟨kind, String.ofList m, q.offset, q.row⟩ := by
  refine ⟨rfl, h.row, h.offset, ?_, fun hkind => ?_⟩
  · rcases hlike with rfl | ⟨hlong, hl, hm⟩
    · exact Or.inl rfl
    · exact Or.inr ⟨hlong, by simpa using hl, by simpa using hm⟩
  · rw [String.toList_ofList, String.toList_ofList, htext hkind]

/-- Only long lexemes, and characters, have line breaks in them. -/
theorem lexeme_short {member : Bool} {c : Char} {cs l : List Char} {kind : TokenKind}
    (hblank : isBlank c = false) (hlex : lexeme member (c :: cs) = (kind, l))
    (hshort : kind.isLong = false) (hchar : kind = .char → '\n' ∉ l) : '\n' ∉ l := by
  have hcases := lexeme_cases member (c :: cs)
  rw [hlex] at hcases
  rcases hcases with h | ⟨l', -, h⟩ | ⟨l', -, h⟩ | ⟨l', -, h⟩ | h | ⟨l', hl, h⟩ | h
  · rcases comment?_kind h with rfl | rfl <;> contradiction
  · obtain ⟨rfl, rfl⟩ := Prod.mk.inj h
    contradiction
  · obtain ⟨rfl, rfl⟩ := Prod.mk.inj h
    contradiction
  · obtain ⟨rfl, rfl⟩ := Prod.mk.inj h
    exact hchar rfl
  · exact not_mem_of_isPrefix_crlf (number?_isPrefix h)
      (number?_isPrefix ((number?_crlf _ _).trans h))
  · obtain ⟨rfl, rfl⟩ := Prod.mk.inj h
    exact not_mem_of_isPrefix_crlf (word?_isPrefix hl) (word?_isPrefix ((word?_crlf _).trans hl))
  · obtain ⟨rfl, rfl⟩ := Prod.mk.inj h
    rw [List.take_succ_cons, List.take_zero, List.mem_singleton]
    rintro rfl
    exact absurd hblank (by decide)

theorem two_le_of_lineComment {member : Bool} {cs l : List Char}
    (hlex : lexeme member cs = (.lineComment, l)) : 2 ≤ l.length := by
  have hcases := lexeme_cases member cs
  rw [hlex] at hcases
  rcases hcases with h | ⟨l', -, h⟩ | ⟨l', -, h⟩ | ⟨l', -, h⟩ | h | ⟨l', -, h⟩ | h
  · unfold comment? at h
    split at h
    · obtain ⟨-, rfl⟩ := Prod.mk.inj (Option.some.inj h)
      exact Nat.le_add_left 2 _
    · cases h
    · cases h
  · cases h
  · cases h
  · cases h
  · rcases number?_kind h with h | h <;> contradiction
  · cases h
  · cases h

/-- The two lexemes are like each other. -/
theorem lexeme_like {member : Bool} {c : Char} {cs l : List Char} {kind : TokenKind}
    (hblank : isBlank c = false) (hlex : lexeme member (c :: cs) = (kind, l))
    (hchar : kind = .char → '\n' ∉ l) (rest : List Char) :
    crlf l ++ taken kind rest = l ∨
      kind.isLong = true ∧ 2 ≤ l.length ∧ 2 ≤ (crlf l ++ taken kind rest).length := by
  by_cases hcomment : kind = .lineComment
  · obtain rfl := hcomment
    have hl := two_le_of_lineComment hlex
    have hle := length_le_crlf l
    rw [List.length_append]
    exact Or.inr ⟨rfl, hl, by omega⟩
  rw [taken, if_neg hcomment, List.append_nil]
  by_cases hbreak : '\n' ∈ l
  · have hlong : kind.isLong = true := by
      by_contra hshort
      exact lexeme_short hblank hlex (Bool.eq_false_iff.mpr hshort) hchar hbreak
    -- The first character is another one.
    have hl : 2 ≤ l.length := by
      have hprefix := lexeme_isPrefix member (c :: cs)
      rw [hlex] at hprefix
      rcases List.prefix_cons_iff.mp hprefix with rfl | ⟨m, rfl, -⟩
      · contradiction
      · rcases List.mem_cons.mp hbreak with rfl | hm
        · exact absurd hblank (by decide)
        · have hpos := List.length_pos_of_mem hm
          rw [List.length_cons]
          omega
    exact Or.inr ⟨hlong, hl, Nat.le_trans hl (length_le_crlf l)⟩
  · exact Or.inl (crlf_of_not_mem hbreak)

/-! ## Scanning -/

/-- A carriage return in front of a line feed may be skipped. -/
theorem Scans.carriage {p : Place} {rest : List Char} {us : List Token}
    (h : Scans p (crlf rest) us) :
    ∃ rest', carriage rest ++ rest' = crlf rest ∧ Scans (p.advance (carriage rest)) rest' us := by
  rcases crlf_cases rest with ⟨rfl, -⟩ | ⟨cs, rfl, hcs⟩ | ⟨c, cs, hc, rfl, -⟩
  · exact ⟨[], rfl, h⟩
  · rw [hcs] at h
    cases h with
    | blank _ h => exact ⟨'\n' :: crlf cs, rfl, h⟩
    | token hblank => exact absurd hblank (by decide)
  · have hnone : Syntax.carriage (c :: cs) = [] := by
      rw [Syntax.carriage]
      exact fun _ h => hc (List.cons.inj h).1
    rw [hnone]
    exact ⟨crlf (c :: cs), rfl, h⟩

/-- Behind a token as behind its lexeme in the other text. -/
theorem Scans.taken {p : Place} {kind : TokenKind} {l rest : List Char} {us : List Token}
    (h : Scans (p.after kind l) (crlf rest) us) :
    ∃ rest', taken kind rest ++ rest' = crlf rest ∧
      Scans (p.after kind (l ++ taken kind rest)) rest' us := by
  by_cases hkind : kind = .lineComment
  · obtain rfl := hkind
    obtain ⟨rest', hrest', hscans⟩ := h.carriage
    refine ⟨rest', hrest', ?_⟩
    rw [Syntax.taken, if_pos rfl, Place.after, Place.advance, List.foldl_append]
    exact hscans
  · rw [Syntax.taken, if_neg hkind, List.append_nil]
    exact ⟨crlf rest, rfl, h⟩

theorem Scans.crlf {p q : Place} {cs : List Char} {ts : List Token} (h : Scans p cs ts)
    (hpq : Shifted p q) (hchar : ∀ t ∈ ts, t.kind = .char → '\n' ∉ t.text.toList) :
    ∃ us, Scans q (crlf cs) us ∧ List.Forall₂ LineBroken ts us := by
  induction h generalizing q with
  | nil => exact ⟨[], .nil, .nil⟩
  | @blank p c cs ts hc _ ih =>
    by_cases hbreak : c = '\n'
    · subst hbreak
      obtain ⟨us, hus, hall⟩ := ih hpq.lineFeed hchar
      exact ⟨us, .blank (by decide) (.blank (by decide) hus), hall⟩
    · obtain ⟨us, hus, hall⟩ := ih (hpq.step hbreak) hchar
      rw [crlf_cons hbreak]
      exact ⟨us, .blank hc hus, hall⟩
  | @token p c cs kind l rest ts hc hlex hrest _ ih =>
    rw [List.forall_mem_cons] at hchar
    obtain ⟨hchar, hchars⟩ := hchar
    rw [String.toList_ofList] at hchar
    obtain ⟨us, hus, hall⟩ := ih (hpq.after kind l) hchars
    obtain ⟨rest', hrest', hus'⟩ := hus.taken
    have hbreak : c ≠ '\n' := by
      rintro rfl
      exact absurd hc (by decide)
    have hcrlf : Syntax.crlf l ++ Syntax.taken kind rest ++ rest' = c :: Syntax.crlf cs := by
      rw [List.append_assoc, hrest', ← crlf_append, hrest, crlf_cons hbreak]
    have hlex' := lexeme_crlf hc hlex hrest hchar
    rw [crlf_cons hbreak] at hlex' ⊢
    rw [← hpq.points] at hlex'
    refine ⟨_, .token hc hlex' hcrlf hus', .cons ?_ hall⟩
    refine hpq.lineBroken (lexeme_like hc hlex hchar rest) fun hkind => ?_
    rw [Syntax.taken, if_neg hkind, List.append_nil]

theorem skipOrderMark_crlf {p q : Place} (h : Shifted p q) (cs : List Char) :
    Shifted (skipOrderMark p cs).1 (skipOrderMark q (crlf cs)).1 ∧
      (skipOrderMark q (crlf cs)).2 = crlf (skipOrderMark p cs).2 := by
  rcases crlf_cases cs with ⟨rfl, -⟩ | ⟨ds, rfl, hcs⟩ | ⟨c, ds, hc, rfl, hcs⟩
  · exact ⟨h, rfl⟩
  · rw [hcs]
    exact ⟨h, rfl⟩
  · rw [hcs, skipOrderMark, skipOrderMark]
    split
    · exact ⟨h.step hc, rfl⟩
    · exact ⟨h, (crlf_cons hc ds).symm⟩

theorem takeWhile_isBlank_crlf (cs : List Char) :
    (crlf cs).takeWhile isBlank = crlf (cs.takeWhile isBlank) := by
  induction cs with
  | nil => rfl
  | cons c cs ih =>
    by_cases hc : c = '\n'
    · have hn : isBlank '\n' = true := by decide
      have hr : isBlank '\r' = true := by decide
      simp [hc, hn, hr, ih]
    · rw [crlf_cons hc, List.takeWhile_cons, List.takeWhile_cons, ih]
      split
      · rw [crlf_cons hc]
      · rfl

theorem drop_crlf_length {a cs : List Char} (h : a <+: cs) :
    (crlf cs).drop (crlf a).length = crlf (cs.drop a.length) := by
  obtain ⟨b, rfl⟩ := h
  rw [crlf_append, List.drop_left, List.drop_left]

theorem mem_crlf {cs : List Char} : '\n' ∈ crlf cs ↔ '\n' ∈ cs := by
  induction cs with
  | nil => simp
  | cons c cs ih =>
    by_cases hc : c = '\n'
    · simp [hc]
    · rw [crlf_cons hc, List.mem_cons, List.mem_cons, ih]

/-- The first line is everything if there is no line break. -/
theorem length_takeWhile_line (cs : List Char) :
    cs.length = (cs.takeWhile (· != '\n')).length ↔ '\n' ∉ cs := by
  have hprefix := List.takeWhile_prefix (l := cs) (· != '\n')
  constructor
  · intro h hmem
    rw [← hprefix.eq_of_length h.symm] at hmem
    exact absurd (List.all_eq_true.mp List.all_takeWhile _ hmem) (by decide)
  · intro h
    rw [List.takeWhile_eq_self_iff.mpr fun c hc => bne_iff_ne.mpr (ne_of_mem_of_not_mem hc h)]

theorem head?_append_carriage (line rest : List Char) :
    (line ++ carriage rest).head? = some '[' ↔ line.head? = some '[' := by
  cases line with
  | cons => rfl
  | nil =>
    rw [List.nil_append]
    unfold carriage
    split <;> simp

/-- An interpreter line takes the carriage return at its end. -/
theorem shebang?_crlf (cs : List Char) :
    (shebang? cs = none ∧ shebang? (crlf cs) = none) ∨
    ∃ line rest, line ++ rest = cs ∧ 2 ≤ line.length ∧ '\n' ∉ line ∧ shebang? cs = some line ∧
      shebang? (crlf cs) = some (line ++ carriage rest) := by
  by_cases hcs : ∃ ds, cs = '#' :: '!' :: ds
  · obtain ⟨ds, rfl⟩ := hcs
    have hhash : '#' ≠ '\n' := by decide
    have hbang : '!' ≠ '\n' := by decide
    have hmem : '\n' ∉ ds.takeWhile (· != '\n') := fun hmem =>
      absurd (List.all_eq_true.mp List.all_takeWhile _ hmem) (by decide)
    have hlength := length_takeWhile_line (crlf ds)
    rw [takeWhile_line_crlf, mem_crlf] at hlength
    rw [crlf_cons hhash, crlf_cons hbang, shebang?, shebang?]
    simp only [Bool.or_eq_true, decide_eq_true_eq, takeWhile_line_crlf, length_takeWhile_line ds,
      hlength, head?_append_carriage]
    split
    · exact Or.inl ⟨rfl, rfl⟩
    · refine Or.inr ⟨'#' :: '!' :: ds.takeWhile (· != '\n'), ds.dropWhile (· != '\n'), ?_,
        Nat.le_add_left 2 _, ?_, rfl, rfl⟩
      · rw [List.cons_append, List.cons_append, List.takeWhile_append_dropWhile]
      · rw [List.mem_cons, List.mem_cons, not_or, not_or]
        exact ⟨hhash.symm, hbang.symm, hmem⟩
  · have hnone : shebang? cs = none := by
      rw [shebang?]
      exact fun ds hds => hcs ⟨ds, hds⟩
    have hnone' : shebang? (crlf cs) = none := by
      rw [shebang?]
      intro ds hds
      obtain ⟨es, rfl, hes⟩ := eq_cons_of_crlf (by decide) hds
      obtain ⟨fs, rfl, -⟩ := eq_cons_of_crlf (by decide) hes.symm
      exact hcs ⟨fs, rfl⟩
    exact Or.inl ⟨hnone, hnone'⟩

/-- Writing the line breaks anew leaves the tokens as they are. -/
theorem scan_crlf {text : String}
    (hchar : ∀ t ∈ scan text, t.kind = .char → '\n' ∉ t.text.toList) :
    List.Forall₂ LineBroken (scan text) (scan (crlfText text)) := by
  have hstart : Shifted ⟨0, 0, 0⟩ ⟨0, 0, 0⟩ := ⟨rfl, rfl, rfl⟩
  obtain ⟨hmark, hrest⟩ := skipOrderMark_crlf hstart text.toList
  unfold scan at hchar ⊢
  rw [crlfText, String.toList_ofList]
  generalize skipOrderMark ⟨0, 0, 0⟩ text.toList = r at *
  generalize skipOrderMark ⟨0, 0, 0⟩ (crlf text.toList) = r' at *
  obtain ⟨p, cs⟩ := r
  obtain ⟨q, cs'⟩ := r'
  obtain rfl : cs' = crlf cs := hrest
  have hbody := drop_crlf_length (List.takeWhile_prefix (l := cs) isBlank)
  have hplace := hmark.advance (cs.takeWhile isBlank)
  dsimp only at hchar hplace ⊢
  rw [takeWhile_isBlank_crlf, hbody]
  generalize cs.drop (cs.takeWhile isBlank).length = body at *
  generalize p.advance (cs.takeWhile isBlank) = p' at *
  generalize q.advance (crlf (cs.takeWhile isBlank)) = q' at *
  rcases shebang?_crlf body with ⟨hnone, hnone'⟩ | ⟨line, rest, rfl, hlength, hmem, hline, hline'⟩
  · rw [hnone] at hchar ⊢
    rw [hnone']
    obtain ⟨us, hus, hall⟩ := (scanFrom_scans (Nat.le_refl cs.length) p).crlf hmark hchar
    rwa [hus.eq_scanFrom (Nat.le_refl _)]
  · rw [hline] at hchar ⊢
    rw [hline']
    dsimp only at hchar ⊢
    rw [List.drop_left] at hchar ⊢
    have hfuel : rest.length ≤ (line ++ rest).length := by
      rw [List.length_append]
      exact Nat.le_add_left _ _
    obtain ⟨us, hus, hall⟩ := (scanFrom_scans hfuel (p'.advance line)).crlf
      (hplace.advance line) fun t ht => hchar t (List.mem_cons_of_mem _ ht)
    obtain ⟨rest', hrest', hus'⟩ := hus.carriage
    have hdrop : (crlf (line ++ rest)).drop (line ++ carriage rest).length = rest' := by
      rw [crlf_append, crlf_of_not_mem hmem, ← hrest', ← List.append_assoc, List.drop_left]
    rw [crlf_of_not_mem hmem] at hus'
    have hscans : Scans (q'.advance (line ++ carriage rest)) rest' us := by
      rw [Place.advance, List.foldl_append]
      exact hus'
    have hlength' : rest'.length ≤ (crlf (line ++ rest)).length := by
      rw [← hdrop, List.length_drop]
      exact Nat.sub_le _ _
    rw [hdrop, hscans.eq_scanFrom hlength']
    refine .cons (hplace.lineBroken (Or.inr ⟨rfl, hlength, ?_⟩) fun h => absurd rfl h) hall
    rw [List.length_append]
    omega

/-! ## Operators -/

/-- Behind a token stands as many rows further on as it has line feeds. -/
theorem Token.Placed.rowOf_stop {text : String} {t : Token} (h : t.Placed text.toList) :
    rowOf text t.stop = t.row + t.text.toList.count '\n' := by
  obtain ⟨a, b, htext, hstart, hrow⟩ := h.place
  rw [← List.append_assoc] at htext
  rw [Token.stop_eq, hstart, hrow, ← Text.byteLength_append, Text.rowOf_byteLength htext,
    List.count_append]

theorem LineBroken.mark_eq {t u : Token} (h : LineBroken t u) (hmark : t.kind = .mark) :
    u.text = t.text := h.like.text_eq (by rw [hmark]; rfl)

/-- Marks that touch each other still do, and no others. -/
theorem LineBroken.touches_iff {text : String} {t u t' u' : Token} (h : LineBroken t u)
    (h' : LineBroken t' u') (ht : t.Placed text.toList) (ht' : t'.Placed text.toList)
    (hle : t.stop ≤ t'.start) (hmark : t.kind = .mark) :
    u'.start = u.stop ↔ t'.start = t.stop := by
  have hrow : t.row ≤ t'.row := ht.row_le ht' (Nat.le_trans (Nat.le_add_right _ _) hle)
  have hstop : u.stop = t.stop + t.row := by
    rw [Token.stop, h.mark_eq hmark, h.start, Token.stop]
    omega
  rw [hstop, h'.start]
  constructor
  · intro heq
    omega
  · intro heq
    -- No line feed stands in the mark or behind it.
    obtain ⟨c, hc, hblank⟩ := ht.spelt.mark hmark
    have hcount : t.text.toList.count '\n' = 0 := by
      rw [hc, List.count_eq_zero, List.mem_singleton]
      rintro rfl
      exact absurd hblank (by decide)
    have hrows := ht'.rowOf_start
    rw [heq, ht.rowOf_stop, hcount] at hrows
    omega

theorem adjoining_crlf {text : String} {ts us : List Token} (h : List.Forall₂ LineBroken ts us)
    (hplaced : ∀ t ∈ ts, t.Placed text.toList) (hordered : Ordered ts) (n : Nat) :
    adjoining n us = adjoining n ts := by
  induction n generalizing ts us with
  | zero => rfl
  | succ n ih =>
    cases h with
    | nil => rfl
    | @cons t u ts us htu hs =>
      rw [List.forall_mem_cons] at hplaced
      obtain ⟨ht, hplaced⟩ := hplaced
      obtain ⟨hle, hordered⟩ := List.pairwise_cons.mp hordered
      have hrest := ih hs hplaced hordered
      simp only [adjoining, htu.kind]
      by_cases hmark : t.kind = .mark
      · rw [htu.mark_eq hmark]
        cases hs with
        | nil => rfl
        | @cons t' u' _ _ htu' _ =>
          have htouches := htu.touches_iff htu' ht (hplaced t' List.mem_cons_self)
            (hle t' List.mem_cons_self) hmark
          simp only [htouches, hrest]
      · rw [if_neg (by simpa using hmark), if_neg (by simpa using hmark)]

/-- Related are the tokens of a text and those of the text with its line breaks written anew. -/
def LineBrokenIn (text : String) (t u : Token) : Prop := t.Placed text.toList ∧ LineBroken t u

theorem lineBrokenIn_alignment (text : String) :
    Alignment (LineBrokenIn text) fun _ => False where
  like _ _ h := h.2.like
  kind _ _ h := h.2.kind
  mark t u h hmark := by
    rw [h.2.kind] at hmark
    obtain ⟨c, hc, -⟩ := h.1.spelt.mark hmark
    rw [h.2.mark_eq hmark, hc]
    rfl
  extra _ h := h.elim

theorem aligned_of_lineBroken {text : String} {ts us : List Token}
    (h : List.Forall₂ LineBroken ts us) (hplaced : ∀ t ∈ ts, t.Placed text.toList)
    (hordered : Ordered ts) : Aligned (LineBrokenIn text) (fun _ => False) ts us := by
  induction h with
  | nil => exact .nil
  | @cons t u ts us htu hs ih =>
    have hop : operatorAt (u :: us) = operatorAt (t :: ts) := by
      rw [operatorAt, operatorAt, adjoining_crlf (.cons htu hs) hplaced hordered]
    rw [List.forall_mem_cons] at hplaced
    exact .cons ⟨hplaced.1, htu⟩ hop (ih hplaced.2 (List.pairwise_cons.mp hordered).2)

/-- The tokens of both texts are aligned. -/
theorem aligned_crlf {text : String}
    (hchar : ∀ t ∈ scan text, t.kind = .char → '\n' ∉ t.text.toList) :
    Aligned (LineBrokenIn text) (fun _ => False) (scan text) (scan (crlfText text)) :=
  aligned_of_lineBroken (scan_crlf hchar) (fun _ ht => scan_placed ht) (scan_ordered text)

end Attest.Syntax
