/-
  Scanning. Every token stands in the text where it says it does: its start is the length of what
  is in front of it, and its row the number of line feeds there. Tokens do not overlap and come in
  the order of the text (`scan_placed`, `scan_ordered`).
-/
import Attest.Proofs.Syntax.Lexeme
import Attest.Proofs.Text.Offsets

namespace Attest.Syntax

open Text (isBlank byteLength rowOf rowOf_byteLength)

/-- The token is part of the text, behind as many bytes and line feeds as it says. -/
structure Token.Placed (cs : List Char) (t : Token) : Prop where
  place : ∃ a b, cs = a ++ (t.text.toList ++ b) ∧ t.start = byteLength a ∧ t.row = a.count '\n'
  spelt : Spelt t.kind t.text.toList

/-- No token begins before the one in front of it ends. -/
def Ordered (ts : List Token) : Prop := ts.Pairwise fun t u => t.stop ≤ u.start

/-- All tokens begin no earlier than the first one, and end no later than the last one. -/
theorem Ordered.bounds {ts : List Token} (h : Ordered ts) {first last t : Token}
    (hfirst : ts.head? = some first) (hlast : ts.getLast? = some last) (ht : t ∈ ts) :
    first.start ≤ t.start ∧ t.stop ≤ last.stop := by
  have hstop (u : Token) : u.start ≤ u.stop := Nat.le_add_right _ _
  constructor
  · obtain ⟨rest, rfl⟩ := List.head?_eq_some_iff.mp hfirst
    rcases List.mem_cons.mp ht with rfl | ht
    · exact Nat.le_refl _
    · have := (List.pairwise_cons.mp h).1 t ht
      have := hstop first
      omega
  · obtain ⟨rest, rfl⟩ := List.getLast?_eq_some_iff.mp hlast
    rcases List.mem_append.mp ht with ht | ht
    · have := (List.pairwise_append.mp h).2.2 t ht last List.mem_cons_self
      have := hstop last
      omega
    · obtain rfl := List.mem_singleton.mp ht
      exact Nat.le_refl _

theorem Token.stop_eq (t : Token) : t.stop = t.start + byteLength t.text.toList := by
  rw [Token.stop, Text.byteLength_eq_utf8ByteSize]

theorem Token.Placed.rowOf_start {text : String} {t : Token} (h : t.Placed text.toList) :
    rowOf text t.start = t.row := by
  obtain ⟨a, b, htext, hstart, hrow⟩ := h.place
  rw [hstart, hrow, rowOf_byteLength htext]

/-! ## Places -/

/-- The place behind the characters `a` of a text. -/
structure Place.Behind (a : List Char) (p : Place) : Prop where
  offset : p.offset = byteLength a
  row : p.row = a.count '\n'

namespace Place.Behind

variable {a : List Char} {p : Place}

theorem step (h : p.Behind a) (c : Char) : (p.step c).Behind (a ++ [c]) := by
  constructor
  · simp [Place.step, h.offset]
  · simp only [Place.step, h.row, List.count_append, List.count_singleton]
    by_cases hc : c = '\n' <;> simp [hc]

theorem advance (h : p.Behind a) (l : List Char) : (p.advance l).Behind (a ++ l) := by
  induction l generalizing a p with
  | nil => simpa [Place.advance] using h
  | cons c l ih =>
    have := ih (h.step c)
    rwa [List.append_assoc, List.singleton_append] at this

theorem after (h : p.Behind a) (kind : TokenKind) (l : List Char) :
    (p.after kind l).Behind (a ++ l) := by
  have := h.advance l
  unfold Place.after
  cases kind <;> exact ⟨this.offset, this.row⟩

end Place.Behind

/-! ## The scanner -/

/-- The tokens read behind `a` stand in the text `a ++ cs`, behind `a`, and in order. -/
theorem scanFrom_spec (fuel : Nat) {p : Place} {a : List Char} (cs : List Char) (h : p.Behind a) :
    (∀ t ∈ scanFrom fuel p cs, t.Placed (a ++ cs) ∧ byteLength a ≤ t.start) ∧
      Ordered (scanFrom fuel p cs) := by
  induction fuel generalizing p a cs with
  | zero => exact ⟨by simp [scanFrom], by simp [scanFrom, Ordered]⟩
  | succ fuel ih =>
    cases cs with
    | nil => exact ⟨by simp [scanFrom], by simp [scanFrom, Ordered]⟩
    | cons c cs =>
      rw [scanFrom]
      split
      · obtain ⟨hin, hord⟩ := ih cs (h.step c)
        refine ⟨fun t ht => ?_, hord⟩
        have := hin t ht
        rw [List.append_assoc, List.singleton_append, Text.byteLength_append] at this
        exact ⟨this.1, by omega⟩
      · next hblank =>
        -- The lexeme is taken off the front, so the place behind it is that of the rest.
        have hspelt := lexeme_spelt (p.points == 1) cs (Bool.eq_false_iff.mpr hblank)
        obtain ⟨rest, hrest⟩ := lexeme_isPrefix (p.points == 1) (c :: cs)
        generalize lexeme (p.points == 1) (c :: cs) = lex at hspelt hrest
        obtain ⟨kind, l⟩ := lex
        dsimp only at hspelt hrest ⊢
        rw [← hrest, List.drop_left]
        obtain ⟨hin, hord⟩ := ih rest (h.after kind l)
        rw [List.append_assoc, Text.byteLength_append] at hin
        have hstop : p.offset + byteLength l = byteLength a + byteLength l := by rw [h.offset]
        refine ⟨fun t ht => ?_, List.pairwise_cons.mpr ⟨fun t ht => ?_, hord⟩⟩
        · rcases List.mem_cons.mp ht with rfl | ht
          · refine ⟨⟨⟨a, rest, ?_, h.offset, h.row⟩, ?_⟩, ?_⟩
            · simp
            · simpa using hspelt
            · exact Nat.le_of_eq h.offset.symm
          · exact ⟨(hin t ht).1, by have := (hin t ht).2; omega⟩
        · rw [Token.stop_eq]
          dsimp only
          rw [String.toList_ofList, hstop]
          exact (hin t ht).2

theorem shebang?_isPrefix {cs l : List Char} (h : shebang? cs = some l) : l <+: cs := by
  unfold shebang? at h
  split at h
  · dsimp only at h
    split at h
    · contradiction
    · obtain rfl := Option.some.inj h
      simpa using List.takeWhile_prefix _
  · contradiction

theorem shebang?_ne_nil {cs l : List Char} (h : shebang? cs = some l) : l ≠ [] := by
  unfold shebang? at h
  split at h
  · dsimp only at h
    split at h
    · contradiction
    · obtain rfl := Option.some.inj h
      exact List.cons_ne_nil _ _
  · contradiction

/-- The order mark that is skipped stands in front of the rest. -/
theorem skipOrderMark_spec {p : Place} {a : List Char} (cs : List Char) (h : p.Behind a) :
    ∃ b, b ++ (skipOrderMark p cs).2 = cs ∧ (skipOrderMark p cs).1.Behind (a ++ b) := by
  cases cs with
  | nil => exact ⟨[], rfl, by simpa [skipOrderMark] using h⟩
  | cons c cs =>
    rw [skipOrderMark]
    split
    · exact ⟨[c], rfl, h.step c⟩
    · exact ⟨[], rfl, by simpa using h⟩

theorem scan_spec (text : String) :
    (∀ t ∈ scan text, t.Placed text.toList) ∧ Ordered (scan text) := by
  have hstart : Place.Behind [] ⟨0, 0, 0⟩ := ⟨rfl, rfl⟩
  obtain ⟨m, hm, hp⟩ := skipOrderMark_spec text.toList hstart
  rw [List.nil_append] at hp
  unfold scan
  generalize skipOrderMark ⟨0, 0, 0⟩ text.toList = r at hm hp
  obtain ⟨p, cs⟩ := r
  dsimp only at hm hp ⊢
  rw [← hm]
  split
  · next line hline =>
    obtain ⟨rest, hrest⟩ := shebang?_isPrefix hline
    have hblank : cs.takeWhile isBlank ++ (line ++ rest) = cs := by
      rw [hrest]
      have := List.takeWhile_prefix (l := cs) isBlank
      obtain ⟨tail, htail⟩ := this
      conv => lhs; arg 2; arg 2; rw [← htail]
      rw [List.drop_left, htail]
    have hq := hp.advance (cs.takeWhile isBlank)
    obtain ⟨hin, hord⟩ := scanFrom_spec (cs.drop (cs.takeWhile isBlank).length).length rest
      (hq.advance line)
    rw [List.append_assoc, List.append_assoc, hblank] at hin
    rw [show (cs.drop (cs.takeWhile isBlank).length).drop line.length = rest by
      rw [← hrest, List.drop_left]]
    refine ⟨fun t ht => ?_, List.pairwise_cons.mpr ⟨fun t ht => ?_, hord⟩⟩
    · rcases List.mem_cons.mp ht with rfl | ht
      · refine ⟨⟨m ++ cs.takeWhile isBlank, rest, ?_, hq.offset, hq.row⟩,
          ⟨?_, by simp, by simp, by simp⟩⟩
        · rw [String.toList_ofList, List.append_assoc, hblank]
        · rw [String.toList_ofList]
          exact shebang?_ne_nil hline
      · exact (hin t ht).1
    · rw [Token.stop_eq]
      dsimp only
      rw [String.toList_ofList, hq.offset, ← Text.byteLength_append]
      exact (hin t ht).2
  · obtain ⟨hin, hord⟩ := scanFrom_spec cs.length cs hp
    exact ⟨fun t ht => (hin t ht).1, hord⟩

theorem scan_placed {text : String} {t : Token} (h : t ∈ scan text) : t.Placed text.toList :=
  (scan_spec text).1 t h

theorem scan_ordered (text : String) : Ordered (scan text) := (scan_spec text).2

/-- A token that begins later stands in no earlier row. -/
theorem Token.Placed.row_le {cs : List Char} {t u : Token} (ht : t.Placed cs) (hu : u.Placed cs)
    (h : t.start ≤ u.start) : t.row ≤ u.row := by
  obtain ⟨a, b, hcs, hstart, hrow⟩ := ht.place
  obtain ⟨a', b', hcs', hstart', hrow'⟩ := hu.place
  rw [hstart, hstart'] at h
  rw [hrow, hrow']
  exact (Text.isPrefix_of_byteLength_le ⟨_, hcs.symm⟩ ⟨_, hcs'.symm⟩ h).sublist.count_le _

/-- A token takes room. -/
theorem Token.Placed.start_lt_stop {cs : List Char} {t : Token} (h : t.Placed cs) :
    t.start < t.stop := by
  obtain ⟨c, l, hl⟩ := List.exists_cons_of_ne_nil h.spelt.nonempty
  have hsize := c.utf8Size_pos
  rw [Token.stop_eq, hl, Text.byteLength_cons]
  omega

/-! ## The steps of the scanner -/

/-- The tokens of a text that begins at a place, read blank by blank and token by token. -/
inductive Scans : Place → List Char → List Token → Prop
  | nil {p} : Scans p [] []
  | blank {p c cs ts} (hc : isBlank c = true) (h : Scans (p.step c) cs ts) : Scans p (c :: cs) ts
  | token {p c cs kind l rest ts} (hc : isBlank c = false)
      (hlex : lexeme (p.points == 1) (c :: cs) = (kind, l)) (hrest : l ++ rest = c :: cs)
      (h : Scans (p.after kind l) rest ts) :
      Scans p (c :: cs) (⟨kind, String.ofList l, p.offset, p.row⟩ :: ts)

/-- What is left behind a lexeme is shorter. -/
theorem length_lt_of_lexeme {member : Bool} {c : Char} {cs l rest : List Char} {kind : TokenKind}
    (hlex : lexeme member (c :: cs) = (kind, l)) (hrest : l ++ rest = c :: cs) :
    rest.length ≤ cs.length := by
  have hne := lexeme_ne_nil member (List.cons_ne_nil c cs)
  rw [hlex] at hne
  have hpos : 0 < l.length := List.length_pos_iff.mpr hne
  have hlength := congrArg List.length hrest
  rw [List.length_append, List.length_cons] at hlength
  omega

/-- The scanner with enough fuel takes these steps. -/
theorem scanFrom_scans {fuel : Nat} {cs : List Char} (hfuel : cs.length ≤ fuel) (p : Place) :
    Scans p cs (scanFrom fuel p cs) := by
  induction fuel generalizing cs p with
  | zero =>
    obtain rfl := List.length_eq_zero_iff.mp (Nat.le_zero.mp hfuel)
    exact .nil
  | succ fuel ih =>
    cases cs with
    | nil => exact .nil
    | cons c cs =>
      have hlength : cs.length ≤ fuel := Nat.le_of_succ_le_succ hfuel
      rw [scanFrom]
      split
      · next hc => exact .blank hc (ih hlength _)
      · next hc =>
        obtain ⟨rest, hrest⟩ := lexeme_isPrefix (p.points == 1) (c :: cs)
        have hdrop : (c :: cs).drop (lexeme (p.points == 1) (c :: cs)).2.length = rest := by
          conv => lhs; arg 2; rw [← hrest]
          exact List.drop_left
        dsimp only
        rw [hdrop]
        exact .token (Bool.eq_false_iff.mpr hc) rfl hrest
          (ih (Nat.le_trans (length_lt_of_lexeme rfl hrest) hlength) _)

/-- All tokens are lexemes. -/
theorem Scans.exists_lexeme {p : Place} {cs : List Char} {ts : List Token} (h : Scans p cs ts)
    {t : Token} (ht : t ∈ ts) : ∃ member ds, lexeme member ds = (t.kind, t.text.toList) := by
  induction h with
  | nil => exact absurd ht List.not_mem_nil
  | blank _ _ ih => exact ih ht
  | token _ hlex _ _ ih =>
    rcases List.mem_cons.mp ht with rfl | ht
    · exact ⟨_, _, by rw [hlex, String.toList_ofList]⟩
    · exact ih ht

/-- There is no other way. -/
theorem Scans.eq_scanFrom {p : Place} {cs : List Char} {ts : List Token} (h : Scans p cs ts)
    {fuel : Nat} (hfuel : cs.length ≤ fuel) : scanFrom fuel p cs = ts := by
  induction h generalizing fuel with
  | nil => cases fuel <;> rfl
  | @blank p c cs ts hc _ ih =>
    obtain ⟨fuel, rfl⟩ := Nat.exists_eq_add_one.mpr (Nat.lt_of_lt_of_le (Nat.succ_pos _) hfuel)
    rw [scanFrom, if_pos hc]
    exact ih (Nat.le_of_succ_le_succ hfuel)
  | @token p c cs kind l rest ts hc hlex hrest _ ih =>
    obtain ⟨fuel, rfl⟩ := Nat.exists_eq_add_one.mpr (Nat.lt_of_lt_of_le (Nat.succ_pos _) hfuel)
    have hdrop : (c :: cs).drop l.length = rest := by rw [← hrest, List.drop_left]
    rw [scanFrom, if_neg (Bool.eq_false_iff.mp hc), hlex]
    dsimp only
    rw [hdrop, ih (Nat.le_trans (length_lt_of_lexeme hlex hrest) (Nat.le_of_succ_le_succ hfuel))]

/-- All words of a text are words of the scanner. -/
theorem exists_word?_of_mem_scan {text : String} {t : Token} (ht : t ∈ scan text)
    (hkind : t.kind = .word) : ∃ ds, word? ds = some t.text.toList := by
  have hlexeme {p : Place} {cs : List Char} {fuel : Nat} (hfuel : cs.length ≤ fuel)
      (hmem : t ∈ scanFrom fuel p cs) : ∃ ds, word? ds = some t.text.toList := by
    obtain ⟨member, ds, hlex⟩ := (scanFrom_scans hfuel p).exists_lexeme hmem
    rw [hkind] at hlex
    exact ⟨ds, lexeme_word hlex⟩
  unfold scan at ht
  generalize skipOrderMark ⟨0, 0, 0⟩ text.toList = r at ht
  dsimp only at ht
  split at ht
  · rcases List.mem_cons.mp ht with rfl | ht
    · contradiction
    · refine hlexeme ?_ ht
      rw [List.length_drop]
      exact Nat.sub_le _ _
  · exact hlexeme (Nat.le_refl _) ht

/-- No point stands in a word of a source. -/
theorem not_mem_point_of_word {text : String} {t : Token} (ht : t ∈ scan text)
    (hkind : t.kind = .word) : '.' ∉ t.text.toList := by
  obtain ⟨ds, hword⟩ := exists_word?_of_mem_scan ht hkind
  exact word?_not_mem_point hword

end Attest.Syntax
