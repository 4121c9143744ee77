/-
  A block comment between two tokens. If the scanner comes upon the comment behind the same tokens,
  it reads the same tokens behind it (`CommentBetween.scan_commented`), and the reader finds the same
  operators (`CommentBetween.aligned`).
-/
import Attest.Proofs.Syntax.Aligned
import Mathlib.Data.List.Infix

namespace Attest.Syntax

open Text (isBlank byteLength byteLength_cons)

/-! ## Places between tokens -/

/-- The points read in a row behind the tokens. -/
def pointsAfter (points : Nat) (ts : List Token) : Nat :=
  ts.foldl (fun n t => if t.isComment then n else if t.text = "." then n + 1 else 0) points

/-- The place behind characters and the tokens in them. -/
def Place.behind (p : Place) (a : List Char) (ts : List Token) : Place :=
  ⟨p.offset + byteLength a, p.row + a.count '\n', pointsAfter p.points ts⟩

theorem Place.behind_step (p : Place) (c : Char) (a : List Char) (ts : List Token) :
    (p.step c).behind a ts = p.behind (c :: a) ts := by
  rw [behind, behind, byteLength_cons, List.count_cons]
  by_cases hc : c = '\n'
  · simp only [step, hc, if_true, beq_self_eq_true, mk.injEq, and_true]
    omega
  · simp only [step, hc, if_false, beq_false_of_ne hc, mk.injEq, and_true, Bool.false_eq_true]
    omega

theorem Place.advance_eq (p : Place) (l : List Char) : p.advance l = p.behind l [] := by
  induction l generalizing p with
  | nil => rfl
  | cons c l ih =>
    show (p.step c).advance l = _
    rw [ih, behind_step]

/-- The place behind a token, characters, and the tokens in them. -/
theorem Place.behind_after (p : Place) (kind : TokenKind) (l a : List Char) (ts : List Token) :
    (p.after kind l).behind a ts =
      p.behind (l ++ a) (⟨kind, String.ofList l, p.offset, p.row⟩ :: ts) := by
  have hpoint : String.ofList l = "." ↔ l = ['.'] := by
    rw [← String.toList_inj, String.toList_ofList]
    rfl
  unfold after
  rw [advance_eq]
  cases kind <;>
    simp [behind, pointsAfter, Token.isComment, hpoint, Nat.add_assoc]

/-- All tokens end behind the place where the scanner is. -/
theorem Scans.lt_stop {p : Place} {cs : List Char} {ts : List Token} (h : Scans p cs ts) :
    ∀ t ∈ ts, p.offset < t.stop := by
  induction h with
  | nil => simp
  | @blank p c cs ts _ _ ih =>
    intro t ht
    have hle := ih t ht
    simp only [Place.step] at hle
    omega
  | @token p c cs kind l rest ts hc hlex hrest _ ih =>
    have hne := (lexeme_spelt (p.points == 1) cs hc).nonempty
    rw [hlex] at hne
    obtain ⟨d, m, rfl⟩ := List.exists_cons_of_ne_nil hne
    have hsize := d.utf8Size_pos
    have hstop : p.offset < p.offset + byteLength (d :: m) := by
      rw [byteLength_cons]
      omega
    have hafter : (p.after kind (d :: m)).offset = p.offset + byteLength (d :: m) := by
      have hbehind := congrArg Place.offset (p.behind_after kind (d :: m) [] [])
      simpa [Place.behind] using hbehind
    refine List.forall_mem_cons.mpr ⟨?_, fun t ht => ?_⟩
    · rwa [Token.stop_eq, String.toList_ofList]
    · have hle := ih t ht
      omega

/-- No token ends where the scanner is or before. -/
theorem Scans.eq_nil_of_stop_le {p : Place} {cs : List Char} {ts us : List Token}
    (h : Scans p cs (ts ++ us)) (hts : ∀ t ∈ ts, t.stop ≤ p.offset) : ts = [] := by
  rw [List.eq_nil_iff_forall_not_mem]
  intro t ht
  have hlt := h.lt_stop t (List.mem_append_left us ht)
  have hle := hts t ht
  omega

/-- The scanner comes to a place with no token across it. -/
theorem Scans.split {p : Place} {a b : List Char} {ts us : List Token}
    (h : Scans p (a ++ b) (ts ++ us)) (hts : ∀ t ∈ ts, t.stop ≤ p.offset + byteLength a)
    (hus : ∀ u ∈ us, p.offset + byteLength a ≤ u.start) : Scans (p.behind a ts) b us := by
  generalize hcs : a ++ b = cs at h
  generalize hout : ts ++ us = out at h
  induction h generalizing a ts with
  | nil =>
    obtain ⟨rfl, rfl⟩ := List.append_eq_nil_iff.mp hcs
    obtain ⟨rfl, rfl⟩ := List.append_eq_nil_iff.mp hout
    exact .nil
  | @blank p c cs out hc h ih =>
    cases a with
    | nil =>
      have hscans := Scans.blank hc h
      rw [← hout] at hscans
      obtain rfl := hscans.eq_nil_of_stop_le hts
      rw [List.nil_append] at hcs hscans
      rw [hcs]
      exact hscans
    | cons d a =>
      obtain ⟨rfl, hab⟩ := List.cons.inj hcs
      have hoffset : (p.step d).offset + byteLength a = p.offset + byteLength (d :: a) :=
        congrArg Place.offset (p.behind_step d a ts)
      rw [← Place.behind_step]
      exact ih (by rwa [hoffset]) (by rwa [hoffset]) hab hout
  | @token p c cs kind l rest out hc hlex hrest h ih =>
    cases ts with
    | nil =>
      -- The token stands behind the place, so the scanner is there.
      obtain rfl : us = _ := hout
      have hle := hus _ List.mem_cons_self
      dsimp only at hle
      obtain rfl : a = [] := by
        cases a with
        | nil => rfl
        | cons d a =>
          have hsize := d.utf8Size_pos
          rw [byteLength_cons] at hle
          omega
      rw [List.nil_append] at hcs
      rw [hcs]
      exact .token hc hlex hrest h
    | cons t ts =>
      obtain ⟨rfl, htail⟩ := List.cons.inj hout
      obtain ⟨hstop, hts⟩ := List.forall_mem_cons.mp hts
      rw [Token.stop_eq, String.toList_ofList] at hstop
      obtain ⟨a, rfl⟩ : l <+: a := Text.isPrefix_of_byteLength_le ⟨rest, hrest⟩ ⟨b, hcs⟩
        (Nat.le_of_add_le_add_left hstop)
      have hoffset : (p.after kind l).offset + byteLength a = p.offset + byteLength (l ++ a) :=
        congrArg Place.offset (p.behind_after kind l a ts)
      have hab : a ++ b = rest := by
        rw [← hrest, List.append_assoc] at hcs
        exact List.append_cancel_left hcs
      rw [← Place.behind_after]
      exact ih (by rwa [hoffset]) (by rwa [hoffset]) hab htail

/-- Behind the first token the scanner goes on. -/
theorem Scans.cons {p : Place} {cs : List Char} {t : Token} {ts : List Token}
    (h : Scans p cs (t :: ts)) : ∃ a b, a ++ b = cs ∧ t.stop = p.offset + byteLength a ∧
      Scans (p.behind a [t]) b ts := by
  generalize hout : t :: ts = out at h
  induction h with
  | nil => contradiction
  | @blank p c cs out hc h ih =>
    obtain ⟨a, b, rfl, hstop, hscans⟩ := ih hout
    refine ⟨c :: a, b, rfl, ?_, by rwa [← Place.behind_step]⟩
    rw [hstop]
    exact congrArg Place.offset (p.behind_step c a [])
  | @token p c cs kind l rest out hc hlex hrest h =>
    obtain ⟨rfl, rfl⟩ := List.cons.inj hout
    refine ⟨l, rest, hrest, ?_, ?_⟩
    · rw [Token.stop_eq, String.toList_ofList]
    · have hbehind := p.behind_after kind l [] []
      rw [List.append_nil] at hbehind
      rw [← hbehind]
      exact h

theorem Place.behind_append (p : Place) (a b : List Char) (ts us : List Token) :
    (p.behind a ts).behind b us = p.behind (a ++ b) (ts ++ us) := by
  simp [behind, pointsAfter, Nat.add_assoc]

theorem skipOrderMark_eq (p : Place) (cs : List Char) :
    ∃ m, m ++ (skipOrderMark p cs).2 = cs ∧ (skipOrderMark p cs).1 = p.behind m [] := by
  cases cs with
  | nil => exact ⟨[], rfl, rfl⟩
  | cons c cs =>
    rw [skipOrderMark]
    split
    · exact ⟨[c], rfl, p.behind_step c [] []⟩
    · exact ⟨[], rfl, rfl⟩

/-- Behind the first token of a text the scanner goes on. -/
theorem scan_cons {text : String} {t : Token} {ts : List Token} (h : scan text = t :: ts) :
    ∃ a b, a ++ b = text.toList ∧ t.stop = byteLength a ∧
      Scans (Place.behind ⟨0, 0, 0⟩ a [t]) b ts := by
  unfold scan at h
  obtain ⟨m, hm, hplace⟩ := skipOrderMark_eq ⟨0, 0, 0⟩ text.toList
  generalize skipOrderMark ⟨0, 0, 0⟩ text.toList = r at h hm hplace
  obtain ⟨p, cs⟩ := r
  obtain rfl : p = Place.behind ⟨0, 0, 0⟩ m [] := hplace
  dsimp only at h hm
  rw [← hm]
  split at h
  · next line hline =>
    obtain ⟨rest, hrest⟩ := shebang?_isPrefix hline
    have hblank : cs.takeWhile isBlank ++ cs.drop (cs.takeWhile isBlank).length = cs :=
      List.prefix_iff_eq_append.mp (List.takeWhile_prefix isBlank)
    rw [← hrest] at hblank
    rw [← hrest, List.drop_left] at h
    obtain ⟨rfl, rfl⟩ := List.cons.inj h
    have hfuel : rest.length ≤ (line ++ rest).length := by
      rw [List.length_append]
      exact Nat.le_add_left _ _
    rw [Place.advance_eq, Place.advance_eq, Place.behind_append, Place.behind_append]
    refine ⟨m ++ cs.takeWhile isBlank ++ line, rest, ?_, ?_, scanFrom_scans hfuel _⟩
    · rw [List.append_assoc, List.append_assoc, hblank]
    · rw [Token.stop_eq, String.toList_ofList, Text.byteLength_append]
      simp [Place.behind]
  · have hscans := scanFrom_scans (Nat.le_refl cs.length) (Place.behind ⟨0, 0, 0⟩ m [])
    rw [h] at hscans
    obtain ⟨a, b, rfl, hstop, hscans⟩ := hscans.cons
    rw [Place.behind_append] at hscans
    refine ⟨m ++ a, b, List.append_assoc m a b, ?_, hscans⟩
    rw [hstop, Text.byteLength_append]
    simp [Place.behind]

/-- In the text too the scanner comes to a place with no token across it. -/
theorem scan_split {text : String} {a b : List Char} {ts us : List Token}
    (htext : text.toList = a ++ b) (hscan : scan text = ts ++ us) (hne : ts ≠ [])
    (hts : ∀ t ∈ ts, t.stop ≤ byteLength a) (hus : ∀ u ∈ us, byteLength a ≤ u.start) :
    Scans (Place.behind ⟨0, 0, 0⟩ a ts) b us := by
  obtain ⟨t, ts, rfl⟩ := List.exists_cons_of_ne_nil hne
  obtain ⟨front, rest, hfront, hstop, hscans⟩ := scan_cons hscan
  obtain ⟨ht, hts⟩ := List.forall_mem_cons.mp hts
  obtain ⟨a, rfl⟩ : front <+: a := Text.isPrefix_of_byteLength_le ⟨rest, hfront⟩ ⟨b, htext.symm⟩
    (by rwa [← hstop])
  have hrest : rest = a ++ b := by
    rw [htext, List.append_assoc] at hfront
    exact List.append_cancel_left hfront
  have hoffset : (Place.behind ⟨0, 0, 0⟩ front [t]).offset + byteLength a =
      byteLength (front ++ a) := by
    simp [Place.behind]
  rw [hrest] at hscans
  rw [← List.singleton_append, ← Place.behind_append]
  exact hscans.split (by rwa [hoffset]) (by rwa [hoffset])

/-! ## Moved tokens -/

/-- The token, so many bytes later. -/
def Token.moved (n : Nat) (t : Token) : Token := { t with start := t.start + n }

theorem Token.stop_moved (n : Nat) (t : Token) : (t.moved n).stop = t.stop + n := by
  show t.start + n + t.text.utf8ByteSize = t.start + t.text.utf8ByteSize + n
  omega

def Place.moved (n : Nat) (p : Place) : Place := { p with offset := p.offset + n }

theorem Place.step_moved (n : Nat) (p : Place) (c : Char) :
    (p.moved n).step c = (p.step c).moved n := by
  simp only [step, moved, mk.injEq, and_true]
  omega

theorem Place.after_moved (n : Nat) (p : Place) (kind : TokenKind) (l : List Char) :
    (p.moved n).after kind l = (p.after kind l).moved n := by
  have hadvance : (p.moved n).advance l = (p.advance l).moved n := by
    induction l generalizing p with
    | nil => rfl
    | cons c l ih =>
      show ((p.moved n).step c).advance l = ((p.step c).advance l).moved n
      rw [step_moved, ih]
  unfold after
  rw [hadvance]
  cases kind <;> rfl

/-- From a place further on the same tokens are read, further on. -/
theorem Scans.moved (n : Nat) {p : Place} {cs : List Char} {ts : List Token} (h : Scans p cs ts) :
    Scans (p.moved n) cs (ts.map (·.moved n)) := by
  induction h with
  | nil => exact .nil
  | blank hc _ ih => exact .blank hc (by rwa [Place.step_moved])
  | token hc hlex hrest _ ih => exact .token hc hlex hrest (by rwa [Place.after_moved])

theorem Scans.unique {p : Place} {cs : List Char} {ts us : List Token} (h : Scans p cs ts)
    (h' : Scans p cs us) : ts = us :=
  (h.eq_scanFrom (Nat.le_refl _)).symm.trans (h'.eq_scanFrom (Nat.le_refl _))

/-! ## Operators -/

theorem adjoining_moved (n k : Nat) (ts : List Token) :
    adjoining k (ts.map (·.moved n)) = adjoining k ts := by
  induction k generalizing ts with
  | zero => rfl
  | succ k ih =>
    cases ts with
    | nil => rfl
    | cons t ts =>
      have hrest := ih ts
      cases ts with
      | nil => rfl
      | cons u us =>
        have htouch : (u.moved n).start = (t.moved n).stop ↔ u.start = t.stop := by
          rw [Token.stop_moved]
          show u.start + n = t.stop + n ↔ _
          omega
        simp only [List.map_cons, adjoining, htouch] at hrest ⊢
        rw [hrest]
        rfl

/-- No operator reaches from the first tokens into those behind them. -/
def Apart (ts us : List Token) : Prop :=
  ∀ vs ∈ ts.tails, vs ≠ [] → (operatorAt (vs ++ us)).length ≤ vs.length

instance (ts us : List Token) : Decidable (Apart ts us) :=
  inferInstanceAs (Decidable (∀ vs ∈ ts.tails, _))

/-- A comment ends what adjoins. -/
theorem adjoining_comment {e : Token} (he : e.isComment = true) (k : Nat) (ts us : List Token) :
    adjoining k (ts ++ e :: us) = adjoining k ts := by
  have hmark : (e.kind == .mark) = false := by
    cases hkind : e.kind <;> simp_all [Token.isComment]
  induction k generalizing ts with
  | zero => rfl
  | succ k ih =>
    have hnone (k : Nat) : adjoining k (e :: us) = [] := by
      cases k <;> simp [adjoining, hmark]
    cases ts with
    | nil => exact hnone _
    | cons t ts =>
      have hrest := ih ts
      cases ts with
      | nil => simp [adjoining, hnone]
      | cons u ts =>
        simp only [List.cons_append, adjoining] at hrest ⊢
        rw [hrest]

/-- More tokens leave what adjoins at the front as it is. -/
theorem adjoining_isPrefix (k : Nat) (ts us : List Token) :
    adjoining k ts <+: adjoining k (ts ++ us) := by
  induction k generalizing ts with
  | zero => exact List.prefix_rfl
  | succ k ih =>
    cases ts with
    | nil => exact List.nil_prefix
    | cons t ts =>
      have hrest := ih ts
      cases ts with
      | nil =>
        simp only [List.cons_append, adjoining]
        split
        · simp
        · exact List.prefix_rfl
      | cons u ts =>
        simp only [List.cons_append, adjoining] at hrest ⊢
        split
        · split
          · exact List.prefix_append_right_inj _ |>.mpr hrest
          · exact List.prefix_rfl
        · exact List.prefix_rfl

/-- What adjoins in the first tokens is a character for each of them. -/
theorem take_adjoining {ts : List Token}
    (hmarks : ∀ t ∈ ts, t.kind = .mark → t.text.toList.length = 1) (k : Nat) (us : List Token) :
    (adjoining k (ts ++ us)).take ts.length <+: adjoining k ts := by
  induction k generalizing ts with
  | zero => simp [adjoining]
  | succ k ih =>
    cases ts with
    | nil => simp
    | cons t ts =>
      rw [List.forall_mem_cons] at hmarks
      obtain ⟨hmark, hmarks⟩ := hmarks
      have hrest := ih hmarks
      by_cases hkind : t.kind = .mark
      · obtain ⟨c, hc⟩ := List.length_eq_one_iff.mp (hmark hkind)
        cases ts with
        | nil => simp [adjoining, hkind, hc]
        | cons u ts =>
          simp only [List.cons_append, adjoining, hkind, beq_self_eq_true, if_true, hc,
            List.nil_append, List.length_cons, List.take_succ_cons, List.prefix_cons_inj] at hrest ⊢
          split
          · exact hrest
          · simp
      · simp [adjoining, hkind]

/-- An operator found in the front alone is the one found in everything, if it is short enough. -/
theorem find?_isPrefixOf (operators : List String) {front all : List Char} {n : Nat}
    (hfront : front <+: all) (htake : all.take n <+: front)
    (hshort : ∀ o ∈ operators.find? (fun o => o.toList.isPrefixOf all), o.length ≤ n) :
    operators.find? (fun o => o.toList.isPrefixOf front) =
      operators.find? (fun o => o.toList.isPrefixOf all) := by
  induction operators with
  | nil => rfl
  | cons o operators ih =>
    rw [List.find?_cons] at hshort
    rw [List.find?_cons, List.find?_cons]
    cases hall : o.toList.isPrefixOf all with
    | true =>
      rw [hall] at hshort
      have hlength : o.toList.length ≤ n := by
        rw [String.length_toList]
        exact hshort o rfl
      have hmarks : o.toList <+: all.take n :=
        List.prefix_take_iff.mpr ⟨List.isPrefixOf_iff_prefix.mp hall, hlength⟩
      rw [List.isPrefixOf_iff_prefix.mpr (hmarks.trans htake)]
    | false =>
      rw [hall] at hshort
      have hnot : o.toList.isPrefixOf front = false := by
        rw [Bool.eq_false_iff] at hall ⊢
        exact fun h => hall (List.isPrefixOf_iff_prefix.mpr
          ((List.isPrefixOf_iff_prefix.mp h).trans hfront))
      rw [hnot]
      exact ih hshort

/-- A comment behind the tokens of an operator leaves it as it is. -/
theorem operatorAt_comment {ts us : List Token} {e : Token} (he : e.isComment = true)
    (hmarks : ∀ t ∈ ts, t.kind = .mark → t.text.toList.length = 1) (hne : ts ≠ [])
    (hapart : (operatorAt (ts ++ us)).length ≤ ts.length) (us' : List Token) :
    operatorAt (ts ++ e :: us') = operatorAt (ts ++ us) := by
  have hfront := adjoining_isPrefix 3 ts us
  have htake := take_adjoining hmarks 3 us
  unfold operatorAt at hapart ⊢
  dsimp only at hapart ⊢
  rw [adjoining_comment he]
  generalize adjoining 3 (ts ++ us) = all at hfront htake hapart ⊢
  generalize adjoining 3 ts = front at hfront htake ⊢
  have hfound := find?_isPrefixOf longOperators hfront htake fun o ho => by
    rwa [Option.mem_def.mp ho, Option.getD_some] at hapart
  have hone : front.take 1 = all.take 1 := by
    have hpos : 1 ≤ ts.length := List.length_pos_iff.mpr hne
    obtain ⟨rest, rfl⟩ := hfront
    cases front with
    | cons c front => rfl
    | nil =>
      rw [List.nil_append] at htake ⊢
      rcases List.take_eq_nil_iff.mp (List.prefix_nil.mp htake) with hzero | rfl
      · omega
      · rfl
  rw [hfound, hone]

/-! ## A comment between two tokens -/

/-- A block comment without a line break is put between two tokens of a text: the scanner comes upon
it behind the same tokens, and no operator reaches over the place. -/
structure CommentBetween (text commented : String) where
  front : List Char
  back : List Char
  comment : Token
  before : List Token
  behind : List Token
  text_eq : text.toList = front ++ back
  commented_eq : commented.toList = front ++ (comment.text.toList ++ back)
  kind_eq : comment.kind = .blockComment
  start_eq : comment.start = byteLength front
  oneLine : '\n' ∉ comment.text.toList
  scan_eq : scan text = before ++ behind
  isPrefix : before ++ [comment] <+: scan commented
  before_ne_nil : before ≠ []
  behind_ne_nil : behind ≠ []
  le_start : ∀ t ∈ behind, comment.start ≤ t.start
  apart : Apart before behind

namespace CommentBetween

variable {text commented : String} (i : CommentBetween text commented)

theorem isComment : i.comment.isComment = true := by
  rw [Token.isComment, i.kind_eq]
  rfl

/-- The bytes of the comment. -/
def size : Nat := byteLength i.comment.text.toList

/-- Behind the comment the scanner reads the same tokens. -/
theorem scan_commented :
    scan commented = i.before ++ i.comment :: i.behind.map (·.moved i.size) := by
  obtain ⟨rest, hrest⟩ := i.isPrefix
  have hordered := scan_ordered commented
  rw [← hrest, List.append_assoc, List.singleton_append] at hordered
  obtain ⟨-, hrestOrdered, hbefore⟩ := List.pairwise_append.mp hordered
  have hstop (t) (ht : t ∈ i.before) : t.stop ≤ byteLength i.front := by
    rw [← i.start_eq]
    exact hbefore t ht _ List.mem_cons_self
  have hcomment : i.comment.stop = byteLength (i.front ++ i.comment.text.toList) := by
    rw [Token.stop_eq, i.start_eq, Text.byteLength_append]
  have hscans := scan_split i.text_eq i.scan_eq i.before_ne_nil hstop
    (by rw [← i.start_eq]; exact i.le_start)
  have htext : commented.toList = (i.front ++ i.comment.text.toList) ++ i.back := by
    rw [i.commented_eq, List.append_assoc]
  have hscans' := scan_split htext hrest.symm (by simp) (fun t ht => ?_) (fun u hu => ?_)
  · have hplace : Place.behind ⟨0, 0, 0⟩ (i.front ++ i.comment.text.toList)
        (i.before ++ [i.comment]) = (Place.behind ⟨0, 0, 0⟩ i.front i.before).moved i.size := by
      simp [Place.behind, Place.moved, size, pointsAfter, i.isComment,
        List.count_eq_zero.mpr i.oneLine]
    rw [hplace] at hscans'
    rw [← hrest, hscans'.unique (hscans.moved i.size), List.append_assoc, List.singleton_append]
  · rcases List.mem_append.mp ht with ht | ht
    · have hle := hstop t ht
      rw [Text.byteLength_append]
      omega
    · rw [List.mem_singleton.mp ht, hcomment]
  · rw [← hcomment]
    exact (List.pairwise_cons.mp hrestOrdered).1 u hu

/-- The tokens in front of the comment are the same, those behind it come later. -/
def Related (t u : Token) : Prop :=
  t ∈ i.before ∧ u = t ∨ t ∈ i.behind ∧ u = t.moved i.size

variable {t u : Token}

theorem before_placed (h : t ∈ i.before) : t.Placed text.toList :=
  scan_placed (by rw [i.scan_eq]; exact List.mem_append_left _ h)

theorem behind_placed (h : t ∈ i.behind) : t.Placed text.toList :=
  scan_placed (by rw [i.scan_eq]; exact List.mem_append_right _ h)

/-- The comment begins behind the tokens in front of it. -/
theorem stop_le (h : t ∈ i.before) : t.stop ≤ i.comment.start := by
  have hordered := scan_ordered commented
  rw [i.scan_commented] at hordered
  exact (List.pairwise_append.mp hordered).2.2 t h _ List.mem_cons_self

theorem alignment : Alignment i.Related (· = i.comment) where
  like t u h := by
    rcases h with ⟨-, rfl⟩ | ⟨-, rfl⟩
    · exact Or.inl rfl
    · exact Or.inl rfl
  kind t u h := by
    rcases h with ⟨-, rfl⟩ | ⟨-, rfl⟩
    · rfl
    · rfl
  mark t u h hmark := by
    have hone {t : Token} (ht : t.Placed text.toList) (hmark : t.kind = .mark) :
        t.text.toList.length = 1 := by
      obtain ⟨c, hc, -⟩ := ht.spelt.mark hmark
      rw [hc, List.length_singleton]
    rcases h with ⟨ht, rfl⟩ | ⟨ht, rfl⟩
    · exact hone (i.before_placed ht) hmark
    · exact hone (t := t) (i.behind_placed ht) hmark
  extra e h := by rw [h, i.isComment]

/-- The tokens behind the comment are aligned. -/
theorem aligned_behind {ts : List Token} (hts : ∀ t ∈ ts, t ∈ i.behind) :
    Aligned i.Related (· = i.comment) ts (ts.map (·.moved i.size)) := by
  induction ts with
  | nil => exact .nil
  | cons t ts ih =>
    have hop : operatorAt ((t :: ts).map (·.moved i.size)) = operatorAt (t :: ts) := by
      rw [operatorAt, operatorAt, adjoining_moved]
    rw [List.forall_mem_cons] at hts
    exact .cons (Or.inr ⟨hts.1, rfl⟩) hop (ih hts.2)

/-- So are those in front of it. -/
theorem aligned_before {ts : List Token} (hts : ts <:+ i.before) :
    Aligned i.Related (· = i.comment) (ts ++ i.behind)
      (ts ++ i.comment :: i.behind.map (·.moved i.size)) := by
  induction ts with
  | nil => exact .extra rfl i.behind_ne_nil (i.aligned_behind fun _ h => h)
  | cons t ts ih =>
    have hsub : ∀ x ∈ t :: ts, x ∈ i.before := fun x hx => hts.subset hx
    have hmarks : ∀ x ∈ t :: ts, x.kind = .mark → x.text.toList.length = 1 := fun x hx hmark =>
      i.alignment.mark x x (Or.inl ⟨hsub x hx, rfl⟩) hmark
    have hop := operatorAt_comment i.isComment hmarks (List.cons_ne_nil t ts)
      (i.apart _ ((List.mem_tails _ _).mpr hts) (List.cons_ne_nil t ts)) (i.behind.map (·.moved i.size))
    exact .cons (Or.inl ⟨hsub t List.mem_cons_self, rfl⟩) hop
      (ih ((List.suffix_cons t ts).trans hts))

/-- The tokens of both texts are aligned. -/
theorem aligned : Aligned i.Related (· = i.comment) (scan text) (scan commented) := by
  rw [i.scan_eq, i.scan_commented]
  exact i.aligned_before List.suffix_rfl

end CommentBetween

end Attest.Syntax
