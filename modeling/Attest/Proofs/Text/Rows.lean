/-
  Rows and lines. The row of a byte is the number of line feeds in front of it. Main statements:
  every byte of a line, the byte behind its last one included, is in the row of that line
  (`rowOf_of_mem_lineSpan`), and what is in the row belongs to the line, line breaks apart
  (`exists_lineSpan`, `le_stop_of_lineSpan`).
-/
import Attest.Text.Lines

namespace Attest.Text

/-- The number of bytes that the characters take. -/
def byteLength : List Char → Nat
  | [] => 0
  | c :: cs => c.utf8Size + byteLength cs

@[simp] theorem byteLength_nil : byteLength [] = 0 := rfl

@[simp] theorem byteLength_cons (c : Char) (cs : List Char) :
    byteLength (c :: cs) = c.utf8Size + byteLength cs := rfl

@[simp] theorem byteLength_append (a b : List Char) :
    byteLength (a ++ b) = byteLength a + byteLength b := by
  induction a with
  | nil => simp
  | cons c a ih => rw [List.cons_append, byteLength_cons, byteLength_cons, ih, Nat.add_assoc]

@[simp] theorem utf8Size_lineFeed : ('\n').utf8Size = 1 := by decide

@[simp] theorem utf8Size_carriageReturn : ('\r').utf8Size = 1 := by decide

theorem byteLength_eq_utf8ByteSize (text : String) :
    byteLength text.toList = text.utf8ByteSize := by
  induction h : text.toList generalizing text with
  | nil =>
    rw [String.toList_eq_nil_iff] at h
    subst h
    rfl
  | cons c cs ih =>
    have hpush : text = String.singleton c ++ String.ofList cs := by
      apply String.ext
      simp [h]
    rw [byteLength_cons, ih (String.ofList cs) (String.toList_ofList), hpush,
      String.utf8ByteSize_append, String.utf8ByteSize_singleton]

/-! ## Rows -/

/-- The row of a byte, counted from 0. -/
def rowOf (text : String) (byte : Nat) : Nat := (slice text ⟨0, byte⟩).toList.count '\n'

/-- The row of a byte in `cs`, the first of which stands at byte `pos`. -/
def rowFrom (pos byte : Nat) (cs : List Char) : Nat := (sliceFrom ⟨0, byte⟩ pos cs).count '\n'

theorem rowOf_eq_rowFrom (text : String) (byte : Nat) :
    rowOf text byte = rowFrom 0 byte text.toList := by
  simp [rowOf, rowFrom, slice]

theorem rowFrom_cons_of_lt {pos byte : Nat} (h : pos < byte) (c : Char) (cs : List Char) :
    rowFrom pos byte (c :: cs) =
      (if c = '\n' then 1 else 0) + rowFrom (pos + c.utf8Size) byte cs := by
  simp only [rowFrom, sliceFrom, Nat.zero_le, decide_true, Bool.true_and, h, if_true]
  rw [List.count_cons, Nat.add_comm]
  simp

/-- No line feed at or behind a byte counts for its row. -/
theorem rowFrom_of_le {pos byte : Nat} (h : byte ≤ pos) (cs : List Char) :
    rowFrom pos byte cs = 0 := by
  induction cs generalizing pos with
  | nil => rfl
  | cons c cs ih =>
    have hnot : ¬ pos < byte := by omega
    simp only [rowFrom, sliceFrom, hnot, decide_false, Bool.and_false]
    exact ih (by omega)

/-- The row behind a beginning of the text is the number of its line feeds. -/
theorem rowFrom_append (pos : Nat) (a b : List Char) :
    rowFrom pos (pos + byteLength a) (a ++ b) = a.count '\n' := by
  induction a generalizing pos with
  | nil => exact rowFrom_of_le (by simp) b
  | cons c a ih =>
    have hpos := c.utf8Size_pos
    rw [List.cons_append, rowFrom_cons_of_lt (by simp; omega), byteLength_cons,
      ← Nat.add_assoc, ih, List.count_cons, Nat.add_comm]
    simp

theorem rowOf_byteLength {text : String} {a b : List Char} (h : text.toList = a ++ b) :
    rowOf text (byteLength a) = a.count '\n' := by
  rw [rowOf_eq_rowFrom, h]
  simpa using rowFrom_append 0 a b

/-! ## Lines -/

/-- An open line ends no later than where the reading is. -/
theorem lineTo_stop_le (start pos : Nat) (carriage : Bool) :
    (lineTo start pos carriage).stop ≤ pos := by
  cases carriage <;> simp [lineTo]

/-- The lines behind a position start there or later. -/
theorem le_start_of_mem_linesFrom {start pos : Nat} {carriage : Bool} {cs : List Char} {s : Span}
    (hsp : start ≤ pos) (h : s ∈ linesFrom start pos carriage cs) : start ≤ s.start := by
  induction cs generalizing start pos carriage with
  | nil =>
    simp only [linesFrom, List.mem_singleton] at h
    simp [h, lineTo]
  | cons c cs ih =>
    simp only [linesFrom] at h
    split at h
    · rcases List.mem_cons.mp h with rfl | h
      · simp [lineTo]
      · have := ih (Nat.le_refl _) h
        omega
    · exact ih (by omega) h

/-- The bytes of the `k`-th line read from `pos` on have `k` line feeds between `pos` and them. -/
theorem rowFrom_of_getElem?_linesFrom {start pos k byte : Nat} {carriage : Bool} {cs : List Char}
    {s : Span} (h : (linesFrom start pos carriage cs)[k]? = some s)
    (hlo : s.start ≤ byte) (hhi : byte ≤ s.stop) : rowFrom pos byte cs = k := by
  induction cs generalizing start pos carriage k with
  | nil =>
    cases k with
    | zero => rfl
    | succ k => simp [linesFrom] at h
  | cons c cs ih =>
    simp only [linesFrom] at h
    split at h
    · next hc =>
      cases k with
      | zero =>
        simp only [List.getElem?_cons_zero, Option.some.injEq] at h
        have := lineTo_stop_le start pos carriage
        exact rowFrom_of_le (by rw [h] at this; omega) _
      | succ k =>
        rw [List.getElem?_cons_succ] at h
        have hstart := le_start_of_mem_linesFrom (Nat.le_refl _) (List.mem_of_getElem? h)
        rw [rowFrom_cons_of_lt (by omega), if_pos hc, hc, utf8Size_lineFeed, ih h, Nat.add_comm]
    · next hc =>
      have hrow := ih h
      by_cases hlt : pos < byte
      · rw [rowFrom_cons_of_lt hlt, if_neg hc, Nat.zero_add, hrow]
      · rw [rowFrom_of_le (by omega), ← hrow, rowFrom_of_le (by omega)]

/-- Every byte of a line is in the row of the line, also the byte behind its last one. -/
theorem rowOf_of_mem_lineSpan {text : String} {line byte : Nat} {s : Span}
    (h : lineSpan text line = some s) (hlo : s.start ≤ byte) (hhi : byte ≤ s.stop) :
    rowOf text byte + 1 = line := by
  cases line with
  | zero => simp [lineSpan] at h
  | succ row =>
    rw [rowOf_eq_rowFrom, rowFrom_of_getElem?_linesFrom h hlo hhi]

/-- The first line that is read is the open one. -/
theorem linesFrom_zero (start pos : Nat) (carriage : Bool) (cs : List Char) :
    ∃ s, (linesFrom start pos carriage cs)[0]? = some s ∧ s.start = start ∧
      (lineTo start pos carriage).stop ≤ s.stop := by
  induction cs generalizing pos carriage with
  | nil => exact ⟨_, rfl, rfl, Nat.le_refl _⟩
  | cons c cs ih =>
    rw [linesFrom]
    split
    · exact ⟨_, rfl, rfl, Nat.le_refl _⟩
    · obtain ⟨s, hs, hstart, hstop⟩ := ih (pos + c.utf8Size) (c == '\r')
      refine ⟨s, hs, hstart, Nat.le_trans ?_ hstop⟩
      have hsize := c.utf8Size_pos
      cases carriage <;> cases c == '\r' <;> simp [lineTo] <;> omega

theorem linesFrom_count {start pos : Nat} (hstart : start ≤ pos) (carriage : Bool)
    (a b : List Char) : ∃ s, (linesFrom start pos carriage (a ++ b))[a.count '\n']? = some s ∧
      s.start ≤ pos + byteLength a := by
  induction a generalizing start pos carriage with
  | nil =>
    obtain ⟨s, hs, hs', -⟩ := linesFrom_zero start pos carriage b
    exact ⟨s, hs, by simpa [hs'] using hstart⟩
  | cons c a ih =>
    rw [List.cons_append, linesFrom, byteLength_cons]
    by_cases hc : c = '\n'
    · obtain ⟨s, hs, hs'⟩ := ih (Nat.le_refl (pos + 1)) false
      rw [if_pos hc, hc, utf8Size_lineFeed, List.count_cons_self, List.getElem?_cons_succ]
      exact ⟨s, hs, by omega⟩
    · obtain ⟨s, hs, hs'⟩ := ih (Nat.le_trans hstart (Nat.le_add_right pos c.utf8Size)) (c == '\r')
      rw [if_neg hc, List.count_cons_of_ne hc]
      exact ⟨s, hs, by omega⟩

theorem le_stop_of_linesFrom {start pos : Nat} {carriage : Bool} {a b : List Char} {c : Char}
    {s : Span} (hn : c ≠ '\n') (hr : c ≠ '\r')
    (h : (linesFrom start pos carriage (a ++ c :: b))[a.count '\n']? = some s) :
    pos + byteLength a + c.utf8Size ≤ s.stop := by
  induction a generalizing start pos carriage with
  | nil =>
    rw [List.nil_append, linesFrom, if_neg hn, beq_false_of_ne hr] at h
    obtain ⟨s', hs', -, hstop⟩ := linesFrom_zero start (pos + c.utf8Size) false b
    rw [List.count_nil, hs', Option.some.injEq] at h
    rwa [← h]
  | cons d a ih =>
    rw [List.cons_append, linesFrom] at h
    rw [byteLength_cons]
    by_cases hd : d = '\n'
    · rw [if_pos hd, hd, List.count_cons_self, List.getElem?_cons_succ] at h
      have := ih h
      rw [hd, utf8Size_lineFeed]
      omega
    · rw [if_neg hd, List.count_cons_of_ne hd] at h
      have := ih h
      omega

/-- Behind every beginning of a text is a line. -/
theorem exists_lineSpan {text : String} {a b : List Char} (h : text.toList = a ++ b) :
    ∃ s, lineSpan text (a.count '\n' + 1) = some s ∧ s.start ≤ byteLength a := by
  obtain ⟨s, hs, hstart⟩ := linesFrom_count (Nat.le_refl 0) false a b
  exact ⟨s, by rwa [lineSpan, lines, h], by simpa using hstart⟩

/-- A character that is no line break belongs to its line. -/
theorem le_stop_of_lineSpan {text : String} {a b : List Char} {c : Char} {s : Span}
    (h : text.toList = a ++ c :: b) (hn : c ≠ '\n') (hr : c ≠ '\r')
    (hs : lineSpan text (a.count '\n' + 1) = some s) : byteLength a + c.utf8Size ≤ s.stop := by
  rw [lineSpan, lines, h] at hs
  simpa using le_stop_of_linesFrom hn hr hs

end Attest.Text
