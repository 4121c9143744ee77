/-
  Lines and what ends them. Cut at its line feeds, a text falls into one part more than it has line
  feeds, and a line is such a part without the carriage return at its end (`lineSpan_succ`). Main
  statement (`lines_partition`): the lines follow each other without touching, together with their
  ends they are the whole text, and the number of line feeds in front of a byte tells its line.
-/
import Attest.Proofs.Text.Offsets
import Attest.Proofs.Text.Split
import Mathlib.Data.List.Basic

namespace Attest.Text

/-! ## Slices -/

theorem sliceFrom_of_stop_le {span : Span} {pos : Nat} (h : span.stop ≤ pos) (cs : List Char) :
    sliceFrom span pos cs = [] := by
  induction cs generalizing pos with
  | nil => rfl
  | cons c cs ih =>
    have hnot : ¬ pos < span.stop := by omega
    simp only [sliceFrom, hnot, decide_false, Bool.and_false]
    exact ih (by omega)

theorem sliceFrom_of_le_start {span : Span} {pos : Nat} (a cs : List Char)
    (h : pos + byteLength a ≤ span.start) :
    sliceFrom span pos (a ++ cs) = sliceFrom span (pos + byteLength a) cs := by
  induction a generalizing pos with
  | nil => rfl
  | cons c a ih =>
    rw [byteLength_cons, ← Nat.add_assoc] at h ⊢
    have hpos := c.utf8Size_pos
    have hnot : ¬ span.start ≤ pos := by omega
    simp only [List.cons_append, sliceFrom, hnot, decide_false, Bool.false_and]
    exact ih h

theorem sliceFrom_within {span : Span} {pos : Nat} (b cs : List Char) (hstart : span.start ≤ pos)
    (hstop : span.stop = pos + byteLength b) : sliceFrom span pos (b ++ cs) = b := by
  induction b generalizing pos with
  | nil => exact sliceFrom_of_stop_le (by simp [hstop]) cs
  | cons c b ih =>
    rw [byteLength_cons, ← Nat.add_assoc] at hstop
    have hpos := c.utf8Size_pos
    have hlt : pos < span.stop := by omega
    simp only [List.cons_append, sliceFrom, hstart, hlt, decide_true, Bool.and_self, if_true]
    rw [ih (by omega) hstop]

/-- A span that cuts the text between characters cuts out the characters between its ends. -/
theorem toList_slice {text : String} {a b c : List Char} (h : text.toList = a ++ (b ++ c)) :
    (slice text ⟨byteLength a, byteLength a + byteLength b⟩).toList = b := by
  rw [slice, String.toList_ofList, h, sliceFrom_of_le_start a _ (by simp),
    sliceFrom_within b c (by simp) (by simp)]

/-! ## Parts between line feeds -/

/-- The part without the carriage return at its end. -/
def trimmed (part : List Char) : List Char :=
  if part.getLast? = some '\r' then part.dropLast else part

/-- The carriage return at the end of the part. -/
def carriage (part : List Char) : List Char := if part.getLast? = some '\r' then ['\r'] else []

theorem trimmed_append_carriage (part : List Char) : trimmed part ++ carriage part = part := by
  unfold trimmed carriage
  split
  · next h => rw [List.dropLast_append_getLast? _ h]
  · rw [List.append_nil]

theorem carriage_cases (part : List Char) : carriage part = [] ∨ carriage part = ['\r'] := by
  unfold carriage
  split
  · exact Or.inr rfl
  · exact Or.inl rfl

theorem mem_of_mem_trimmed {part : List Char} {c : Char} (h : c ∈ trimmed part) : c ∈ part := by
  rw [← trimmed_append_carriage part]
  exact List.mem_append_left _ h

theorem byteLength_trimmed_add (part : List Char) :
    byteLength (trimmed part) + byteLength (carriage part) = byteLength part := by
  rw [← byteLength_append, trimmed_append_carriage]

/-- Parts with the line feeds behind them. -/
def fedParts (parts : List (List Char)) : List Char := parts.flatMap (· ++ ['\n'])

/-- Where a part begins, all those in front of it ended with line feeds. -/
def partStart (parts : List (List Char)) (i : Nat) : Nat := byteLength (fedParts (parts.take i))

theorem length_split (cs : List Char) : (split '\n' cs).length = cs.count '\n' + 1 := by
  induction cs with
  | nil => rfl
  | cons c cs ih =>
    rw [split]
    by_cases hc : c = '\n'
    · rw [if_pos hc, List.length_cons, ih, hc, List.count_cons_self]
    · obtain ⟨part, parts, hsplit⟩ := List.exists_cons_of_ne_nil (split_ne_nil '\n' cs)
      rw [if_neg hc, List.count_cons_of_ne hc, ← ih, hsplit]
      rfl

/-- In front of the `i`-th part are the earlier ones with their line feeds, and behind it another
line feed or the end. -/
theorem join_eq_fedParts {parts : List (List Char)} {i : Nat} {part : List Char}
    (h : parts[i]? = some part) :
    ∃ rest, join '\n' parts = fedParts (parts.take i) ++ (part ++ rest) ∧
      (i + 1 = parts.length ∧ rest = [] ∨ i + 1 < parts.length ∧ ∃ tail, rest = '\n' :: tail) := by
  induction parts generalizing i with
  | nil => simp at h
  | cons first parts ih =>
    cases parts with
    | nil =>
      cases i with
      | zero =>
        obtain rfl : first = part := by simpa using h
        exact ⟨[], by simp [join, fedParts], Or.inl ⟨rfl, rfl⟩⟩
      | succ i => simp at h
    | cons next parts =>
      cases i with
      | zero =>
        obtain rfl : first = part := by simpa using h
        exact ⟨'\n' :: join '\n' (next :: parts), by simp [join, fedParts], Or.inr ⟨by simp, _, rfl⟩⟩
      | succ i =>
        rw [List.getElem?_cons_succ] at h
        obtain ⟨rest, hjoin, hrest⟩ := ih h
        refine ⟨rest, ?_, ?_⟩
        · rw [join, hjoin]
          simp [fedParts]
        · simpa using hrest

theorem fedParts_take_succ {parts : List (List Char)} {i : Nat} {part : List Char}
    (h : parts[i]? = some part) :
    fedParts (parts.take (i + 1)) = fedParts (parts.take i) ++ (part ++ ['\n']) := by
  rw [List.take_add_one, h]
  simp [fedParts]

theorem partStart_succ {parts : List (List Char)} {i : Nat} {part : List Char}
    (h : parts[i]? = some part) : partStart parts (i + 1) = partStart parts i + byteLength part + 1 := by
  rw [partStart, fedParts_take_succ h]
  simp [partStart]
  omega

theorem partStart_mono (parts : List (List Char)) {i j : Nat} (h : i ≤ j) :
    partStart parts i ≤ partStart parts j := by
  obtain ⟨rest, hrest⟩ := List.take_prefix_take_left (l := parts) h
  rw [partStart, partStart, ← hrest, fedParts, fedParts, List.flatMap_append, byteLength_append]
  exact Nat.le_add_right _ _

/-! ## Lines are parts -/

/-- The spans of parts that begin at `pos`, each with a line feed behind it. -/
def spansFrom (pos : Nat) : List (List Char) → List Span
  | [] => []
  | part :: parts =>
    ⟨pos, pos + byteLength (trimmed part)⟩ :: spansFrom (pos + byteLength part + 1) parts

theorem lineTo_eq (start : Nat) (part : List Char) :
    lineTo start (start + byteLength part) (part.getLast? == some '\r') =
      ⟨start, start + byteLength (trimmed part)⟩ := by
  have htrimmed := byteLength_trimmed_add part
  by_cases h : part.getLast? = some '\r'
  · rw [carriage, if_pos h] at htrimmed
    simp at htrimmed
    simp [lineTo, h]
    omega
  · rw [carriage, if_neg h] at htrimmed
    simp at htrimmed
    simp [lineTo, h]
    omega

/-- What is left to read is read as the rest of the open part and the parts behind it. -/
theorem linesFrom_eq (start : Nat) (part rest : List Char) (hpart : '\n' ∉ part) :
    linesFrom start (start + byteLength part) (part.getLast? == some '\r') rest =
      spansFrom start (split '\n' (part ++ rest)) := by
  induction rest generalizing start part with
  | nil => rw [linesFrom, lineTo_eq, List.append_nil, split_of_not_mem hpart, spansFrom, spansFrom]
  | cons c rest ih =>
    rw [linesFrom]
    by_cases hc : c = '\n'
    · have hnext := ih (start + byteLength part + 1) [] List.not_mem_nil
      rw [byteLength_nil, Nat.add_zero, List.nil_append] at hnext
      rw [if_pos hc, lineTo_eq, hc, split_append, split_of_not_mem hpart, List.singleton_append,
        spansFrom]
      exact congrArg _ hnext
    · have hnext := ih start (part ++ [c]) (by simp [hpart, Ne.symm hc])
      rw [byteLength_append, byteLength_cons, byteLength_nil, Nat.add_zero, ← Nat.add_assoc,
        List.append_assoc, List.singleton_append] at hnext
      rw [if_neg hc, ← hnext]
      simp

theorem getElem?_spansFrom (pos : Nat) (parts : List (List Char)) (i : Nat) :
    (spansFrom pos parts)[i]? = parts[i]?.map fun part =>
      ⟨pos + partStart parts i, pos + partStart parts i + byteLength (trimmed part)⟩ := by
  induction parts generalizing pos i with
  | nil => rfl
  | cons first parts ih =>
    cases i with
    | zero => simp [spansFrom, partStart, fedParts]
    | succ i =>
      have hstart : partStart (first :: parts) (i + 1) = byteLength first + 1 + partStart parts i := by
        simp [partStart, fedParts]
        omega
      rw [spansFrom, List.getElem?_cons_succ, List.getElem?_cons_succ, ih, hstart,
        Nat.add_assoc pos, Nat.add_assoc pos]

/-- The parts of a text between its line feeds. -/
def lineParts (text : String) : List (List Char) := split '\n' text.toList

theorem lineSpan_succ (text : String) (i : Nat) :
    lineSpan text (i + 1) = (lineParts text)[i]?.map fun part =>
      ⟨partStart (lineParts text) i, partStart (lineParts text) i + byteLength (trimmed part)⟩ := by
  have hlines : lines text = spansFrom 0 (lineParts text) :=
    linesFrom_eq 0 [] text.toList List.not_mem_nil
  rw [lineSpan, hlines, getElem?_spansFrom]
  simp

/-! ## Bytes and rows -/

/-- Only the line feed has the byte 10: all bytes of longer characters are 128 or more. -/
theorem lineFeed_mem_utf8EncodeChar {c : Char} : 10 ∈ String.utf8EncodeChar c ↔ c = '\n' := by
  constructor
  · intro h
    have hlong {n : Nat} (hle : 128 ≤ n) (hlt : n < 256) : 10 ≠ UInt8.ofNat n := by
      intro hn
      have := congrArg UInt8.toNat hn
      simp at this
      omega
    unfold String.utf8EncodeChar at h
    dsimp only at h
    split at h
    · have hbyte := congrArg UInt8.toNat (List.mem_singleton.mp h)
      have hnat : c.val.toNat = c.toNat := rfl
      have hvalue : c.toNat = 10 := by
        simp at hbyte
        omega
      exact Char.toNat_inj.mp hvalue
    · exfalso
      split at h
      · simp only [List.mem_cons, List.not_mem_nil, or_false] at h
        rcases h with h | h <;> exact hlong (by omega) (by omega) h
      · split at h
        · simp only [List.mem_cons, List.not_mem_nil, or_false] at h
          rcases h with h | h | h <;> exact hlong (by omega) (by omega) h
        · simp only [List.mem_cons, List.not_mem_nil, or_false] at h
          rcases h with h | h | h | h <;> exact hlong (by omega) (by omega) h
  · rintro rfl
    decide

theorem count_utf8EncodeChar (c : Char) :
    (String.utf8EncodeChar c).count 10 = if c = '\n' then 1 else 0 := by
  by_cases hc : c = '\n'
  · rw [if_pos hc, hc]
    decide
  · rw [if_neg hc, List.count_eq_zero]
    exact mt lineFeed_mem_utf8EncodeChar.mp hc

theorem count_bytes (cs : List Char) : (bytes cs).count 10 = cs.count '\n' := by
  induction cs with
  | nil => rfl
  | cons c cs ih =>
    rw [bytes_cons, List.count_append, ih, count_utf8EncodeChar, List.count_cons, Nat.add_comm]
    simp

/-- The number of line feeds of a text. -/
def feeds (text : String) : Nat := (bytes text.toList).count 10

/-- The number of line feeds among the bytes in front of a byte. -/
def feedsBefore (text : String) (byte : Nat) : Nat := ((bytes text.toList).take byte).count 10

theorem feedsBefore_byteLength {text : String} {a b : List Char} (h : text.toList = a ++ b) :
    feedsBefore text (byteLength a) = a.count '\n' := by
  rw [feedsBefore, h, bytes_append, ← length_bytes, List.take_left, count_bytes]

theorem feedsBefore_mono (text : String) {p q : Nat} (h : p ≤ q) :
    feedsBefore text p ≤ feedsBefore text q :=
  (List.take_prefix_take_left h).sublist.count_le _

theorem feedsBefore_le (text : String) (p : Nat) : feedsBefore text p ≤ feeds text :=
  (List.take_sublist _ _).count_le _

/-! ## Lines of a text -/

variable {text : String}

/-- The text of a line; there is none for a number that no line has. -/
def lineText (text : String) (line : Nat) : String :=
  ((lineSpan text line).map (slice text)).getD ""

/-- What stands between a line and the next one, or the end of the text. -/
def lineEnding (text : String) (line : Nat) : String :=
  match lineSpan text line, lineSpan text (line + 1) with
  | some s, some t => slice text ⟨s.stop, t.start⟩
  | some s, none => slice text ⟨s.stop, text.utf8ByteSize⟩
  | none, _ => ""

theorem length_lineParts (text : String) : (lineParts text).length = feeds text + 1 := by
  rw [lineParts, length_split, feeds, count_bytes]

/-- The text around its `i`-th part. -/
theorem exists_rest {i : Nat} {part : List Char} (h : (lineParts text)[i]? = some part) :
    ∃ rest, text.toList = fedParts ((lineParts text).take i) ++ (part ++ rest) ∧
      (i + 1 = (lineParts text).length ∧ rest = [] ∨
        i + 1 < (lineParts text).length ∧ ∃ tail, rest = '\n' :: tail) := by
  have hjoin : join '\n' (lineParts text) = text.toList := join_split '\n' text.toList
  rw [← hjoin]
  exact join_eq_fedParts h

theorem toList_lineText {i : Nat} {part : List Char} (h : (lineParts text)[i]? = some part) :
    (lineText text (i + 1)).toList = trimmed part := by
  obtain ⟨rest, htext, -⟩ := exists_rest h
  rw [← trimmed_append_carriage part, List.append_assoc] at htext
  rw [lineText, lineSpan_succ, h]
  exact toList_slice htext

theorem toList_lineEnding {i : Nat} {part : List Char} (h : (lineParts text)[i]? = some part) :
    (lineEnding text (i + 1)).toList =
      carriage part ++ if i + 1 < (lineParts text).length then ['\n'] else [] := by
  obtain ⟨rest, htext, hrest⟩ := exists_rest h
  have hfront : text.toList =
      (fedParts ((lineParts text).take i) ++ trimmed part) ++ (carriage part ++ rest) := by
    rw [htext]
    conv => lhs; rw [← trimmed_append_carriage part]
    simp
  have hsize := byteLength_trimmed_add part
  have hstop : partStart (lineParts text) i + byteLength (trimmed part) =
      byteLength (fedParts ((lineParts text).take i) ++ trimmed part) := by
    rw [byteLength_append, partStart]
  rcases hrest with ⟨hlast, rfl⟩ | ⟨hlt, tail, rfl⟩
  · have hnone : (lineParts text)[i + 1]? = none := List.getElem?_eq_none (by omega)
    have hend : text.utf8ByteSize =
        byteLength (fedParts ((lineParts text).take i) ++ trimmed part) +
          byteLength (carriage part) := by
      rw [← byteLength_eq_utf8ByteSize, hfront]
      simp [Nat.add_assoc]
    rw [lineEnding, lineSpan_succ, lineSpan_succ, h, hnone, if_neg (by omega), List.append_nil]
    dsimp only [Option.map_some, Option.map_none]
    rw [hstop, hend]
    exact toList_slice hfront
  · obtain ⟨next, hnext⟩ : ∃ next, (lineParts text)[i + 1]? = some next :=
      ⟨_, List.getElem?_eq_getElem hlt⟩
    have hstart : partStart (lineParts text) (i + 1) =
        byteLength (fedParts ((lineParts text).take i) ++ trimmed part) +
          byteLength (carriage part ++ ['\n']) := by
      rw [partStart_succ h, byteLength_append, byteLength_append, ← hsize, partStart]
      simp
      omega
    rw [lineEnding, lineSpan_succ, lineSpan_succ, h, hnext, if_pos hlt]
    dsimp only [Option.map_some]
    rw [hstop, hstart]
    exact toList_slice (c := tail) (by rw [hfront]; simp)

/-- The lines up to the `i`-th are, with their ends, the text in front of it. -/
theorem flatMap_lines (text : String) {i : Nat} (h : i < (lineParts text).length) :
    ((List.range i).flatMap fun j => (lineText text (j + 1) ++ lineEnding text (j + 1)).toList) =
      fedParts ((lineParts text).take i) := by
  induction i with
  | zero => simp [fedParts]
  | succ i ih =>
    obtain ⟨part, hpart⟩ : ∃ part, (lineParts text)[i]? = some part :=
      ⟨_, List.getElem?_eq_getElem (by omega)⟩
    rw [List.range_succ, List.flatMap_append, ih (by omega), fedParts_take_succ hpart,
      List.flatMap_singleton, String.toList_append, toList_lineText hpart, toList_lineEnding hpart,
      if_pos h, ← List.append_assoc (trimmed part), trimmed_append_carriage]

theorem join_lines (text : String) :
    String.join ((List.range (lineParts text).length).map fun i =>
      lineText text (i + 1) ++ lineEnding text (i + 1)) = text := by
  have hne : lineParts text ≠ [] := split_ne_nil '\n' text.toList
  obtain ⟨k, hk⟩ := Nat.exists_eq_add_one.mpr (List.length_pos_of_ne_nil hne)
  obtain ⟨part, hpart⟩ : ∃ part, (lineParts text)[k]? = some part :=
    ⟨_, List.getElem?_eq_getElem (by omega)⟩
  obtain ⟨rest, htext, hrest⟩ := exists_rest hpart
  obtain rfl : rest = [] := hrest.elim And.right fun h => absurd h.1 (by omega)
  rw [← String.toList_inj, String.toList_join, List.flatMap_map, hk, List.range_succ,
    List.flatMap_append, flatMap_lines text (by omega), List.flatMap_singleton,
    String.toList_append, toList_lineText hpart, toList_lineEnding hpart, if_neg (by omega),
    List.append_nil, trimmed_append_carriage, htext, List.append_nil]

theorem count_fedParts {parts : List (List Char)} (h : ∀ part ∈ parts, '\n' ∉ part) :
    (fedParts parts).count '\n' = parts.length := by
  induction parts with
  | nil => rfl
  | cons part parts ih =>
    rw [List.forall_mem_cons] at h
    have hpart := List.count_eq_zero.mpr h.1
    have hparts := ih h.2
    rw [fedParts] at hparts
    simp [fedParts, hpart, hparts]

theorem not_mem_of_mem_lineParts {part : List Char} (h : part ∈ lineParts text) : '\n' ∉ part :=
  not_mem_of_mem_split h

theorem count_fedParts_take {i : Nat} (h : i ≤ (lineParts text).length) :
    (fedParts ((lineParts text).take i)).count '\n' = i := by
  rw [count_fedParts fun part hpart => not_mem_of_mem_lineParts (List.mem_of_mem_take hpart),
    List.length_take]
  omega

/-- In front of the `i`-th line are `i` line feeds. -/
theorem feedsBefore_partStart {i : Nat} (h : i < (lineParts text).length) :
    feedsBefore text (partStart (lineParts text) i) = i := by
  obtain ⟨rest, htext, -⟩ := exists_rest (List.getElem?_eq_getElem h)
  rw [partStart, feedsBefore_byteLength htext, count_fedParts_take (by omega)]

/-- In front of the line feed that ends the `i`-th line are no more of them. -/
theorem feedsBefore_of_lt_partStart {i p : Nat} (h : i < (lineParts text).length)
    (hp : p < partStart (lineParts text) (i + 1)) : feedsBefore text p ≤ i := by
  have hpart : (lineParts text)[i]? = some (lineParts text)[i] := List.getElem?_eq_getElem h
  obtain ⟨rest, htext, -⟩ := exists_rest hpart
  rw [← List.append_assoc] at htext
  rw [partStart_succ hpart, partStart, ← byteLength_append] at hp
  have hmono := feedsBefore_mono text (Nat.le_of_lt_succ hp)
  rwa [feedsBefore_byteLength htext, List.count_append, count_fedParts_take (by omega),
    List.count_eq_zero.mpr (not_mem_of_mem_lineParts (List.mem_of_getElem? hpart))] at hmono

/-- A byte with `r` line feeds in front of it stands at or behind the start of line `r + 1`, and in
front of line `r + 2`. -/
theorem exists_line_of_feedsBefore (text : String) (p : Nat) :
    ∃ s, lineSpan text (feedsBefore text p + 1) = some s ∧ s.start ≤ p ∧
      ∀ t, lineSpan text (feedsBefore text p + 2) = some t → p < t.start := by
  have hlt : feedsBefore text p < (lineParts text).length := by
    rw [length_lineParts]
    exact Nat.lt_succ_of_le (feedsBefore_le text p)
  generalize hr : feedsBefore text p = r at hlt ⊢
  have hspan := lineSpan_succ text r
  rw [List.getElem?_eq_getElem hlt] at hspan
  refine ⟨_, hspan, ?_, fun t ht => ?_⟩
  · by_contra hstart
    cases r with
    | zero => exact hstart (Nat.zero_le _)
    | succ i =>
      have := feedsBefore_of_lt_partStart (Nat.lt_of_succ_lt hlt) (Nat.lt_of_not_le hstart)
      omega
  · rw [lineSpan_succ] at ht
    obtain ⟨next, hnext, rfl⟩ := Option.map_eq_some_iff.mp ht
    have hsome := (List.getElem?_eq_some_iff.mp hnext).1
    by_contra hstart
    have hmono := feedsBefore_mono text (Nat.le_of_not_lt hstart)
    rw [feedsBefore_partStart hsome] at hmono
    omega

theorem isSome_lineSpan_iff {line : Nat} :
    (lineSpan text line).isSome = true ↔ 1 ≤ line ∧ line ≤ feeds text + 1 := by
  cases line with
  | zero => simp [lineSpan]
  | succ i =>
    rw [lineSpan_succ, Option.isSome_map, isSome_getElem?, length_lineParts]
    omega

/-- The part of the text that a line is. -/
theorem exists_part {line : Nat} {s : Span} (h : lineSpan text line = some s) :
    ∃ i part, line = i + 1 ∧ (lineParts text)[i]? = some part ∧
      s = ⟨partStart (lineParts text) i, partStart (lineParts text) i + byteLength (trimmed part)⟩ := by
  cases line with
  | zero => simp [lineSpan] at h
  | succ i =>
    rw [lineSpan_succ] at h
    obtain ⟨part, hpart, rfl⟩ := Option.map_eq_some_iff.mp h
    exact ⟨i, part, rfl, hpart, rfl⟩

theorem cuts_lineSpan {line : Nat} {s : Span} (h : lineSpan text line = some s) :
    s.Cuts text.toList := by
  obtain ⟨i, part, rfl, hpart, rfl⟩ := exists_part h
  obtain ⟨rest, htext, -⟩ := exists_rest hpart
  rw [← trimmed_append_carriage part, List.append_assoc] at htext
  exact ⟨_, _, _, htext, rfl, rfl⟩

theorem lineFeed_not_mem_slice {line : Nat} {s : Span} (h : lineSpan text line = some s) :
    '\n' ∉ (slice text s).toList := by
  obtain ⟨i, part, rfl, hpart, -⟩ := exists_part h
  have htext := toList_lineText hpart
  rw [lineText, h, Option.map_some, Option.getD_some] at htext
  rw [htext]
  exact fun hmem => not_mem_of_mem_lineParts (List.mem_of_getElem? hpart) (mem_of_mem_trimmed hmem)

/-- A line ends in front of all later ones. -/
theorem lineSpan_stop_lt {line line' : Nat} {s s' : Span} (hlt : line < line')
    (h : lineSpan text line = some s) (h' : lineSpan text line' = some s') : s.stop < s'.start := by
  obtain ⟨i, part, rfl, hpart, rfl⟩ := exists_part h
  obtain ⟨j, part', rfl, -, rfl⟩ := exists_part h'
  have hmono := partStart_mono (lineParts text) (Nat.succ_le_of_lt (Nat.lt_of_succ_lt_succ hlt))
  have hsize := byteLength_trimmed_add part
  rw [partStart_succ hpart] at hmono
  dsimp only
  omega

/-- A line that another one follows ends with a line feed, and the last one with nothing; in both
cases a carriage return may come first. -/
theorem lineEnding_cases {i : Nat} (h : i ≤ feeds text) :
    lineEnding text (i + 1) = (if i < feeds text then "\n" else "") ∨
      lineEnding text (i + 1) = (if i < feeds text then "\r\n" else "\r") := by
  have hlt : i < (lineParts text).length := by
    rw [length_lineParts]
    omega
  have hending := toList_lineEnding (List.getElem?_eq_getElem hlt)
  simp only [length_lineParts, Nat.add_lt_add_iff_right] at hending
  rcases carriage_cases (lineParts text)[i] with hc | hc
  · refine Or.inl (String.toList_inj.mp ?_)
    rw [hending, hc]
    split <;> rfl
  · refine Or.inr (String.toList_inj.mp ?_)
    rw [hending, hc]
    split <;> rfl

/-- Of the carriage returns in front of a line feed only the last one is left out of the line. -/
theorem head?_lineEnding {line : Nat} (h : (lineText text line).toList.getLast? = some '\r') :
    (lineEnding text line).toList.head? = some '\r' := by
  cases hspan : lineSpan text line with
  | none => simp [lineText, hspan] at h
  | some s =>
    obtain ⟨i, part, rfl, hpart, -⟩ := exists_part hspan
    rw [toList_lineText hpart] at h
    have hlast : part.getLast? = some '\r' := by
      by_contra hnot
      rw [trimmed, if_neg hnot] at h
      exact hnot h
    rw [toList_lineEnding hpart, carriage, if_pos hlast]
    rfl

/-- The lines of a text are numbered from 1 and lie in it one behind the other. With what stands
behind each of them, which is a line feed or nothing, perhaps with a carriage return in front, they
are the whole text. The line feeds in front of a byte tell the line of the byte. -/
theorem lines_partition (text : String) :
    (∀ line, (lineSpan text line).isSome = true ↔ 1 ≤ line ∧ line ≤ feeds text + 1) ∧
    (∀ line s, lineSpan text line = some s →
      s.Cuts text.toList ∧ '\n' ∉ (slice text s).toList) ∧
    (∀ line line' s s', line < line' → lineSpan text line = some s →
      lineSpan text line' = some s' → s.stop < s'.start) ∧
    String.join ((List.range (feeds text + 1)).map fun i =>
      lineText text (i + 1) ++ lineEnding text (i + 1)) = text ∧
    (∀ line, 1 ≤ line → line ≤ feeds text →
      lineEnding text line = "\n" ∨ lineEnding text line = "\r\n") ∧
    (lineEnding text (feeds text + 1) = "" ∨ lineEnding text (feeds text + 1) = "\r") ∧
    (∀ line, (lineText text line).toList.getLast? = some '\r' →
      (lineEnding text line).toList.head? = some '\r') ∧
    (∀ p, ∃ s, lineSpan text (feedsBefore text p + 1) = some s ∧ s.start ≤ p ∧
      ∀ t, lineSpan text (feedsBefore text p + 2) = some t → p < t.start) := by
  refine ⟨fun line => isSome_lineSpan_iff, fun line s h => ⟨cuts_lineSpan h, lineFeed_not_mem_slice h⟩,
    fun line line' s s' => lineSpan_stop_lt, ?_, fun line hpos hle => ?_, ?_,
    fun line => head?_lineEnding, exists_line_of_feedsBefore text⟩
  · rw [← length_lineParts]
    exact join_lines text
  · obtain ⟨i, rfl⟩ := Nat.exists_eq_add_one.mpr hpos
    have hending := lineEnding_cases (Nat.le_of_succ_le hle)
    rwa [if_pos (Nat.lt_of_succ_le hle), if_pos (Nat.lt_of_succ_le hle)] at hending
  · have hending := lineEnding_cases (Nat.le_refl (feeds text))
    rwa [if_neg (Nat.lt_irrefl _), if_neg (Nat.lt_irrefl _)] at hending

example : (List.range 5).map (lineSpan "é\r\r\n\nb\r") =
    [none, some ⟨0, 3⟩, some ⟨5, 5⟩, some ⟨6, 7⟩, none] := by decide

end Attest.Text
