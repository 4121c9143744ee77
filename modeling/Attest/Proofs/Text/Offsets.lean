/-
  Lines and slices by byte offsets. Here subtractions may go below zero, and indices and slices may
  leave the text or cut through a character: then there is no result. Main statements: none of
  these happens when lines are found by the places of line feeds (`lineSpanAt?_eq`), and a slice
  behind a beginning of the text is what stands behind it (`behind?_append`).
-/
import Attest.Proofs.Text.Rows

namespace Attest.Text

/-! ## Bytes -/

/-- The bytes of the characters. -/
def bytes (cs : List Char) : List UInt8 := cs.flatMap String.utf8EncodeChar

theorem bytes_append (a b : List Char) : bytes (a ++ b) = bytes a ++ bytes b := by
  simp [bytes]

theorem bytes_cons (c : Char) (cs : List Char) :
    bytes (c :: cs) = String.utf8EncodeChar c ++ bytes cs := by
  simp [bytes]

theorem length_bytes (cs : List Char) : (bytes cs).length = byteLength cs := by
  induction cs with
  | nil => rfl
  | cons c cs ih => rw [bytes_cons, List.length_append, ih, byteLength_cons,
      String.length_utf8EncodeChar]

/-- Only the carriage return ends with the byte 13: a byte that continues a character is 128 or
more. -/
theorem getLast?_utf8EncodeChar (c : Char) :
    (String.utf8EncodeChar c).getLast? = some 13 ↔ c = '\r' := by
  constructor
  · intro h
    have hcontinues (n : Nat) (hn : UInt8.ofNat (n % 64 + 128) = 13) : c = '\r' := by
      have := congrArg UInt8.toNat hn
      simp at this
      omega
    unfold String.utf8EncodeChar at h
    dsimp only at h
    split at h
    · next hascii =>
      have hbyte := congrArg UInt8.toNat (Option.some.inj h)
      have hnat : c.val.toNat = c.toNat := rfl
      have hvalue : c.toNat = 13 := by
        simp at hbyte
        omega
      exact Char.toNat_inj.mp hvalue
    · split at h
      · exact hcontinues _ (Option.some.inj h)
      · split at h
        · exact hcontinues _ (Option.some.inj h)
        · exact hcontinues _ (Option.some.inj h)
  · rintro rfl
    decide

/-- The last byte of a character in the text. -/
theorem getElem?_bytes_last (a b : List Char) (c : Char) :
    (bytes (a ++ c :: b))[byteLength a + c.utf8Size - 1]? =
      (String.utf8EncodeChar c).getLast? := by
  have hpos := c.utf8Size_pos
  rw [bytes_append, bytes_cons, List.getElem?_append_right (by rw [length_bytes]; omega),
    List.getElem?_append_left (by rw [length_bytes, String.length_utf8EncodeChar]; omega),
    List.getLast?_eq_getElem?, length_bytes, String.length_utf8EncodeChar]
  congr 1
  omega

/-! ## Lines by the places of line feeds -/

/-- The places behind the line feeds of `cs`, which begins at `pos`. -/
def startsFrom (pos : Nat) : List Char → List Nat
  | [] => []
  | c :: cs => if c = '\n' then (pos + 1) :: startsFrom (pos + 1) cs
    else startsFrom (pos + c.utf8Size) cs

def lineStarts (cs : List Char) : List Nat := 0 :: startsFrom 0 cs

/-- A difference that is not below zero. -/
def sub? (a b : Nat) : Option Nat := if b ≤ a then some (a - b) else none

/-- Where a line ends whose line feed, or the end of the text, is at `stop`. -/
def lineEnd? (cs : List Char) (start stop : Nat) : Option Nat :=
  if start < stop then do
    let last ← sub? stop 1
    let byte ← (bytes cs)[last]?
    if byte = 13 then sub? stop 1 else some stop
  else some stop

/-- The span of the `k`-th line that starts at one of the places. -/
def lineAt? (cs : List Char) (starts : List Nat) (k : Nat) : Option (Option Span) :=
  match starts[k]? with
  | none => some none
  | some start =>
    (match starts[k + 1]? with
    | some next => sub? next 1
    | none => some (byteLength cs)).bind fun stop =>
      (lineEnd? cs start stop).map fun stop => some ⟨start, stop⟩

def lineSpanAt? (cs : List Char) : Nat → Option (Option Span)
  | 0 => some none
  | row + 1 => lineAt? cs (lineStarts cs) row

theorem sub?_of_le {a b : Nat} (h : b ≤ a) : sub? a b = some (a - b) := if_pos h

theorem lineAt?_last (cs : List Char) (start : Nat) :
    lineAt? cs [start] 0 =
      (lineEnd? cs start (byteLength cs)).map fun stop => some ⟨start, stop⟩ := by
  simp only [lineAt?, List.getElem?_cons_zero, List.getElem?_cons_succ, List.getElem?_nil,
    Option.bind_some]

theorem lineAt?_zero (cs : List Char) (start pos : Nat) (starts : List Nat) :
    lineAt? cs (start :: (pos + 1) :: starts) 0 =
      (lineEnd? cs start pos).map fun stop => some ⟨start, stop⟩ := by
  have hsub : sub? (pos + 1) 1 = some pos := sub?_of_le (Nat.le_add_left 1 pos)
  simp only [lineAt?, List.getElem?_cons_zero, List.getElem?_cons_succ, hsub, Option.bind_some]

theorem lineAt?_succ (cs : List Char) (start k : Nat) (starts : List Nat) :
    lineAt? cs (start :: starts) (k + 1) = lineAt? cs starts k := by
  simp only [lineAt?, List.getElem?_cons_succ]

/-- The end of a line is computed within the text. -/
theorem lineEnd?_eq (front part rest : List Char) :
    (lineEnd? (front ++ (part ++ rest)) (byteLength front)
        (byteLength front + byteLength part)).map (fun stop => some ⟨byteLength front, stop⟩) =
      some (some (lineTo (byteLength front) (byteLength front + byteLength part)
        (part.getLast? == some '\r'))) := by
  cases hpart : part.getLast? with
  | none =>
    obtain rfl := List.getLast?_eq_none_iff.mp hpart
    simp [lineEnd?, lineTo]
  | some c =>
    obtain ⟨init, rfl⟩ := List.getLast?_eq_some_iff.mp hpart
    have hpos := c.utf8Size_pos
    have hbyte := getElem?_bytes_last (front ++ init) rest c
    obtain ⟨byte, hlast⟩ : ∃ b, (String.utf8EncodeChar c).getLast? = some b :=
      Option.isSome_iff_exists.mp (by simp [String.utf8EncodeChar_ne_nil])
    have hcarriage : byte = 13 ↔ c = '\r' := by
      rw [← getLast?_utf8EncodeChar, hlast, Option.some.injEq]
    have hstop : byteLength front + byteLength (init ++ [c]) =
        byteLength (front ++ init) + c.utf8Size := by
      simp
      omega
    have hcs : front ++ (init ++ [c] ++ rest) = front ++ init ++ c :: rest := by simp
    have hlt : byteLength front < byteLength (front ++ init) + c.utf8Size := by
      simp
      omega
    have hsub : sub? (byteLength (front ++ init) + c.utf8Size) 1 =
        some (byteLength (front ++ init) + c.utf8Size - 1) := sub?_of_le (by omega)
    rw [hstop, hcs, lineEnd?, if_pos hlt, hsub]
    simp only [Option.bind_eq_bind, Option.bind_some, hbyte, hlast]
    by_cases hc : c = '\r'
    · simp [hcarriage.mpr hc, hc, lineTo]
    · simp [hcarriage, hc, lineTo]

/-- Finding lines by the places of line feeds never fails. -/
theorem lineAt?_eq (front part rest : List Char) (k : Nat) :
    lineAt? (front ++ (part ++ rest))
        (byteLength front :: startsFrom (byteLength front + byteLength part) rest) k =
      some ((linesFrom (byteLength front) (byteLength front + byteLength part)
        (part.getLast? == some '\r') rest)[k]?) := by
  induction rest generalizing front part k with
  | nil =>
    cases k with
    | zero =>
      have hsize : byteLength (front ++ (part ++ [])) = byteLength front + byteLength part := by
        simp
      rw [startsFrom, lineAt?_last, hsize, lineEnd?_eq, linesFrom]
      rfl
    | succ k => simp [lineAt?, startsFrom, linesFrom]
  | cons c rest ih =>
    by_cases hc : c = '\n'
    · subst hc
      rw [startsFrom, if_pos rfl, linesFrom, if_pos rfl]
      cases k with
      | zero =>
        rw [lineAt?_zero, lineEnd?_eq]
        rfl
      | succ k =>
        have hpos : byteLength front + byteLength part + 1 =
            byteLength (front ++ part ++ ['\n']) := by
          simp
          omega
        have hcs : front ++ (part ++ '\n' :: rest) = front ++ part ++ ['\n'] ++ ([] ++ rest) := by
          simp
        rw [lineAt?_succ, hpos, hcs]
        exact ih (front ++ part ++ ['\n']) [] k
    · have hcs : front ++ (part ++ c :: rest) = front ++ ((part ++ [c]) ++ rest) := by simp
      have hpos : byteLength front + byteLength part + c.utf8Size =
          byteLength front + byteLength (part ++ [c]) := by
        simp
        omega
      have hcarriage : (c == '\r') = ((part ++ [c]).getLast? == some '\r') := by simp
      rw [startsFrom, if_neg hc, linesFrom, if_neg hc, hcs, hpos, hcarriage, ih]

theorem lineSpanAt?_eq (text : String) (line : Nat) :
    lineSpanAt? text.toList line = some (lineSpan text line) := by
  cases line with
  | zero => rfl
  | succ row => exact lineAt?_eq [] [] text.toList row

/-! ## Slices -/

/-- What stands behind a byte offset. -/
def behind? : Nat → List Char → Option (List Char)
  | 0, cs => some cs
  | _ + 1, [] => none
  | n + 1, c :: cs => if c.utf8Size ≤ n + 1 then behind? (n + 1 - c.utf8Size) cs else none

/-- What stands in front of a byte offset. -/
def before? : Nat → List Char → Option (List Char)
  | 0, _ => some []
  | _ + 1, [] => none
  | n + 1, c :: cs =>
    if c.utf8Size ≤ n + 1 then (before? (n + 1 - c.utf8Size) cs).map (c :: ·) else none

def sliceAt? (cs : List Char) (s : Span) : Option (List Char) :=
  (sub? s.stop s.start).bind fun n => (behind? s.start cs).bind (before? n)

theorem behind?_append (a b : List Char) : behind? (byteLength a) (a ++ b) = some b := by
  induction a with
  | nil => cases b <;> rfl
  | cons c a ih =>
    obtain ⟨n, hn⟩ : ∃ n, c.utf8Size + byteLength a = n + 1 :=
      Nat.exists_eq_add_one.mpr (Nat.add_pos_left c.utf8Size_pos _)
    rw [byteLength_cons, List.cons_append, hn, behind?, if_pos (by omega),
      show n + 1 - c.utf8Size = byteLength a by omega, ih]

theorem before?_append (a b : List Char) : before? (byteLength a) (a ++ b) = some a := by
  induction a with
  | nil => cases b <;> rfl
  | cons c a ih =>
    obtain ⟨n, hn⟩ : ∃ n, c.utf8Size + byteLength a = n + 1 :=
      Nat.exists_eq_add_one.mpr (Nat.add_pos_left c.utf8Size_pos _)
    rw [byteLength_cons, List.cons_append, hn, before?, if_pos (by omega),
      show n + 1 - c.utf8Size = byteLength a by omega, ih]
    rfl

/-- A slice of the text is what stands between its two ends. -/
theorem sliceAt?_middle (a b c : List Char) :
    sliceAt? (a ++ (b ++ c)) ⟨byteLength a, byteLength a + byteLength b⟩ = some b := by
  rw [sliceAt?, sub?_of_le (Nat.le_add_right _ _), Option.bind_some, behind?_append,
    Option.bind_some, Nat.add_sub_cancel_left, before?_append]

/-- The offset of the first character that satisfies `p`. -/
def offsetOf? (p : Char → Bool) (pos : Nat) : List Char → Option Nat
  | [] => none
  | c :: cs => if p c then some pos else offsetOf? p (pos + c.utf8Size) cs

/-- Cutting at the first character that satisfies `p` leaves what stands in front of it. -/
theorem offsetOf?_spec (p : Char → Bool) (pos : Nat) (cs : List Char) :
    (offsetOf? p pos cs = none ∧ cs.takeWhile (!p ·) = cs) ∨
      offsetOf? p pos cs = some (pos + byteLength (cs.takeWhile (!p ·))) := by
  induction cs generalizing pos with
  | nil => exact Or.inl ⟨rfl, rfl⟩
  | cons c cs ih =>
    rw [offsetOf?]
    by_cases hc : p c = true
    · rw [if_pos hc, List.takeWhile_cons_of_neg (by simp [hc])]
      exact Or.inr rfl
    · rw [if_neg hc, List.takeWhile_cons_of_pos (by simp [hc])]
      rcases ih (pos + c.utf8Size) with ⟨hnone, hall⟩ | hsome
      · exact Or.inl ⟨hnone, by rw [hall]⟩
      · rw [hsome, byteLength_cons, Nat.add_assoc]
        exact Or.inr rfl

/-! ## Spans that cut the text -/

/-- The span begins and ends between characters. -/
def Span.Cuts (s : Span) (cs : List Char) : Prop :=
  ∃ a b c, cs = a ++ (b ++ c) ∧ s.start = byteLength a ∧ s.stop = byteLength a + byteLength b

namespace Span.Cuts

variable {s : Span} {cs : List Char}

theorem bounds (h : s.Cuts cs) : s.start ≤ s.stop ∧ s.stop ≤ byteLength cs := by
  obtain ⟨a, b, c, rfl, hstart, hstop⟩ := h
  simp only [byteLength_append]
  omega

theorem sliceAt?_isSome (h : s.Cuts cs) : (sliceAt? cs s).isSome = true := by
  obtain ⟨start, stop⟩ := s
  obtain ⟨a, b, c, rfl, rfl, rfl⟩ := h
  rw [sliceAt?_middle]
  rfl

end Span.Cuts

/-- Of two beginnings of a text the one with fewer bytes is a beginning of the other. -/
theorem isPrefix_of_byteLength_le {a b cs : List Char} (ha : a <+: cs) (hb : b <+: cs)
    (h : byteLength a ≤ byteLength b) : a <+: b := by
  rcases List.prefix_or_prefix_of_prefix ha hb with hab | hba
  · exact hab
  · obtain ⟨rest, rfl⟩ := hba
    have hrest : rest = [] := by
      cases rest with
      | nil => rfl
      | cons c rest =>
        have := c.utf8Size_pos
        simp at h
        omega
    exact ⟨[], by rw [hrest, List.append_nil, List.append_nil]⟩

end Attest.Text
