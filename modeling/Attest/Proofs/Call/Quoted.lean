/-
  Characters and texts in quotes. A body is made of pieces, plain characters and escapes, and each
  of them denotes one character. Main statements: a body is read as the characters that its pieces
  denote (`unescape?_of_body`), also where a text continues over several lines
  (`unescape?_of_longBody`), and what stands between the quotation marks of a raw text is read as it
  is (`rawValue?_of_content`).
-/
import Attest.Call.Literal
import Attest.Proofs.Number.Digits
import Attest.Proofs.Text.Offsets

namespace Attest.Call

open Number
open Literal (inside? dropEnd? readBelow? charAt? simpleEscape? byteChar? codePointChar?
  unescapeFrom unescape? textValue? charValue? rawValue?)

/-! ## Pieces -/

/-- The letters of short escapes and the characters that they stand for. -/
def shortEscapes : List (Char × Char) :=
  [('n', '\n'), ('t', '\t'), ('r', '\r'), ('0', '\x00'), ('\\', '\\'), ('\'', '\''), ('"', '"')]

/-- Plain characters and escapes, with the character that each denotes. A byte escape stands for
an ASCII character, and the code point in braces has one to six hexadecimal digits. -/
inductive Piece (delimiter : Char) : List Char → Char → Prop
  | plain {c} (hbackslash : c ≠ '\\') (hdelimiter : c ≠ delimiter) (hreturn : c ≠ '\r') :
      Piece delimiter [c] c
  | short {letter c} (h : (letter, c) ∈ shortEscapes) : Piece delimiter ['\\', letter] c
  | byte {high low h l} (hhigh : DigitOf high h) (hlow : DigitOf low l) (hascii : h < 8) :
      Piece delimiter ['\\', 'x', high, low] (Char.ofNat (16 * h + l))
  | codePoint {digits n} (h : Digits 16 digits n) (hne : bare digits ≠ [])
      (hlength : (bare digits).length ≤ 6) (hfirst : digits.head? ≠ some '_')
      (hvalid : n.isValidChar) :
      Piece delimiter ('\\' :: 'u' :: '\x7b' :: (digits ++ ['\x7d'])) (Char.ofNat n)

/-- What a sequence of pieces denotes. -/
inductive Body (delimiter : Char) : List Char → List Char → Prop
  | nil : Body delimiter [] []
  | cons {piece c cs s} (hp : Piece delimiter piece c) (hb : Body delimiter cs s) :
      Body delimiter (piece ++ cs) (c :: s)

/-! ## Escapes -/

theorem charAt?_of_valid {n : Nat} (h : n.isValidChar) : charAt? n = some (Char.ofNat n) := if_pos h

theorem readBelow?_of_digits (bound : Nat) {n : Nat} {cs : List Char} (h : Digits 16 cs n)
    (hne : bare cs ≠ []) (hn : n < bound) : readBelow? bound (bare cs) = some n := by
  rw [readBelow?, read?_of_digits h hne, if_pos]
  · rfl
  · show n ≤ ((bound - 1 : Nat) : Int).toNat
    omega

theorem byteChar?_of_digits {high low : Char} {h l : Nat} (hhigh : DigitOf high h)
    (hlow : DigitOf low l) (hascii : h < 8) :
    byteChar? [high, low] = some (Char.ofNat (16 * h + l)) := by
  have hl := hlow.lt
  have hdigits : Digits 16 [high, low] (16 * h + l) := by
    have := Digits.digit hhigh (by omega) (Digits.digit hlow hl Digits.nil)
    rw [bare_digit hlow] at this
    simpa [bare, Nat.mul_comm] using this
  have hbare : bare [high, low] = [high, low] := by
    rw [bare_digit hhigh, bare_digit hlow]
    rfl
  have hread := readBelow?_of_digits 256 hdigits (by rw [hbare]; simp) (by omega)
  rw [hbare] at hread
  rw [byteChar?, hread, Option.bind_some, charAt?_of_valid]
  exact Or.inl (by omega)

theorem codePointChar?_of_digits {digits : List Char} {n : Nat} (h : Digits 16 digits n)
    (hne : bare digits ≠ []) (hvalid : n.isValidChar) :
    codePointChar? digits = some (Char.ofNat n) := by
  have hn : n < Nat.pow 2 32 := by
    show n < 2 ^ 32
    rcases hvalid with hlow | ⟨-, hhigh⟩
    · omega
    · omega
  show (readBelow? (Nat.pow 2 32) (bare digits)).bind charAt? = _
  rw [readBelow?_of_digits _ h hne hn, Option.bind_some, charAt?_of_valid hvalid]

/-- The digits of a code point are read up to the brace behind them. -/
theorem unescapeFrom_codePoint {digits : List Char} (h : ∀ c ∈ digits, c ≠ '\x7d')
    (acc rest : List Char) : unescapeFrom (.codePoint acc) (digits ++ '\x7d' :: rest) =
      (codePointChar? (acc ++ digits)).bind fun c => (unescapeFrom .none rest).map (c :: ·) := by
  induction digits generalizing acc with
  | nil =>
    rw [List.nil_append, List.append_nil, unescapeFrom, if_pos rfl]
    cases codePointChar? acc <;> rfl
  | cons c digits ih =>
    rw [List.forall_mem_cons] at h
    rw [List.cons_append, unescapeFrom, if_neg h.1, ih h.2, List.append_assoc]
    rfl

/-- A piece in front of a body gives the character that it denotes. -/
theorem unescapeFrom_piece {delimiter c : Char} {piece : List Char} (h : Piece delimiter piece c)
    (rest : List Char) :
    unescapeFrom .none (piece ++ rest) = (unescapeFrom .none rest).map (c :: ·) := by
  cases h with
  | plain hbackslash => rw [List.singleton_append, unescapeFrom, if_neg hbackslash]
  | short h =>
    simp only [shortEscapes, List.mem_cons, Prod.mk.injEq, List.not_mem_nil, or_false] at h
    rcases h with ⟨rfl, rfl⟩ | ⟨rfl, rfl⟩ | ⟨rfl, rfl⟩ | ⟨rfl, rfl⟩ | ⟨rfl, rfl⟩ | ⟨rfl, rfl⟩ |
      ⟨rfl, rfl⟩ <;> simp [unescapeFrom, simpleEscape?]
  | byte hhigh hlow hascii =>
    simp only [List.cons_append, List.nil_append]
    rw [unescapeFrom, if_pos rfl, unescapeFrom, if_pos rfl, unescapeFrom, unescapeFrom,
      byteChar?_of_digits hhigh hlow hascii]
  | @codePoint digits n hdigits hne _ _ hvalid =>
    have hbrace : ∀ c ∈ digits, c ≠ '\x7d' := by
      intro c hc
      rcases hdigits.mem hc with rfl | ⟨d, -, hd⟩
      · decide
      · exact bne_iff_ne.mp (hd.of_all (p := (· != '\x7d')) (by decide))
    simp only [List.cons_append, List.append_assoc, List.nil_append]
    rw [unescapeFrom, if_pos rfl, unescapeFrom, if_neg (by decide), if_pos rfl, unescapeFrom,
      if_pos rfl, unescapeFrom_codePoint hbrace, List.nil_append,
      codePointChar?_of_digits hdigits hne hvalid, Option.bind_some]

/-- A body is read as the characters that its pieces denote. -/
theorem unescape?_of_body {delimiter : Char} {cs s : List Char} (h : Body delimiter cs s) :
    unescape? cs = some s := by
  unfold unescape?
  induction h with
  | nil => rfl
  | cons hp _ ih => rw [unescapeFrom_piece hp, ih]; rfl

/-! ## Texts over several lines -/

/-- What the body of a text denotes. A backslash at the end of a line takes the line break away and
the blanks of the next lines, up to a character that is no white space at all. -/
inductive LongBody : List Char → List Char → Prop
  | nil : LongBody [] []
  | piece {piece c cs s} (hp : Piece '"' piece c) (hb : LongBody cs s) :
      LongBody (piece ++ cs) (c :: s)
  | continued {blanks cs s} (hblanks : ∀ c ∈ blanks, c ∈ [' ', '\t', '\n'])
      (hnext : ∀ c ∈ cs.head?, Text.isBlank c = false) (hb : LongBody cs s) :
      LongBody ('\\' :: '\n' :: (blanks ++ cs)) s

/-- The blanks behind an escaped line break are skipped. -/
theorem unescapeFrom_continuation {blanks cs : List Char}
    (hblanks : ∀ c ∈ blanks, c ∈ [' ', '\t', '\n'])
    (hnext : ∀ c ∈ cs.head?, Text.isBlank c = false) :
    unescapeFrom .continuation (blanks ++ cs) = unescapeFrom .none cs := by
  induction blanks with
  | nil =>
    rw [List.nil_append]
    cases cs with
    | nil => rfl
    | cons c cs =>
      have hc := hnext c rfl
      rw [unescapeFrom, unescapeFrom, hc, if_neg (by decide)]
  | cons b blanks ih =>
    rw [List.forall_mem_cons] at hblanks
    have hall : [' ', '\t', '\n'].all Text.isBlank = true := by decide
    have hblank := List.all_eq_true.mp hall b hblanks.1
    rw [List.cons_append, unescapeFrom, if_pos hblank, ih hblanks.2]

theorem unescape?_of_longBody {cs s : List Char} (h : LongBody cs s) : unescape? cs = some s := by
  unfold unescape?
  induction h with
  | nil => rfl
  | piece hp _ ih =>
    rw [unescapeFrom_piece hp, ih]
    rfl
  | continued hblanks hnext _ ih =>
    rw [unescapeFrom, if_pos rfl, unescapeFrom, if_neg (by decide), if_neg (by decide), if_pos rfl,
      unescapeFrom_continuation hblanks hnext, ih]

/-! ## Delimiters -/

theorem dropEnd?_append (cs tail : List Char) : dropEnd? tail (cs ++ tail) = some cs := by
  rw [dropEnd?, if_pos (List.isSuffixOf_iff_suffix.mpr (List.suffix_append cs tail))]
  simp

theorem inside?_of_quoted (delimiter : Char) (cs : List Char) :
    inside? delimiter (delimiter :: (cs ++ [delimiter])) = some cs := by
  rw [inside?, if_pos rfl, dropEnd?_append]

theorem textValue?_of_body {cs s : List Char} (h : Body '"' cs s) :
    textValue? ('"' :: (cs ++ ['"'])) = some s := by
  rw [textValue?, inside?_of_quoted, Option.bind_some, unescape?_of_body h]

theorem textValue?_of_longBody {cs s : List Char} (h : LongBody cs s) :
    textValue? ('"' :: (cs ++ ['"'])) = some s := by
  rw [textValue?, inside?_of_quoted, Option.bind_some, unescape?_of_longBody h]

theorem charValue?_of_piece {cs : List Char} {c : Char} (h : Piece '\'' cs c) :
    charValue? ('\'' :: (cs ++ ['\''])) = some c := by
  have hbody := Body.cons h Body.nil
  rw [List.append_nil] at hbody
  rw [charValue?, inside?_of_quoted, Option.bind_some, unescape?_of_body hbody]

/-! ## Raw texts -/

/-- Behind as many hashes as are in front, a raw text is read as it is. -/
theorem rawValue?_of_content (n : Nat) (content : List Char) :
    rawValue? ('r' :: (List.replicate n '#' ++
      '"' :: (content ++ '"' :: List.replicate n '#'))) = some content := by
  have hhashes : (List.replicate n '#' ++
      '"' :: (content ++ '"' :: List.replicate n '#')).takeWhile (· == '#') =
        List.replicate n '#' := by
    rw [List.takeWhile_append_of_pos (by simp), List.takeWhile_cons_of_neg (by decide),
      List.append_nil]
  have hend : content ++ '"' :: List.replicate n '#' =
      (content ++ ['"']) ++ List.replicate n '#' := by
    simp
  rw [rawValue?, hhashes, List.drop_left, hend]
  show (dropEnd? (List.replicate n '#') (content ++ ['"'] ++ List.replicate n '#')).bind
    (dropEnd? ['"']) = some content
  rw [dropEnd?_append, Option.bind_some, dropEnd?_append]

/-- Counts the hashes as a difference of lengths, and cuts them off by that many bytes. -/
def rawValueAt? : List Char → Option (Option (List Char))
  | 'r' :: cs =>
    (Text.sub? (Text.byteLength cs) (Text.byteLength (cs.dropWhile (· == '#')))).bind fun n =>
      (Text.behind? n cs).map fun tail =>
        match tail with
        | '"' :: rest => (dropEnd? (List.replicate n '#') rest).bind (dropEnd? ['"'])
        | _ => none
  | _ => some none

theorem byteLength_replicate_hash (n : Nat) : Text.byteLength (List.replicate n '#') = n := by
  induction n with
  | zero => rfl
  | succ n ih =>
    have hsize : ('#').utf8Size = 1 := by decide
    rw [List.replicate_succ, Text.byteLength_cons, ih, hsize, Nat.add_comm]

/-- What stands in front of the first character that is no hash is a row of hashes. -/
theorem exists_hashes (cs : List Char) : ∃ n tail, cs = List.replicate n '#' ++ tail ∧
    cs.takeWhile (· == '#') = List.replicate n '#' ∧ cs.dropWhile (· == '#') = tail := by
  have hall : cs.takeWhile (· == '#') =
      List.replicate (cs.takeWhile (· == '#')).length '#' := by
    rw [List.eq_replicate_iff]
    exact ⟨rfl, fun c hc => eq_of_beq (List.all_eq_true.mp List.all_takeWhile c hc)⟩
  refine ⟨_, _, ?_, hall, rfl⟩
  rw [← hall, List.takeWhile_append_dropWhile]

/-- The hashes of a raw text are never cut off behind its end. -/
theorem rawValueAt?_eq (quoted : List Char) : rawValueAt? quoted = some (rawValue? quoted) := by
  by_cases h : ∃ cs, quoted = 'r' :: cs
  · obtain ⟨cs, rfl⟩ := h
    obtain ⟨n, tail, hcs, htake, htail⟩ := exists_hashes cs
    have hlength : Text.byteLength cs = n + Text.byteLength tail := by
      rw [hcs, Text.byteLength_append, byteLength_replicate_hash]
    have hbehind : Text.behind? n cs = some tail := by
      rw [hcs]
      simpa only [byteLength_replicate_hash] using
        Text.behind?_append (List.replicate n '#') tail
    have hdrop : cs.drop n = tail := by
      rw [hcs, List.drop_left' List.length_replicate]
    rw [rawValueAt?, rawValue?, htail, hlength, Text.sub?_of_le (Nat.le_add_left _ _),
      Nat.add_sub_cancel, Option.bind_some, hbehind, htake, List.length_replicate, hdrop]
    rfl
  · have hne (cs : List Char) (hcs : quoted = 'r' :: cs) : False := h ⟨cs, hcs⟩
    rw [rawValueAt?, rawValue?]
    · exact hne
    · exact hne

end Attest.Call
