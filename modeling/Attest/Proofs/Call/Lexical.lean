/-
  Literals as tokens. The scanner takes the whole text of a literal for one token and stops behind
  it: behind quotes whatever follows (`isToken_text`, `isToken_rawText`, `isToken_char`), behind an
  integer where the text of a number ends (`lexeme_integer`).
-/
import Attest.Proofs.Call.Integer
import Attest.Proofs.Call.Quoted
import Attest.Proofs.Syntax.Lexeme
import Attest.Proofs.Text.Split

namespace Attest.Call

open Syntax Number

/-- The scanner reads the text as one token, whatever stands behind it. -/
def IsToken (kind : TokenKind) (text : List Char) : Prop :=
  ∀ member rest, lexeme member (text ++ rest) = (kind, text)

/-! ## Integers -/

/-- What stands behind a number neither continues it nor makes it a fraction. -/
def EndsNumber (rest : List Char) : Prop := ∀ c ∈ rest.head?, isNumeral c = false ∧ c ≠ '.'

variable {digits suffix rest : List Char} {radix n : Nat}

/-- Behind the digits stands a letter that is no digit, or the end of the number. -/
theorem head?_of_suffix (hsuffix : suffix ∈ integerSuffixes) (hrest : EndsNumber rest) :
    ∀ c ∈ (suffix ++ rest).head?, (c = 'i' ∨ c = 'u') ∨ (isNumeral c = false ∧ c ≠ '.') := by
  have hhead : ∀ s ∈ integerSuffixes, s = [] ∨ s.head? = some 'i' ∨ s.head? = some 'u' := by decide
  intro c hc
  rcases hhead suffix hsuffix with rfl | h | h
  · exact Or.inr (hrest c hc)
  · rw [List.head?_append, h] at hc
    exact Or.inl (Or.inl (Option.some.inj hc).symm)
  · rw [List.head?_append, h] at hc
    exact Or.inl (Or.inr (Option.some.inj hc).symm)

theorem takeWhile_digits {accepts : Char → Bool} (hdigits : Digits radix digits n)
    (hsuffix : suffix ∈ integerSuffixes) (hrest : EndsNumber rest)
    (hunderscore : accepts '_' = true)
    (haccepts : ∀ i < radix, (digitChars i).all accepts = true)
    (hletters : accepts 'i' = false ∧ accepts 'u' = false)
    (hnumeral : ∀ c, accepts c = true → isNumeral c = true) :
    (digits ++ (suffix ++ rest)).takeWhile accepts = digits := by
  refine (Text.takeWhile_front (fun c hc => ?_) fun c hc => ?_).1
  · rcases hdigits.mem hc with rfl | ⟨d, hd, hdigit⟩
    · exact hunderscore
    · exact hdigit.of_all_lt (p := fun _ => accepts) hd haccepts
  · rcases head?_of_suffix hsuffix hrest c hc with (rfl | rfl) | ⟨hc, -⟩
    · exact hletters.1
    · exact hletters.2
    · exact Bool.eq_false_iff.mpr fun h => Bool.eq_false_iff.mp hc (hnumeral c h)

theorem integerDigits_of_decimal {c : Char} {cs : List Char}
    (h : ∀ d ∈ cs.head?, d ≠ 'x' ∧ d ≠ 'o' ∧ d ≠ 'b') :
    integerDigits (c :: cs) = (c :: cs).takeWhile isDecimalPart := by
  unfold integerDigits
  split
  · next heq => exact absurd rfl (h 'x' (by simp [(List.cons.inj heq).2])).1
  · next heq => exact absurd rfl (h 'o' (by simp [(List.cons.inj heq).2])).2.1
  · next heq => exact absurd rfl (h 'b' (by simp [(List.cons.inj heq).2])).2.2
  · rfl

theorem radixDigits_of_digits {mark : Char} {accepts : Char → Bool} {cs : List Char}
    (h : cs.takeWhile accepts = digits) (hne : digits ≠ []) :
    radixDigits mark accepts cs = '0' :: mark :: digits := by
  obtain ⟨c, ds, rfl⟩ := List.exists_cons_of_ne_nil hne
  rw [radixDigits, h]

theorem ne_mark_of_not_isNumeral {c : Char} (h : isNumeral c = false) :
    c ≠ 'x' ∧ c ≠ 'o' ∧ c ≠ 'b' := by
  refine ⟨?_, ?_, ?_⟩
  all_goals
    rintro rfl
    exact absurd h (by decide)

/-- No radix mark stands in a decimal literal, nor right behind it. -/
theorem head?_ne_mark {cs : List Char} (hdigits : Digits 10 digits n)
    (hsuffix : suffix ∈ integerSuffixes) (hrest : EndsNumber rest) (hcs : ∀ c ∈ cs, c ∈ digits) :
    ∀ d ∈ (cs ++ (suffix ++ rest)).head?, d ≠ 'x' ∧ d ≠ 'o' ∧ d ≠ 'b' := by
  intro d hd
  cases cs with
  | nil =>
    rcases head?_of_suffix hsuffix hrest d hd with (rfl | rfl) | ⟨hd, -⟩
    · decide
    · decide
    · exact ne_mark_of_not_isNumeral hd
  | cons c cs =>
    obtain rfl := Option.some.inj hd
    exact ne_mark_of_decimal hdigits hsuffix c (List.mem_append_left _ (hcs c List.mem_cons_self))

/-- The digits behind a radix mark are all that the scanner accepts there. -/
theorem integerDigits_of_text {mark : List Char} (hmark : (mark, radix) ∈ radixMarks)
    (hdigits : Digits radix digits n) (hne : bare digits ≠ []) (hsuffix : suffix ∈ integerSuffixes)
    (hrest : EndsNumber rest) :
    integerDigits (mark ++ (digits ++ (suffix ++ rest))) = mark ++ digits := by
  have hnil : digits ≠ [] := by
    rintro rfl
    exact hne rfl
  simp only [radixMarks, List.mem_cons, Prod.mk.injEq, List.not_mem_nil, or_false] at hmark
  rcases hmark with ⟨rfl, rfl⟩ | ⟨rfl, rfl⟩ | ⟨rfl, rfl⟩ | ⟨rfl, rfl⟩
  · obtain ⟨c, cs, rfl⟩ := List.exists_cons_of_ne_nil hnil
    have hmarks := head?_ne_mark hdigits hsuffix hrest fun d hd => List.mem_cons_of_mem c hd
    rw [List.nil_append, List.cons_append, integerDigits_of_decimal hmarks]
    exact takeWhile_digits hdigits hsuffix hrest (by decide) (by decide) (by decide)
      fun _ => isNumeral_of_isDecimalPart
  · exact radixDigits_of_digits (takeWhile_digits hdigits hsuffix hrest (by decide) (by decide)
      (by decide) fun _ => isNumeral_of_hexPart) hnil
  · exact radixDigits_of_digits (takeWhile_digits hdigits hsuffix hrest (by decide) (by decide)
      (by decide) fun _ => isNumeral_of_octalPart) hnil
  · exact radixDigits_of_digits (takeWhile_digits hdigits hsuffix hrest (by decide) (by decide)
      (by decide) fun _ => isNumeral_of_binaryPart) hnil

/-- The name of a type is read to its end, and nothing is read as one where a number ends. -/
theorem integerSuffix_of_text (hsuffix : suffix ∈ integerSuffixes) (hrest : EndsNumber rest) :
    integerSuffix (suffix ++ rest) = suffix := by
  simp only [integerSuffixes, List.map_cons, List.map_nil, List.mem_cons, List.not_mem_nil,
    or_false] at hsuffix
  rcases hsuffix with rfl | rfl | rfl | rfl | rfl | rfl | rfl | rfl | rfl | rfl | rfl | rfl | rfl
  · have hheads : (numericTypes.map String.toList).all (fun s => s.head?.any isNumeral) = true := by
      decide
    have hnone : (numericTypes.map String.toList).find? (fun s => s.isPrefixOf rest) = none := by
      rw [List.find?_eq_none]
      intro s hs hprefix
      obtain ⟨c, hc, hnumeral⟩ := (Option.any_eq_true _ _).mp (List.all_eq_true.mp hheads s hs)
      obtain ⟨tail, rfl⟩ := List.isPrefixOf_iff_prefix.mp hprefix
      have hfirst : c ∈ (s ++ tail).head? := by
        rw [List.head?_append, hc]
        rfl
      exact absurd hnumeral (Bool.eq_false_iff.mp (hrest c hfirst).1)
    show integerSuffix rest = []
    rw [integerSuffix, hnone]
    rfl
  all_goals rfl

/-- Digits without a point or a power of ten behind them are no float. -/
theorem float?_of_whole {whole tail : List Char} (hwhole : ∀ c ∈ whole, isDecimalPart c = true)
    (htail : ∀ c ∈ tail.head?, isDecimalPart c = false ∧ c ≠ '.' ∧ c ≠ 'e' ∧ c ≠ 'E') :
    float? (whole ++ tail) = none := by
  have htake := (Text.takeWhile_front hwhole fun c hc => (htail c hc).1).1
  have hfraction : fraction? tail = some [] := by
    unfold fraction?
    split
    · exact absurd rfl (htail '.' rfl).2.1
    · rfl
  have hexponent : exponent? tail = none := by
    cases tail with
    | nil => rfl
    | cons c tail =>
      have hc := (htail c rfl).2.2
      rw [exponent?, if_neg (by simp [hc])]
  rw [float?, htake, List.drop_left, hfraction]
  dsimp only
  rw [List.append_nil, List.drop_left, hexponent]
  rfl

theorem float?_of_text {cs : List Char} (h : IntegerText cs n) (hrest : EndsNumber rest) :
    float? (cs ++ rest) = none := by
  have hmarked (c : Char) (hc : isDecimalPart c = false ∧ c ≠ '.' ∧ c ≠ 'e' ∧ c ≠ 'E')
      (tail : List Char) : float? ('0' :: c :: tail) = none := by
    have hzero : ∀ d ∈ ['0'], isDecimalPart d = true := List.forall_mem_singleton.mpr (by decide)
    refine float?_of_whole hzero fun d hd => ?_
    obtain rfl := Option.some.inj hd
    exact hc
  obtain ⟨hmark, hdigits, -, -, hsuffix⟩ := h
  simp only [radixMarks, List.mem_cons, Prod.mk.injEq, List.not_mem_nil, or_false] at hmark
  rcases hmark with ⟨rfl, rfl⟩ | ⟨rfl, rfl⟩ | ⟨rfl, rfl⟩ | ⟨rfl, rfl⟩
  · rw [List.nil_append, List.append_assoc]
    refine float?_of_whole (fun c hc => ?_) fun c hc => ?_
    · rcases hdigits.mem hc with rfl | ⟨d, hd, hdigit⟩
      · decide
      · exact hdigit.of_all_lt (p := fun _ => isDecimalPart) hd (by decide)
    · rcases head?_of_suffix hsuffix hrest c hc with (rfl | rfl) | ⟨hc, hpoint⟩
      · decide
      · decide
      · refine ⟨Bool.eq_false_iff.mpr fun h => ?_, hpoint, ?_, ?_⟩
        · exact absurd (isNumeral_of_isDecimalPart h) (Bool.eq_false_iff.mp hc)
        all_goals
          rintro rfl
          exact absurd hc (by decide)
  · exact hmarked 'x' (by decide) _
  · exact hmarked 'o' (by decide) _
  · exact hmarked 'b' (by decide) _

/-- What begins with a digit is a number. -/
theorem lexeme_of_number {member : Bool} {c : Char} {cs : List Char} {r : TokenKind × List Char}
    (hc : isDecimal c = true) (h : number? member (c :: cs) = some r) :
    lexeme member (c :: cs) = r := by
  have hne : c ≠ '/' ∧ c ≠ 'r' ∧ c ≠ 'b' ∧ c ≠ 'c' ∧ c ≠ '"' ∧ c ≠ '\'' := by
    refine ⟨?_, ?_, ?_, ?_, ?_, ?_⟩
    all_goals
      rintro rfl
      contradiction
  have hcomment : comment? (c :: cs) = none := by simp [comment?, hne]
  have hraw : rawText? (c :: cs) = none := by simp [rawText?, rawBody?, hne]
  have htext : text? (c :: cs) = none := by simp [text?, hne]
  have hchar : char? (c :: cs) = none := by simp [char?, charBody?, hne]
  rw [lexeme, hcomment, hraw, htext, hchar, h]
  rfl

/-- The scanner reads all of an integer literal, up to where a number ends. -/
theorem lexeme_integer {cs : List Char} (h : IntegerText cs n) (hrest : EndsNumber rest)
    (member : Bool) : lexeme member (cs ++ rest) = (.integer, cs) := by
  have hfloat := float?_of_text h hrest
  obtain ⟨c, tail, hcs, hc⟩ := h.head
  have hdecimal : isDecimal c = true := by simpa [isDecimal] using hc
  have hinteger : integer (cs ++ rest) = cs := by
    obtain ⟨hmark, hdigits, hne, -, hsuffix⟩ := h
    simp only [List.append_assoc]
    rw [integer, integerDigits_of_text hmark hdigits hne hsuffix hrest]
    rw [← List.append_assoc, List.drop_left, integerSuffix_of_text hsuffix hrest,
      List.append_assoc]
  rw [hcs, List.cons_append] at hfloat hinteger ⊢
  refine lexeme_of_number hdecimal ?_
  unfold number?
  dsimp only
  rw [if_pos hdecimal, hfloat, hinteger]
  cases member with
  | false => rfl
  | true => rfl

/-! ## Texts -/

theorem lexeme_quote (member : Bool) (cs : List Char) :
    lexeme member ('"' :: cs) = (.text, '"' :: quotedRest cs) := rfl

theorem lexeme_raw {member : Bool} {cs l : List Char} (h : rawBody? ('r' :: cs) = some l) :
    lexeme member ('r' :: cs) = (.rawText, l) := by
  have hraw : rawText? ('r' :: cs) = some l := h
  have hcomment : comment? ('r' :: cs) = none := rfl
  rw [lexeme, hraw, hcomment]
  rfl

theorem lexeme_apostrophe {member : Bool} {cs l : List Char} (h : charBody? ('\'' :: cs) = some l) :
    lexeme member ('\'' :: cs) = (.char, l) := by
  have hchar : char? ('\'' :: cs) = some l := h
  have hcomment : comment? ('\'' :: cs) = none := rfl
  have hraw : rawText? ('\'' :: cs) = none := rfl
  have htext : text? ('\'' :: cs) = none := rfl
  rw [lexeme, hchar, hcomment, hraw, htext]
  rfl

/-- Plain characters do not end a text. -/
theorem quotedRest_plain {cs : List Char} (h : ∀ c ∈ cs, c ≠ '\\' ∧ c ≠ '"') (rest : List Char) :
    quotedRest (cs ++ rest) = cs ++ quotedRest rest := by
  induction cs with
  | nil => rfl
  | cons c cs ih =>
    rw [List.forall_mem_cons] at h
    rw [List.cons_append, quotedRest, if_neg h.1.2, ih h.2, List.cons_append]
    · rintro c' cs' rfl
      exact absurd rfl h.1.1

theorem quotedRest_escape (c : Char) (cs : List Char) :
    quotedRest ('\\' :: c :: cs) = '\\' :: c :: quotedRest cs := rfl

/-- Digits are plain characters. -/
theorem plain_of_digitOf {c : Char} {d : Nat} (h : DigitOf c d) : c ≠ '\\' ∧ c ≠ '"' := by
  simpa using h.of_all (p := fun c => c != '\\' && c != '"') (by decide)

theorem plain_of_digits {digits : List Char} {n : Nat} (h : Digits 16 digits n) :
    ∀ c ∈ digits, c ≠ '\\' ∧ c ≠ '"' := by
  intro c hc
  rcases h.mem hc with rfl | ⟨d, -, hd⟩
  · decide
  · exact plain_of_digitOf hd

theorem quotedRest_piece {piece : List Char} {c : Char} (h : Piece '"' piece c)
    (rest : List Char) : quotedRest (piece ++ rest) = piece ++ quotedRest rest := by
  cases h with
  | plain hbackslash hdelimiter =>
    exact quotedRest_plain (List.forall_mem_singleton.mpr ⟨hbackslash, hdelimiter⟩) rest
  | short => exact quotedRest_escape _ _
  | @byte high low h l hhigh hlow =>
    have hplain : ∀ c ∈ [high, low], c ≠ '\\' ∧ c ≠ '"' :=
      List.forall_mem_cons.mpr ⟨plain_of_digitOf hhigh,
        List.forall_mem_singleton.mpr (plain_of_digitOf hlow)⟩
    show quotedRest ('\\' :: 'x' :: ([high, low] ++ rest)) = _
    rw [quotedRest_escape, quotedRest_plain hplain]
    rfl
  | @codePoint digits n hdigits =>
    have hplain : ∀ c ∈ '\x7b' :: (digits ++ ['\x7d']), c ≠ '\\' ∧ c ≠ '"' := by
      have hall := plain_of_digits hdigits
      simpa [or_imp, forall_and] using hall
    show quotedRest ('\\' :: 'u' :: ('\x7b' :: (digits ++ ['\x7d']) ++ rest)) = _
    rw [quotedRest_escape, quotedRest_plain hplain]
    rfl

theorem quotedRest_body {cs s : List Char} (h : Body '"' cs s) (rest : List Char) :
    quotedRest (cs ++ '"' :: rest) = cs ++ ['"'] := by
  induction h with
  | nil => rfl
  | cons hp _ ih => rw [List.append_assoc, quotedRest_piece hp, ih, List.append_assoc]

theorem isToken_text {cs s : List Char} (h : Body '"' cs s) :
    IsToken .text ('"' :: (cs ++ ['"'])) := by
  intro member rest
  rw [List.cons_append, List.append_assoc, List.singleton_append, lexeme_quote,
    quotedRest_body h]

/-! ## Raw texts -/

/-- Hashes in front of another character stand before it. -/
theorem replicate_isPrefix {a b : Char} (hab : a ≠ b) {n : Nat} {cs rest : List Char}
    (h : List.replicate n a <+: cs ++ b :: rest) : List.replicate n a <+: cs := by
  induction n generalizing cs with
  | zero => exact List.nil_prefix
  | succ n ih =>
    rw [List.replicate_succ] at h ⊢
    cases cs with
    | nil => exact absurd (List.cons_prefix_cons.mp h).1 hab
    | cons c cs =>
      obtain ⟨hc, htail⟩ := List.cons_prefix_cons.mp h
      exact List.cons_prefix_cons.mpr ⟨hc, ih htail⟩

theorem rawRest_content {n : Nat} {content : List Char}
    (h : ¬ ('"' :: List.replicate n '#') <:+: content) (rest : List Char) :
    rawRest (List.replicate n '#') (content ++ '"' :: (List.replicate n '#' ++ rest)) =
      content ++ '"' :: List.replicate n '#' := by
  induction content with
  | nil =>
    have hend : ('"' = '"' && (List.replicate n '#').isPrefixOf
        (List.replicate n '#' ++ rest)) = true := by
      simp [List.isPrefixOf_iff_prefix]
    rw [List.nil_append, rawRest, if_pos hend]
    rfl
  | cons c content ih =>
    have hgo : ¬ (c = '"' && (List.replicate n '#').isPrefixOf
        (content ++ '"' :: (List.replicate n '#' ++ rest))) = true := by
      intro hend
      simp only [Bool.and_eq_true, decide_eq_true_eq, List.isPrefixOf_iff_prefix] at hend
      obtain ⟨rfl, hprefix⟩ := hend
      have hinside := replicate_isPrefix (by decide : '#' ≠ '"') hprefix
      exact h (List.cons_prefix_cons.mpr ⟨rfl, hinside⟩).isInfix
    rw [List.cons_append, rawRest, if_neg hgo, ih fun hin => h (List.infix_cons hin)]
    rfl

/-- The raw text with `n` hashes on either side. -/
def rawQuoted (n : Nat) (content : List Char) : List Char :=
  'r' :: (List.replicate n '#' ++ '"' :: (content ++ '"' :: List.replicate n '#'))

theorem isToken_rawText {n : Nat} {content : List Char}
    (h : ¬ ('"' :: List.replicate n '#') <:+: content) :
    IsToken .rawText (rawQuoted n content) := by
  intro member rest
  have hhash : ∀ c ∈ List.replicate n '#', (c == '#') = true := by simp
  have hrest : ∀ c ∈ ('"' :: (content ++ '"' :: (List.replicate n '#' ++ rest))).head?,
      (c == '#') = false := by simp
  obtain ⟨htake, hdrop⟩ := Text.takeWhile_front hhash hrest
  have hbody : rawBody? ('r' :: (List.replicate n '#' ++
      '"' :: (content ++ '"' :: (List.replicate n '#' ++ rest)))) =
        some (rawQuoted n content) := by
    rw [rawBody?, htake, hdrop]
    show some ('r' :: List.replicate n '#' ++ '"' :: rawRest (List.replicate n '#') _) = _
    rw [rawRest_content h, List.cons_append, rawQuoted]
  have happend : rawQuoted n content ++ rest = 'r' :: (List.replicate n '#' ++
      '"' :: (content ++ '"' :: (List.replicate n '#' ++ rest))) := by
    simp [rawQuoted]
  rw [happend, lexeme_raw hbody]

/-! ## Characters -/

/-- Where an escape is read up to the closing mark, the character literal is. -/
theorem charBody?_escape {e rest : List Char} (h : escape? (e ++ '\'' :: rest) = some e) :
    charBody? ('\'' :: '\\' :: (e ++ '\'' :: rest)) = some ('\'' :: '\\' :: e ++ ['\'']) := by
  rw [charBody?, h]
  dsimp only
  rw [List.drop_left]
  rfl

theorem escape?_short {letter c : Char} (h : (letter, c) ∈ shortEscapes) (rest : List Char) :
    escape? (letter :: rest) = some [letter] := by
  simp only [shortEscapes, List.mem_cons, Prod.mk.injEq, List.not_mem_nil, or_false] at h
  rcases h with ⟨rfl, -⟩ | ⟨rfl, -⟩ | ⟨rfl, -⟩ | ⟨rfl, -⟩ | ⟨rfl, -⟩ | ⟨rfl, -⟩ | ⟨rfl, -⟩
  all_goals rfl

theorem isHexDigit_of_digitOf {c : Char} {d : Nat} (h : DigitOf c d) : isHexDigit c = true :=
  h.of_all (by decide)

theorem escape?_byte {high low : Char} {h l : Nat} (hhigh : DigitOf high h) (hlow : DigitOf low l)
    (rest : List Char) : escape? ('x' :: high :: low :: rest) = some ['x', high, low] := by
  have hboth : (isHexDigit high && isHexDigit low) = true := by
    rw [isHexDigit_of_digitOf hhigh, isHexDigit_of_digitOf hlow]
    rfl
  exact if_pos hboth

theorem escape?_codePoint {digits : List Char} (hdigits : ∀ c ∈ digits, isHexDigit c = true)
    (hne : digits ≠ []) (rest : List Char) :
    escape? ('u' :: '\x7b' :: (digits ++ '\x7d' :: rest)) =
      some ('u' :: '\x7b' :: (digits ++ ['\x7d'])) := by
  have hbrace : ∀ c ∈ ('\x7d' :: rest).head?, isHexDigit c = false := by
    intro c hc
    obtain rfl := Option.some.inj hc
    decide
  obtain ⟨htake, hdrop⟩ := Text.takeWhile_front hdigits hbrace
  obtain ⟨c, cs, rfl⟩ := List.exists_cons_of_ne_nil hne
  rw [escape?, htake, hdrop]
  rfl

/-- The scanner knows no underscores in an escape. -/
theorem isToken_char {cs : List Char} {c : Char} (h : Piece '\'' cs c)
    (hunderscore : '_' ∈ cs → cs = ['_']) : IsToken .char ('\'' :: (cs ++ ['\''])) := by
  intro member rest
  rw [List.cons_append, List.append_assoc, List.singleton_append]
  refine lexeme_apostrophe ?_
  cases h with
  | plain hbackslash hdelimiter =>
    have hclosed : ('\'' :: rest).head? = some '\'' := rfl
    exact (charBody?_plain hdelimiter hbackslash _).trans (if_pos hclosed)
  | short h =>
    exact charBody?_escape (escape?_short h _)
  | @byte high low h l hhigh hlow =>
    exact charBody?_escape (escape?_byte hhigh hlow _)
  | @codePoint digits n hdigits hne =>
    have hhex : ∀ c ∈ digits, isHexDigit c = true := by
      intro c hc
      rcases hdigits.mem hc with rfl | ⟨d, -, hd⟩
      · have := hunderscore (by simp [hc])
        simp at this
      · exact isHexDigit_of_digitOf hd
    have hnil : digits ≠ [] := by
      rintro rfl
      exact hne rfl
    have happend : 'u' :: '\x7b' :: (digits ++ ['\x7d']) ++ '\'' :: rest =
        'u' :: '\x7b' :: (digits ++ '\x7d' :: '\'' :: rest) := by
      simp
    exact charBody?_escape (by rw [happend]; exact escape?_codePoint hhex hnil _)

end Attest.Call
