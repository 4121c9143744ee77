/-
  Values of TOML at the end of a line: natural numbers in decimal, and lists of quoted texts. Main
  statements: what is written is read back (`readValue?_natural`, `readValue?_texts`).
-/
import Attest.Config.Written
import Attest.Proofs.Number.Decimal
import Attest.Proofs.Toml.Quoted

namespace Attest.Toml

open Number (isDigit isDigit_toDigits exists_first_digit digitValue? digits_toDigits
  isSome_digitValue? read?_of_digits)

variable {ds rest : List Char}

/-! ## Digits up to the end of a line -/

/-- Behind digits of a number stand more of them, or the end of the line. -/
theorem after?_digits {mark : Char} (hmark : isDigit mark = false) (hfeed : mark ≠ '\n')
    (hds : ∀ c ∈ ds, isDigit c = true) : after? mark (ds ++ '\n' :: rest) = none := by
  cases ds with
  | nil => exact if_neg hfeed.symm
  | cons c ds =>
    refine if_neg ?_
    rintro rfl
    simp [hmark] at hds

/-- What follows some digits of a number is the rest of its digits. -/
theorem digitsOf?_digits {count : Nat} (hds : ∀ c ∈ ds, isDigit c = true) {xs ys : List Char}
    (h : digitsOf? count (ds ++ '\n' :: rest) = some (xs, ys)) :
    ∃ more, (∀ c ∈ more, isDigit c = true) ∧ ys = more ++ '\n' :: rest := by
  unfold digitsOf? at h
  dsimp only at h
  split at h
  · next htake =>
    rw [Bool.and_eq_true, decide_eq_true_eq] at htake
    obtain ⟨-, rfl⟩ := Prod.mk.inj (Option.some.inj h)
    have hle : count ≤ ds.length := by
      -- Otherwise the end of the line would be among the digits.
      by_contra hlt
      have hfeed : '\n' ∈ (ds ++ '\n' :: rest).take count := by
        obtain ⟨k, hk⟩ : ∃ k, count - ds.length = k + 1 := ⟨count - ds.length - 1, by omega⟩
        rw [List.take_append, hk, List.take_succ_cons]
        exact List.mem_append_right _ List.mem_cons_self
      have := List.all_eq_true.mp htake.2 _ hfeed
      exact absurd this (by decide)
    refine ⟨ds.drop count, fun c hc => hds c (List.mem_of_mem_drop hc), ?_⟩
    exact List.drop_append_of_le_length hle
  · contradiction

theorem readDate?_digits (hds : ∀ c ∈ ds, isDigit c = true) :
    readDate? (ds ++ '\n' :: rest) = none := by
  have hday : readDay? (ds ++ '\n' :: rest) = none := by
    unfold readDay?
    cases hyear : digitsOf? 4 (ds ++ '\n' :: rest) with
    | none => rfl
    | some year =>
      obtain ⟨more, hmore, hrest⟩ := digitsOf?_digits hds hyear
      have hafter : after? '-' (more ++ '\n' :: rest) = none :=
        after?_digits (by decide) (by decide) hmore
      simp [hrest, hafter]
  have htime : readTime? (ds ++ '\n' :: rest) = none := by
    unfold readTime?
    cases hhour : field? 0 23 (ds ++ '\n' :: rest) with
    | none => rfl
    | some hour =>
      obtain ⟨more, hmore, hrest⟩ := digitsOf?_digits hds (Option.filter_eq_some_iff.mp hhour).1
      have hafter : after? ':' (more ++ '\n' :: rest) = none :=
        after?_digits (by decide) (by decide) hmore
      simp [hrest, hafter]
  rw [readDate?, hday, htime]
  rfl

theorem digitsTail_digits (hds : ∀ c ∈ ds, isDigit c = true) :
    digitsTail 10 (ds ++ '\n' :: rest) = some (ds, '\n' :: rest) := by
  induction ds with
  | nil => cases rest <;> rfl
  | cons c ds ih =>
    rw [List.forall_mem_cons] at hds
    obtain ⟨d, tail, htail⟩ : ∃ d tail, ds ++ '\n' :: rest = d :: tail := by
      cases ds <;> exact ⟨_, _, rfl⟩
    have ih' := ih hds.2
    rw [htail] at ih'
    rw [List.cons_append, htail, digitsTail, if_pos (isSome_digitValue? hds.1), ih', Option.map_some]

theorem decimalDigits?_toDigits (n : Nat) (rest : List Char) :
    decimalDigits? (Nat.toDigits 10 n ++ '\n' :: rest) =
      some (Nat.toDigits 10 n, '\n' :: rest) := by
  obtain ⟨c, ds, hds, -, hfirst⟩ := exists_first_digit n
  have hdigits := isDigit_toDigits n
  have htail : digitsTail 10 (Nat.toDigits 10 n ++ '\n' :: rest) = _ := digitsTail_digits hdigits
  by_cases hn : n = 0
  · rw [hn]
    rfl
  · rw [hds] at hdigits htail ⊢
    unfold decimalDigits?
    split
    · next heq => exact absurd (List.cons.inj heq).1 (hfirst hn)
    · rw [List.cons_append, digits?, if_pos (isSome_digitValue? (hdigits c List.mem_cons_self))]
      exact htail

/-- A number has no sign. -/
theorem splitSign_toDigits (n : Nat) (rest : List Char) :
    splitSign (Nat.toDigits 10 n ++ rest) = ([], Nat.toDigits 10 n ++ rest) := by
  obtain ⟨c, ds, hds, hdigit, -⟩ := exists_first_digit n
  rw [hds, List.cons_append]
  unfold splitSign
  split
  · next heq => simp [(List.cons.inj heq).1, isDigit] at hdigit
  · next heq => simp [(List.cons.inj heq).1, isDigit] at hdigit
  · rfl

theorem readFloat?_toDigits (n : Nat) (rest : List Char) :
    readFloat? (Nat.toDigits 10 n ++ '\n' :: rest) = none := by
  obtain ⟨c, ds, hds, hdigit, -⟩ := exists_first_digit n
  have hword : word? (Nat.toDigits 10 n ++ '\n' :: rest) = none := by
    rw [hds, List.cons_append]
    unfold word?
    split
    · next heq => simp [(List.cons.inj heq).1, isDigit] at hdigit
    · next heq => simp [(List.cons.inj heq).1, isDigit] at hdigit
    · rfl
  have hfractional : fractional? ('\n' :: rest) = none := rfl
  rw [readFloat?, splitSign_toDigits]
  dsimp only
  rw [decimalDigits?_toDigits, Option.bind_some]
  dsimp only
  rw [hfractional, Option.map_none]
  dsimp only
  rw [hword, Option.bind_none]

theorem readInteger?_toDigits {n : Nat} (hn : n < 2 ^ 63) (rest : List Char) :
    readInteger? (Nat.toDigits 10 n ++ '\n' :: rest) = some ((n : Int), '\n' :: rest) := by
  obtain ⟨hdigits, hbare⟩ := digits_toDigits (by decide : 1 < 10) (by decide) n
  have hread := read?_of_digits (r := integerRange) hdigits (by rw [hbare]; exact Nat.toDigits_ne_nil)
  have hhigh : integerRange.high.toNat = 2 ^ 63 - 1 := by decide
  rw [hbare, hhigh, if_pos (by omega)] at hread
  by_cases hzero : n = 0
  · rw [hzero]
    rfl
  · -- A first digit that is not zero names no radix.
    obtain ⟨c, ds, hds, -, hc⟩ := exists_first_digit n
    unfold readInteger?
    split
    · next heq => exact absurd (List.cons.inj (hds ▸ heq)).1 (hc hzero)
    · next heq => exact absurd (List.cons.inj (hds ▸ heq)).1 (hc hzero)
    · next heq => exact absurd (List.cons.inj (hds ▸ heq)).1 (hc hzero)
    · rw [splitSign_toDigits]
      dsimp only
      rw [decimalDigits?_toDigits, Option.bind_some]
      dsimp only
      rw [List.nil_append, hread, Option.map_some]

/-- A value without brackets holds no other. -/
theorem readValue?_of_ne {c : Char} (hlist : c ≠ '[') (htable : c ≠ '\x7b') (depth : Nat)
    (cs : List Char) : readValue? depth (c :: cs) = readAtom? (c :: cs) := by
  unfold readValue?
  split
  · next heq => exact absurd (List.cons.inj heq).1 hlist
  · next heq => exact absurd (List.cons.inj heq).1 htable
  · rfl

theorem readValue?_natural {n : Nat} (hn : n < 2 ^ 63) (depth : Nat) (rest : List Char) :
    readValue? depth ((toString n).toList ++ '\n' :: rest) =
      some (.int n, '\n' :: rest) := by
  have hnumeric : readNumeric? (Nat.toDigits 10 n ++ '\n' :: rest) =
      some (.int n, '\n' :: rest) := by
    rw [readNumeric?, readDate?_digits (isDigit_toDigits n), readFloat?_toDigits,
      readInteger?_toDigits hn]
    rfl
  obtain ⟨c, ds, hds, hdigit, -⟩ := exists_first_digit n
  have hne {x : Char} (hx : isDigit x = false) : c ≠ x := by
    rintro rfl
    simp [hx] at hdigit
  rw [Number.toList_toString, ← hnumeric, hds, List.cons_append, readValue?_of_ne (hne (by decide)) (hne (by decide))]
  unfold readAtom?
  split
  · next heq => exact absurd (List.cons.inj heq).1 (hne (by decide))
  · next heq => exact absurd (List.cons.inj heq).1 (hne (by decide))
  · next heq => exact absurd (List.cons.inj heq).1 (hne (by decide))
  · next heq => exact absurd (List.cons.inj heq).1 (hne (by decide))
  · rfl

/-! ## Lists of quoted texts -/

theorem exists_first_mark (text : String) :
    ∃ c tail, (quote text).toList = c :: tail ∧ (c = '"' ∨ c = '\'') := by
  have hall : ∀ s ∈ Style.all, s.mark = '"' ∨ s.mark = '\'' := by decide
  have hmark := hall _ (Style.forText_mem_all text.toList)
  rw [quote, String.toList_ofList, Style.encode, Style.delimiter]
  split
  · exact ⟨_, _, rfl, hmark⟩
  · exact ⟨_, _, rfl, hmark⟩

theorem readValue?_quote (text : String) (depth : Nat)
    (hrest : ∀ c ∈ rest.head?, c ≠ '"' ∧ c ≠ '\'') :
    readValue? depth ((quote text).toList ++ rest) = some (.text text, rest) := by
  have hread := readQuoted?_quote text hrest
  obtain ⟨c, tail, htail, hc⟩ := exists_first_mark text
  rw [htail, List.cons_append] at hread ⊢
  have hatom : readAtom? (c :: (tail ++ rest)) =
      (readQuoted? (c :: (tail ++ rest))).map fun p => (.text p.1, p.2) := by
    rcases hc with rfl | rfl
    · rfl
    · rfl
  have hbracket : c ≠ '[' ∧ c ≠ '\x7b' := by rcases hc with rfl | rfl <;> decide
  rw [readValue?_of_ne hbracket.1 hbracket.2, hatom, hread, Option.map_some]

/-- Nothing is skipped in front of a quoted text. -/
theorem skipLines_quote (text : String) (rest : List Char) :
    skipLines false ((quote text).toList ++ rest) = (quote text).toList ++ rest := by
  obtain ⟨c, tail, htail, hc⟩ := exists_first_mark text
  rw [htail, List.cons_append]
  rcases hc with rfl | rfl
  · rfl
  · rfl

theorem skipLines_feed (comment : Bool) (cs : List Char) :
    skipLines comment ('\n' :: cs) = skipLines false cs := by
  rw [skipLines, if_pos rfl]

theorem skipLines_space (cs : List Char) : skipLines false (' ' :: cs) = skipLines false cs := by
  rw [skipLines, if_neg (by decide), if_neg (by decide), if_neg (by decide), if_pos (by decide)]

/-- A text that is the first item of a list. -/
theorem readItems?_quote {cs : List Char} {text : String} (hcs : skipLines false cs =
      (quote text).toList ++ rest) (hrest : ∀ c ∈ rest.head?, c ≠ '"' ∧ c ≠ '\'')
    (depth fuel : Nat) : readItems? (readValue? depth) (fuel + 1) cs =
      match skipLines false rest with
      | ']' :: rest' => some ([.text text], rest')
      | ',' :: rest' => (readItems? (readValue? depth) fuel rest').map fun (xs, rest'') =>
          (.text text :: xs, rest'')
      | _ => none := by
  have hread := readValue?_quote text depth hrest
  obtain ⟨c, tail, htail, hc⟩ := exists_first_mark text
  rw [htail, List.cons_append] at hcs hread
  rw [readItems?, hcs]
  split
  · next heq => rcases hc with rfl | rfl <;> simp at heq
  · rw [hread]
    rfl

/-- A text of a list of several, with its indentation and the end of its line. -/
def itemLine (text : String) : List Char := "    ".toList ++ ((quote text).toList ++ ",\n".toList)

theorem toList_join_itemLines (texts : List String) :
    (String.join (texts.map fun s => "    " ++ quote s ++ ",\n")).toList =
      texts.flatMap itemLine := by
  induction texts with
  | nil => rfl
  | cons text texts ih => simp [itemLine, ← ih]

theorem readItems?_itemLines (depth : Nat) {texts : List String} {fuel : Nat}
    (hfuel : texts.length < fuel) (rest : List Char) :
    readItems? (readValue? depth) fuel ('\n' :: (texts.flatMap itemLine ++ ']' :: rest)) =
      some (texts.map .text, rest) := by
  induction texts generalizing fuel with
  | nil =>
    obtain ⟨n, rfl⟩ : ∃ n, fuel = n + 1 := ⟨fuel - 1, by simp at hfuel; omega⟩
    rfl
  | cons text texts ih =>
    obtain ⟨n, rfl⟩ : ∃ n, fuel = n + 1 := ⟨fuel - 1, by omega⟩
    have hskip : skipLines false ('\n' :: ((text :: texts).flatMap itemLine ++ ']' :: rest)) =
        (quote text).toList ++ (',' :: '\n' :: (texts.flatMap itemLine ++ ']' :: rest)) := by
      have hcons : (text :: texts).flatMap itemLine ++ ']' :: rest = ' ' :: ' ' :: ' ' :: ' ' ::
          ((quote text).toList ++ (',' :: '\n' :: (texts.flatMap itemLine ++ ']' :: rest))) := by
        simp [itemLine]
      rw [hcons, skipLines_feed]
      simp only [skipLines_space]
      exact skipLines_quote text _
    rw [readItems?_quote hskip (by simp)]
    show (readItems? _ n ('\n' :: (texts.flatMap itemLine ++ ']' :: rest))).map _ = _
    rw [ih (by simpa using hfuel)]
    rfl

theorem length_le_itemLines (texts : List String) :
    texts.length ≤ (texts.flatMap itemLine).length := by
  induction texts with
  | nil => exact Nat.le_refl 0
  | cons text texts ih =>
    rw [List.flatMap_cons, List.length_append, List.length_cons]
    have : 1 ≤ (itemLine text).length := by simp [itemLine]
    omega

theorem readValue?_texts (depth : Nat) (texts : List String) (rest : List Char) :
    readValue? (depth + 1) ((writeTexts texts).toList ++ '\n' :: rest) =
      some (.list (texts.map .text), '\n' :: rest) := by
  have hlist (cs : List Char) : readValue? (depth + 1) ('[' :: cs) =
      (readItems? (readValue? depth) (cs.length + 1) cs).map fun (items, rest) =>
        (.list items, rest) := by
    rw [readValue?.eq_def]
    rfl
  match texts with
  | [] => rfl
  | [text] =>
    have htext : (writeTexts [text]).toList ++ '\n' :: rest =
        '[' :: ((quote text).toList ++ (']' :: '\n' :: rest)) := by
      simp [writeTexts]
    rw [htext, hlist, readItems?_quote (skipLines_quote text _) (by simp)]
    rfl
  | text :: next :: texts =>
    have htext : (writeTexts (text :: next :: texts)).toList ++ '\n' :: rest =
        '[' :: '\n' :: ((text :: next :: texts).flatMap itemLine ++ (']' :: '\n' :: rest)) := by
      have hwrite : writeTexts (text :: next :: texts) =
          "[\n" ++ String.join ((text :: next :: texts).map fun s => "    " ++ quote s ++ ",\n") ++
            "]" := rfl
      rw [hwrite, String.toList_append, String.toList_append, toList_join_itemLines]
      simp
    have hlength := length_le_itemLines (text :: next :: texts)
    rw [htext, hlist, readItems?_itemLines depth (by simp at hlength ⊢; omega)]
    rfl

end Attest.Toml
