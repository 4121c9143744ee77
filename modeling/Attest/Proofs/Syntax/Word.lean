/-
  Words. A text of the characters of names is read as one word (`scan_of_isWord`), wherever it ends
  (`lexeme_of_isWord`), and no other word is spelt with all its characters. Main statement
  (`isPlainName_iff`): the plain names of the grammar, raw ones left out, are such texts that are
  not reserved.
-/
import Attest.Proofs.Syntax.Scan
import Attest.Proofs.Text.Split
import Attest.Syntax.Grammar

namespace Attest.Syntax

open Text (isBlank isNameStart isNameContinue)

/-- A character that may begin a name, then characters that may continue one. -/
def IsWord (cs : List Char) : Prop :=
  ∃ c rest, cs = c :: rest ∧ isNameStart c = true ∧ ∀ x ∈ rest, isNameContinue x = true

theorem isWord_cons {c : Char} {rest : List Char} : IsWord (c :: rest) ↔
    isNameStart c = true ∧ ∀ x ∈ rest, isNameContinue x = true := by
  constructor
  · rintro ⟨c', rest', hcons, hc, hrest⟩
    obtain ⟨rfl, rfl⟩ := List.cons.inj hcons
    exact ⟨hc, hrest⟩
  · rintro ⟨hc, hrest⟩
    exact ⟨c, rest, rfl, hc, hrest⟩

theorem not_isWord_nil : ¬ IsWord [] := fun ⟨_, _, hnil, _⟩ => by cases hnil

/-! ## Characters of names -/

/-- These begin something else, or end a name. -/
def foreign : List Char := ['/', '"', '\'', '#', '\ufeff']

theorem isName_of_mem_foreign :
    ∀ x ∈ foreign, isNameStart x = false ∧ isNameContinue x = false := by
  have hall : foreign.all (fun x => !isNameStart x && !isNameContinue x) = true := by decide +kernel
  simpa using hall

theorem exists_range_of_has {ranges : Text.Ranges} {n : Nat} (h : ranges.has n = true) :
    ∃ r ∈ ranges, r.1 ≤ n ∧ n ≤ r.2 := by
  induction ranges with
  | nil => cases h
  | cons r rest ih =>
    rw [Text.Ranges.has] at h
    split at h
    · cases h
    · next hlow =>
      rw [Bool.or_eq_true, decide_eq_true_eq] at h
      rcases h with hhigh | hrest
      · exact ⟨r, List.mem_cons_self, by omega, hhigh⟩
      · obtain ⟨r', hr', hbounds⟩ := ih hrest
        exact ⟨r', List.mem_cons_of_mem _ hr', hbounds⟩

/-- The few blanks are no letters. -/
theorem not_isBlank_of_isNameStart {c : Char} (h : isNameStart c = true) : isBlank c = false := by
  refine Bool.eq_false_iff.2 fun hblank => ?_
  obtain ⟨r, hr, hlow, hhigh⟩ := exists_range_of_has hblank
  have hall : ∀ r ∈ Text.blankRanges, ∀ n ∈ List.range' r.1 (r.2 + 1 - r.1),
      n ≠ '_'.toNat ∧ Text.identifierStartRanges.has n = false := by
    decide +kernel
  obtain ⟨hne, hnone⟩ := hall r hr c.toNat (List.mem_range'_1.2 ⟨hlow, by omega⟩)
  have hunderscore : (c == '_') = false := beq_false_of_ne fun heq => hne (congrArg Char.toNat heq)
  rw [isNameStart, hnone, hunderscore] at h
  cases h

/-! ## Scanning -/

/-- What stands behind a name does not go on with it, and is no quotation mark or hash. -/
def EndsName (rest : List Char) : Prop :=
  ∀ x ∈ rest.head?, isNameContinue x = false ∧ x ≠ '"' ∧ x ≠ '\'' ∧ x ≠ '#'

variable {cs tail rest : List Char}

theorem head?_of_name (htail : ∀ x ∈ tail, isNameContinue x = true) (hrest : EndsName rest) :
    ∀ x ∈ (tail ++ rest).head?, x ≠ '"' ∧ x ≠ '\'' ∧ x ≠ '#' := by
  have hforeign {x y : Char} (hy : y ∈ foreign) (hx : isNameContinue x = true) : x ≠ y := by
    rintro rfl
    exact Bool.eq_false_iff.1 (isName_of_mem_foreign x hy).2 hx
  intro x hx
  cases tail with
  | nil => exact (hrest x hx).2
  | cons y tail =>
    obtain rfl := Option.some.inj hx
    have hy := htail y List.mem_cons_self
    exact ⟨hforeign (by decide) hy, hforeign (by decide) hy, hforeign (by decide) hy⟩

/-- Only quotation marks, perhaps behind hashes, make an `r` the beginning of a raw text. -/
theorem rawBody?_of_name (h : ∀ x ∈ cs.head?, x ≠ '"' ∧ x ≠ '#') : rawBody? ('r' :: cs) = none := by
  cases cs with
  | nil => rfl
  | cons x cs =>
    obtain ⟨hquote, hhash⟩ := h x rfl
    rw [rawBody?, List.dropWhile_cons_of_neg (by simpa using hhash)]
    simp [hquote]

theorem rawBody?_of_ne {c : Char} (hc : c ≠ 'r') : rawBody? (c :: cs) = none := by
  simp [rawBody?, hc]

theorem rawBody?_of_names (htail : ∀ x ∈ tail, isNameContinue x = true) (hrest : EndsName rest) :
    rawBody? (tail ++ rest) = none := by
  have hraw {ds : List Char} (hds : ∀ x ∈ ds.head?, x ≠ '"' ∧ x ≠ '\'' ∧ x ≠ '#') :
      rawBody? ('r' :: ds) = none :=
    rawBody?_of_name fun x hx => ⟨(hds x hx).1, (hds x hx).2.2⟩
  cases tail with
  | nil =>
    cases rest with
    | nil => rfl
    | cons x rest =>
      have hx : x ≠ 'r' := by
        rintro rfl
        exact absurd (hrest 'r' rfl).1 (by decide +kernel)
      exact rawBody?_of_ne hx
  | cons y tail =>
    rw [List.cons_append]
    by_cases hy : y = 'r'
    · rw [hy]
      exact hraw (head?_of_name (fun x hx => htail x (List.mem_cons_of_mem y hx)) hrest)
    · exact rawBody?_of_ne hy

theorem charBody?_of_head (h : ∀ x ∈ cs.head?, x ≠ '\'') : charBody? cs = none := by
  unfold charBody?
  split
  · exact absurd rfl (h '\'' rfl)
  · exact absurd rfl (h '\'' rfl)
  · exact absurd rfl (h '\'' rfl)
  · rfl

/-- A word is read to its end. -/
theorem lexeme_of_isWord (h : IsWord cs) (hrest : EndsName rest) (member : Bool) :
    lexeme member (cs ++ rest) = (.word, cs) := by
  obtain ⟨c, tail, rfl, hc, htail⟩ := h
  have hhead := head?_of_name htail hrest
  have hforeign {y : Char} (hy : y ∈ foreign) : c ≠ y := by
    rintro rfl
    exact Bool.eq_false_iff.1 (isName_of_mem_foreign c hy).1 hc
  have hslash : c ≠ '/' := hforeign (by decide)
  have hquote : c ≠ '"' := hforeign (by decide)
  have hapostrophe : c ≠ '\'' := hforeign (by decide)
  rw [List.cons_append]
  generalize hds : tail ++ rest = ds at hhead
  have hcomment : comment? (c :: ds) = none := by simp [comment?, hslash]
  have hraw : rawText? (c :: ds) = none := by
    have hbody : rawBody? ds = none := hds ▸ rawBody?_of_names htail hrest
    unfold rawText?
    split
    · next heq =>
      obtain ⟨-, rfl⟩ := List.cons.inj heq
      rw [hbody]
      rfl
    · next heq =>
      obtain ⟨-, rfl⟩ := List.cons.inj heq
      rw [hbody]
      rfl
    · by_cases hr : c = 'r'
      · rw [hr]
        exact rawBody?_of_name fun x hx => ⟨(hhead x hx).1, (hhead x hx).2.2⟩
      · exact rawBody?_of_ne hr
  have htext : text? (c :: ds) = none := by
    unfold text?
    split
    · next heq => exact absurd (List.cons.inj heq).1 hquote
    · next heq => exact absurd rfl (hhead '"' (by rw [(List.cons.inj heq).2]; rfl)).1
    · next heq => exact absurd rfl (hhead '"' (by rw [(List.cons.inj heq).2]; rfl)).1
    · rfl
  have hchar : char? (c :: ds) = none := by
    unfold char?
    split
    · next heq =>
      obtain ⟨-, rfl⟩ := List.cons.inj heq
      rw [charBody?_of_head fun x hx => (hhead x hx).2.1]
      rfl
    · exact charBody?_of_head fun x hx => Option.some.inj hx ▸ hapostrophe
  have hnumber : number? member (c :: ds) = none := by
    simp [number?, isDecimal_of_isNameStart hc]
  have hword : word? (c :: ds) = some (c :: tail) := by
    have htake : ds.takeWhile isNameContinue = tail :=
      hds ▸ (Text.takeWhile_front htail fun x hx => (hrest x hx).1).1
    unfold word?
    split
    · next heq => exact absurd rfl (hhead '#' (by rw [(List.cons.inj heq).2]; rfl)).2.2
    · next heq =>
      obtain ⟨rfl, rfl⟩ := List.cons.inj heq
      rw [if_pos hc, htake]
    · next heq => cases heq
  rw [lexeme, hcomment, hraw, htext, hchar, hnumber, hword]
  rfl

/-- A text that is a word has no other tokens. -/
theorem scan_of_isWord {text : String} (h : IsWord text.toList) :
    scan text = [⟨.word, text, 0, 0⟩] := by
  have hend : EndsName [] := fun _ hx => nomatch hx
  have hlexeme := lexeme_of_isWord h hend false
  obtain ⟨c, tail, hcs, hc, htail⟩ := h
  have hforeign {y : Char} (hy : y ∈ foreign) : c ≠ y := by
    rintro rfl
    exact Bool.eq_false_iff.1 (isName_of_mem_foreign c hy).1 hc
  have hblank : isBlank c = false := not_isBlank_of_isNameStart hc
  have hmark : c ≠ '\ufeff' := hforeign (by decide)
  have hhash : c ≠ '#' := hforeign (by decide)
  have hshebang : shebang? (c :: tail) = none := by simp [shebang?, hhash]
  have htake : (c :: tail).takeWhile isBlank = [] :=
    List.takeWhile_cons_of_neg (by simp [hblank])
  have htext : String.ofList (c :: tail) = text := by rw [← hcs, String.ofList_toList]
  rw [hcs, List.append_nil] at hlexeme
  have hscans : Scans ⟨0, 0, 0⟩ (c :: tail) [⟨.word, String.ofList (c :: tail), 0, 0⟩] :=
    .token hblank hlexeme (List.append_nil _) .nil
  rw [scan, hcs, skipOrderMark, if_neg hmark]
  dsimp only
  rw [htake, List.length_nil, List.drop_zero, hshebang, hscans.eq_scanFrom (Nat.le_refl _), htext]

/-- The words of a text are texts of such characters, unless they are spelt raw. -/
theorem isWord_of_mem_scan {text : String} {t : Token} (ht : t ∈ scan text) (hkind : t.kind = .word)
    (hraw : '#' ∉ t.text.toList) : IsWord t.text.toList := by
  obtain ⟨ds, hword⟩ := exists_word?_of_mem_scan ht hkind
  generalize t.text.toList = l at hword hraw
  have hcontinue (ds : List Char) : ∀ x ∈ ds.takeWhile isNameContinue, isNameContinue x = true :=
    List.all_eq_true.1 List.all_takeWhile
  unfold word? at hword
  split at hword
  · split at hword
    · obtain rfl := Option.some.inj hword
      simp at hraw
    · obtain rfl := Option.some.inj hword
      exact ⟨'r', [], rfl, by decide +kernel, fun _ hx => nomatch hx⟩
  · split at hword
    · next hc =>
      obtain rfl := Option.some.inj hword
      exact ⟨_, _, rfl, hc, hcontinue _⟩
    · cases hword
  · cases hword

/-! ## Plain names -/

/-- The text is a single token for the scanner, and a name for the grammar that is not raw. -/
def IsPlainName (name : String) : Prop :=
  ∃ t, scan name = [t] ∧ t.text = name ∧ Grammar.isName t = true ∧ '#' ∉ name.toList

theorem IsWord.not_mem_hash {cs : List Char} (h : IsWord cs) : '#' ∉ cs := by
  obtain ⟨c, rest, rfl, hc, hrest⟩ := h
  obtain ⟨hstart, hcontinue⟩ := isName_of_mem_foreign '#' (by decide)
  intro hmem
  rcases List.mem_cons.1 hmem with rfl | hmem
  · exact Bool.eq_false_iff.1 hstart hc
  · exact Bool.eq_false_iff.1 hcontinue (hrest _ hmem)

/-- The plain names are the words that are not reserved. -/
theorem isPlainName_iff {name : String} :
    IsPlainName name ↔ IsWord name.toList ∧ name ∉ Grammar.reserved := by
  constructor
  · rintro ⟨t, hscan, rfl, hname, hraw⟩
    obtain ⟨hkind, hreserved⟩ : t.kind = .word ∧ t.text ∉ Grammar.reserved := by
      simpa [Grammar.isName] using hname
    exact ⟨isWord_of_mem_scan (hscan ▸ List.mem_singleton_self t) hkind hraw, hreserved⟩
  · rintro ⟨hword, hreserved⟩
    exact ⟨_, scan_of_isWord hword, rfl, by simpa [Grammar.isName] using hreserved,
      hword.not_mem_hash⟩

end Attest.Syntax
