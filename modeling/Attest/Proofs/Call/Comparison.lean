/-
  Comparing literals with scalars. An integer literal is compared equal to the integer that it
  stands for and to no other (`compare_integer_exact`). A text or character literal is decoded to
  what its body denotes, and compared equal to that and to no other scalar; so is the literal as
  which a text or a character is shown (`quoted_literals_exact`).
-/
import Attest.Proofs.Call.Canonical
import Attest.Proofs.Call.Lexical
import Attest.Proofs.Call.Signed

namespace Attest.Call

open Syntax Number
open Literal (ofTree? ofToken? unescape? charValue? rawValue?)

/-! ## Integers -/

/-- An integer literal is one token. It is compared equal to its value, if that is small enough,
and to no other integer. -/
theorem compare_integer_exact {text : List Char} {n : Nat} (h : IntegerText text n) :
    (∀ member rest, EndsNumber rest → lexeme member (text ++ rest) = (.integer, text)) ∧
    ∀ negative t, WritesNumber .integer text negative t → ∀ w : Int,
      compare t (.int w) =
        .ok (if n < 2 ^ 127 ∧ w = signedInt negative n then .equal else .notEqual) := by
  refine ⟨fun member rest hrest => lexeme_integer h hrest member, fun negative t ht w => ?_⟩
  have hread : ofTree? t = some (.integer (signedText negative text)) :=
    ofTree?_of_writesNumber rfl (fun _ => rfl) (fun _ => rfl) ht
  have hdenotes : (Literal.integer (signedText negative text)).denotes (.int w) =
      .ok ((if n < 2 ^ 127 then some (signedInt negative n) else none) == some w) := by
    rw [Literal.denotes, integerValue_of_signedText h]
    rfl
  refine compare_of_ofTree? hread hdenotes ?_
  rw [beq_iff_eq, Option.ite_none_right_eq_some, Option.some_inj, eq_comm (a := w)]

/-- The text in any number of parentheses and behind a minus sign stands for one integer. -/
theorem compare_integer_exact_hex :
    IntegerText "0x2A_i64".toList 42 ∧ EndsNumber [')'] ∧
    WritesNumber .integer "0x2A_i64".toList true negativeInParens ∧
    lexeme false ("0x2A_i64".toList ++ [')']) = (.integer, "0x2A_i64".toList) ∧
    compare negativeInParens (.int (-42)) = .ok .equal ∧
    compare negativeInParens (.int 42) = .ok .notEqual := by
  have hends : EndsNumber [')'] := by
    intro c hc
    obtain rfl := Option.some.inj hc
    decide
  have hnone : ∀ c ∈ ([] : List Tree), c.isComment = true := by simp
  have hwrites : WritesNumber .integer "0x2A_i64".toList true negativeInParens :=
    ⟨negativeHex, .minus rfl rfl hnone .refl rfl, .paren .refl rfl rfl⟩
  obtain ⟨htoken, hcompare⟩ := compare_integer_exact integerText_hex
  exact ⟨integerText_hex, hends, hwrites, htoken false _ hends, hcompare true _ hwrites (-42),
    hcompare true _ hwrites 42⟩

/-! ## Texts and characters -/

/-- A literal of the kind with the text, in any parentheses, is compared equal to the scalar and to
no other. -/
def ReadsAs (kind : Kind) (text : List Char) (v : Scalar) : Prop :=
  ∀ r token t, token.text.toList = text → Parenthesized (.leaf r kind token) t →
    ∀ w, compare t w = .ok (if w = v then .equal else .notEqual)

theorem readsAs_of_denotes {kind : Kind} {text : List Char} {v : Scalar} {l : Literal}
    (hnamed : kind.isNamed = true)
    (hl : ∀ s : String, s.toList = text → ofToken? kind s = some l) (honly : l.DenotesOnly v)
    (hv : ∀ x, v ≠ .float x) (hfloat : ∀ x, l.denotes (.float x) = .ok false) :
    ReadsAs kind text v := by
  intro r token t htext ht w
  have hdenotes : l.denotes w = .ok (v == w) := by
    by_cases hw : ∃ x, w = .float x
    · obtain ⟨x, rfl⟩ := hw
      rw [hfloat, beq_eq_false_iff_ne.mpr (hv x)]
    · exact honly w fun x hx => hw ⟨x, hx⟩
  have hread : ofTree? t = some l := by rw [ofTree?_of_parenthesized ht hnamed, ofTree?, hl _ htext]
  exact compare_of_ofTree? hread hdenotes (beq_iff_eq.trans eq_comm)

theorem readsAs_text {cs s : List Char} (h : Body '"' cs s) :
    ReadsAs .text ('"' :: (cs ++ ['"'])) (.text (String.ofList s)) :=
  readsAs_of_denotes rfl (fun _ htext => htext ▸ rfl)
    (Literal.denotesOnly_text (textValue?_of_body h)) (by simp) fun _ => rfl

theorem readsAs_rawText (n : Nat) (content : List Char) :
    ReadsAs .rawText (rawQuoted n content) (.text (String.ofList content)) := by
  have hvalue : rawValue? (rawQuoted n content) = some content := rawValue?_of_content n content
  exact readsAs_of_denotes rfl (fun _ htext => htext ▸ rfl) (Literal.denotesOnly_rawText hvalue)
    (by simp) fun _ => rfl

theorem readsAs_char {cs : List Char} {c : Char} (h : Piece '\'' cs c) :
    ReadsAs .char ('\'' :: (cs ++ ['\''])) (.char c) :=
  readsAs_of_denotes rfl (fun _ htext => htext ▸ rfl)
    (Literal.denotesOnly_char (charValue?_of_piece h)) (by simp) fun _ => rfl

theorem not_mem_escapeCodePoint (c : Char) : '_' ∉ Text.escapeCodePoint c := by
  have hbare := (digits_toDigits (by decide : 1 < 16) (by decide) c.toNat).2
  have hdigits : '_' ∉ Nat.toDigits 16 c.toNat := by
    rw [← hbare]
    simp [bare]
  simp [Text.escapeCodePoint, Text.hexDigits, hdigits]

/-- Only an underscore is shown with one. -/
theorem not_mem_escapeChar {c : Char} (hc : c ≠ '_') (mark : Char) :
    '_' ∉ Text.escapeChar mark c := by
  unfold Text.escapeChar
  split
  · decide
  split
  · decide
  split
  · decide
  split
  · decide
  split
  · simpa using Ne.symm hc
  split
  · exact not_mem_escapeCodePoint c
  · simpa using Ne.symm hc

theorem escapeChar_underscore : Text.escapeChar '\'' '_' = ['_'] := by
  have hplain : (Text.isExtender '_' || !Text.isPrintable '_') = false := by decide +kernel
  simp [Text.escapeChar, hplain]

theorem render_text (s : String) : (Scalar.render (.text s)).toList =
    '"' :: (s.toList.flatMap (Text.escapeChar '"') ++ ['"']) := by
  show (Text.quoteString s).toList = _
  rw [Text.quoteString, String.toList_ofList]
  rfl

theorem render_char (c : Char) :
    (Scalar.render (.char c)).toList = '\'' :: (Text.escapeChar '\'' c ++ ['\'']) := by
  show (Text.quoteChar c).toList = _
  rw [Text.quoteChar, String.toList_ofList, Text.quoteChars, List.flatMap_singleton]
  rfl

/-- Texts, raw texts and characters are decoded to what they denote, each is one token whatever
stands behind it, and each is compared equal to that scalar only. The same holds of the literal as
which a text or a character is shown. -/
theorem quoted_literals_exact :
    (∀ cs s, Body '"' cs s → unescape? cs = some s ∧ IsToken .text ('"' :: (cs ++ ['"'])) ∧
      ReadsAs .text ('"' :: (cs ++ ['"'])) (.text (String.ofList s))) ∧
    (∀ n content, ¬ ('"' :: List.replicate n '#') <:+: content →
      rawValue? (rawQuoted n content) = some content ∧ IsToken .rawText (rawQuoted n content) ∧
      ReadsAs .rawText (rawQuoted n content) (.text (String.ofList content))) ∧
    (∀ cs c, Piece '\'' cs c → charValue? ('\'' :: (cs ++ ['\''])) = some c ∧
      (('_' ∈ cs → cs = ['_']) → IsToken .char ('\'' :: (cs ++ ['\'']))) ∧
      ReadsAs .char ('\'' :: (cs ++ ['\''])) (.char c)) ∧
    (∀ s, IsToken .text (Scalar.render (.text s)).toList ∧
      ReadsAs .text (Scalar.render (.text s)).toList (.text s)) ∧
    (∀ c, IsToken .char (Scalar.render (.char c)).toList ∧
      ReadsAs .char (Scalar.render (.char c)).toList (.char c)) := by
  refine ⟨fun cs s h => ⟨unescape?_of_body h, isToken_text h, readsAs_text h⟩,
    fun n content h =>
      ⟨rawValue?_of_content n content, isToken_rawText h, readsAs_rawText n content⟩,
    fun cs c h => ⟨charValue?_of_piece h, isToken_char h, readsAs_char h⟩, fun s => ?_, fun c => ?_⟩
  · have hbody := body_flatMap_escapeChar (Or.inr rfl) s.toList
    have hreads := readsAs_text hbody
    rw [String.ofList_toList] at hreads
    rw [render_text]
    exact ⟨isToken_text hbody, hreads⟩
  · have hpiece := piece_escapeChar (Or.inl rfl) c
    rw [render_char]
    refine ⟨isToken_char hpiece fun hmem => ?_, readsAs_char hpiece⟩
    by_cases hc : c = '_'
    · rw [hc, escapeChar_underscore]
    · exact absurd hmem (not_mem_escapeChar hc _)

/-- Escapes in a text, a quotation mark in a raw text, and a code point. -/
theorem quoted_literals_exact_escapes :
    Body '"' "\\x41\\n".toList ['A', '\n'] ∧ unescape? "\\x41\\n".toList = some ['A', '\n'] ∧
    ¬ ('"' :: List.replicate 1 '#') <:+: "a\"b".toList ∧
    rawValue? (rawQuoted 1 "a\"b".toList) = some "a\"b".toList ∧
    Piece '\'' "\\u\x7be9\x7d".toList 'é' ∧
    charValue? ('\'' :: ("\\u\x7be9\x7d".toList ++ ['\''])) = some 'é' := by
  have hfour : DigitOf '4' 4 := Or.inl rfl
  have hone : DigitOf '1' 1 := Or.inl rfl
  have hbody : Body '"' (['\\', 'x', '4', '1'] ++ (['\\', 'n'] ++ [])) ['A', '\n'] :=
    .cons (.byte hfour hone (by decide)) (.cons (.short (by decide)) .nil)
  have hmark : ¬ ('"' :: List.replicate 1 '#') <:+: "a\"b".toList := by decide
  have hdigits : Digits 16 ['e', '9'] 0xe9 :=
    .digit (d := 14) (Or.inl rfl) (by decide) (.digit (d := 9) (Or.inl rfl) (by decide) .nil)
  have hpiece : Piece '\'' ('\\' :: 'u' :: '\x7b' :: (['e', '9'] ++ ['\x7d'])) 'é' :=
    .codePoint hdigits (by decide) (by decide) (by decide) (Or.inl (by decide))
  obtain ⟨htext, hraw, hchar, -, -⟩ := quoted_literals_exact
  exact ⟨hbody, (htext _ _ hbody).1, hmark, (hraw 1 _ hmark).1, hpiece, (hchar _ _ hpiece).1⟩

end Attest.Call
