/-
  The written form of a configuration is read back to the configuration. Main statement: a
  configuration is written unless its limit is larger than a document's integers, and what is
  written is read to that configuration (`Config.toToml_roundTrip`).
-/
import Attest.Config.Written
import Attest.Proofs.Config.Setting
import Attest.Proofs.Toml.Line
import Attest.Proofs.Toml.Value

namespace Attest

open Toml

/-! ## Lines -/

/-- A header in front of the rest of a text. -/
def headerText (name : String) (rest : List Char) : List Char :=
  '[' :: (name.toList ++ ']' :: '\n' :: rest)

/-- A name and its written value in front of the rest of a text. -/
def entryText (name : String) (written rest : List Char) : List Char :=
  name.toList ++ ' ' :: '=' :: ' ' :: (written ++ '\n' :: rest)

variable {name : String} {rest : List Char}

theorem readLines?_headerText (h : IsBareName name.toList) (fuel : Nat) (rest : List Char) :
    readLines? (fuel + 1) (headerText name rest) =
      (readLines? fuel rest).map (.header [name] :: ·) := by
  have hline := readLine?_header h rest
  rw [String.ofList_toList] at hline
  exact readLines?_cons hline fuel (by simp)

theorem readLines?_entryText (h : IsBareName name.toList) {written : List Char} {value : Datum}
    (hvalue : readValue? maxDepth (written ++ '\n' :: rest) = some (value, '\n' :: rest))
    (hwritten : skipSpaces (written ++ '\n' :: rest) = written ++ '\n' :: rest) (fuel : Nat) :
    readLines? (fuel + 1) (entryText name written rest) =
      (readLines? fuel rest).map (.entry [name] value :: ·) := by
  have hline := readLine?_entry h hvalue hwritten
  rw [String.ofList_toList] at hline
  exact readLines?_cons hline fuel (by simp)

theorem readLines?_feed (fuel : Nat) (rest : List Char) :
    readLines? (fuel + 1) ('\n' :: rest) = (readLines? fuel rest).map (.blank :: ·) :=
  readLines?_cons rfl fuel (by simp)

theorem readLines?_nil (fuel : Nat) : readLines? fuel [] = some [] := by
  cases fuel <;> rfl

/-! ## The values of the settings -/

/-- A value that is written begins with no space. -/
theorem skipSpaces_cons {c : Char} (h : isSpace c = false) (cs : List Char) :
    skipSpaces (c :: cs) = c :: cs := by
  rw [skipSpaces, List.dropWhile_cons_of_neg (by simp [h])]

def flagText (b : Bool) : List Char := (if b then "true" else "false").toList

theorem readValue?_flagText (b : Bool) (depth : Nat) (rest : List Char) :
    readValue? depth (flagText b ++ '\n' :: rest) = some (.bool b, '\n' :: rest) := by
  cases b with
  | true => exact readValue?_of_ne (by decide) (by decide) depth _
  | false => exact readValue?_of_ne (by decide) (by decide) depth _

theorem skipSpaces_flagText (b : Bool) (rest : List Char) :
    skipSpaces (flagText b ++ rest) = flagText b ++ rest := by
  cases b with
  | true => exact skipSpaces_cons (by decide) _
  | false => exact skipSpaces_cons (by decide) _

theorem skipSpaces_quote (text : String) (rest : List Char) :
    skipSpaces ((quote text).toList ++ rest) = (quote text).toList ++ rest := by
  obtain ⟨c, tail, htail, hc⟩ := exists_first_mark text
  rw [htail]
  rcases hc with rfl | rfl
  · exact skipSpaces_cons (by decide) _
  · exact skipSpaces_cons (by decide) _

theorem skipSpaces_texts (texts : List String) (rest : List Char) :
    skipSpaces ((writeTexts texts).toList ++ rest) = (writeTexts texts).toList ++ rest := by
  have hbracket : ∃ tail, (writeTexts texts).toList = '[' :: tail := by
    unfold writeTexts
    split
    · exact ⟨_, rfl⟩
    · exact ⟨_, by simp only [String.toList_append, List.append_assoc]; rfl⟩
    · exact ⟨_, by simp only [String.toList_append, List.append_assoc]; rfl⟩
  obtain ⟨tail, htail⟩ := hbracket
  rw [htail]
  exact skipSpaces_cons (by decide) _

theorem skipSpaces_natural (n : Nat) (rest : List Char) :
    skipSpaces ((toString n).toList ++ rest) = (toString n).toList ++ rest := by
  obtain ⟨c, ds, hds, hdigit, -⟩ := Number.exists_first_digit n
  have hspace : isSpace c = false := by
    rw [isSpace, Bool.or_eq_false_iff, beq_eq_false_iff_ne, beq_eq_false_iff_ne]
    refine ⟨?_, ?_⟩ <;> (rintro rfl; exact absurd hdigit (by decide))
  rw [Number.toList_toString, hds]
  exact skipSpaces_cons hspace _

/-! ## What the lines say -/

namespace Config

/-- The lines that name the settings of a configuration. -/
def lines (c : Config) : List Line :=
  [.header ["resolver"],
    .entry ["enabled"] (.bool c.resolver.enabled),
    .entry ["entry_point"] (.text c.resolver.entryPoint),
    .entry ["source_roots"] (.list (c.resolver.sourceRoots.map .text)),
    .blank,
    .header ["formatter"],
    .entry ["max_value_len"] (.int c.formatter.maxLength)]

/-- The document of the lines holds the settings in their sections. -/
theorem ofLines?_lines (c : Config) :
    (Document.ofLines? c.lines).map (fun d => Datum.table (Table.data d.root)) = some c.data :=
  rfl

/-- The written form, line by line. -/
def text (c : Config) : List Char :=
  headerText "resolver" <|
  entryText "enabled" (flagText c.resolver.enabled) <|
  entryText "entry_point" (quote c.resolver.entryPoint).toList <|
  entryText "source_roots" (writeTexts c.resolver.sourceRoots).toList <|
  '\n' ::
  (headerText "formatter" <|
  entryText "max_value_len" (toString c.formatter.maxLength).toList [])

theorem toToml_of_le {c : Config} (h : c.formatter.maxLength ≤ largestWritten) :
    c.toToml = .ok (String.ofList c.text) := by
  rw [toToml, if_neg (Nat.not_lt.2 h)]
  congr 1
  rw [← String.toList_inj, String.toList_ofList]
  simp [text, headerText, entryText, flagText]

theorem readLines?_text {c : Config} (h : c.formatter.maxLength < 2 ^ 63) (fuel : Nat) :
    readLines? (fuel + 7) c.text = some c.lines := by
  have hquote (rest : List Char) : ∀ x ∈ ('\n' :: rest).head?, x ≠ '"' ∧ x ≠ '\'' := by
    simp
  rw [text, readLines?_headerText ⟨by decide, by decide⟩,
    readLines?_entryText ⟨by decide, by decide⟩ (readValue?_flagText _ _ _)
      (skipSpaces_flagText _ _),
    readLines?_entryText ⟨by decide, by decide⟩ (readValue?_quote _ _ (hquote _))
      (skipSpaces_quote _ _),
    readLines?_entryText ⟨by decide, by decide⟩ (readValue?_texts _ _ _) (skipSpaces_texts _ _),
    readLines?_feed, readLines?_headerText ⟨by decide, by decide⟩,
    readLines?_entryText ⟨by decide, by decide⟩ (readValue?_natural h _ _)
      (skipSpaces_natural _ _), readLines?_nil]
  rfl

theorem ofToml_text {c : Config} (h : c.formatter.maxLength < 2 ^ 63) :
    ofToml (String.ofList c.text) = .ok c := by
  have hlength : 7 ≤ c.text.length + 1 := by
    simp only [text, headerText, entryText, List.length_cons, List.length_append]
    omega
  obtain ⟨fuel, hfuel⟩ := Nat.exists_eq_add_of_le' hlength
  have hread : (Toml.read? (String.ofList c.text)).map Datum.table = some c.data := by
    rw [← ofLines?_lines, Toml.read?, String.toList_ofList]
    show Option.map _ ((readLines? (c.text.length + 1) c.text).bind _) = _
    rw [hfuel, readLines?_text h, Option.bind_some, Option.map_map]
    rfl
  obtain ⟨entries, hentries, hdata⟩ := Option.map_eq_some_iff.1 hread
  rw [ofToml, hentries, Option.bind_some, hdata, strict_faithful.config c.at?_data]

/-- Only a limit that is larger than a document's integers keeps a configuration from being
written. What is written is read to the configuration itself. -/
theorem toToml_roundTrip (c : Config) :
    (2 ^ 63 ≤ c.formatter.maxLength ∧ ∃ fault, c.toToml = .error fault) ∨
      (c.formatter.maxLength < 2 ^ 63 ∧ ∃ text, c.toToml = .ok text ∧ ofToml text = .ok c) := by
  rcases Nat.lt_or_ge c.formatter.maxLength (2 ^ 63) with hlt | hge
  · have hle : c.formatter.maxLength ≤ largestWritten := Nat.le_sub_one_of_lt hlt
    exact .inr ⟨hlt, _, toToml_of_le hle, ofToml_text hlt⟩
  · have hlarge : largestWritten < c.formatter.maxLength :=
      Nat.lt_of_lt_of_le (Nat.sub_lt (by decide) (by decide)) hge
    exact .inl ⟨hge, .unwritable, by rw [toToml, if_pos hlarge]⟩

end Config

end Attest
