/-
  Well-formed sources: trees whose spans are nested, whose tokens stand in the text where they say
  they do, and whose leaves are what their kinds say. Main statement (`Source.parse_wellFormed`):
  every text is read into such a source.
-/
import Attest.Syntax.Source
import Attest.Proofs.Syntax.Forms
import Attest.Proofs.Syntax.Reading
import Attest.Proofs.Syntax.Scan
import Attest.Proofs.Text.Offsets

namespace Attest.Syntax

open Text (byteLength)
open Syntax.Tree (tokensAll preorderAll)

/-! ## The grammar is lawful -/

@[simp] theorem lawfulLinks_iff {ν : Type} {links : List ((Kind → Bool) × Kind × Role × Form ν)} :
    LawfulLinks links ↔ ∀ l ∈ links, l.2.2.1 ≠ .field ∧ l.2.2.2.Lawful := by
  induction links with
  | nil => simp [LawfulLinks]
  | cons l links ih =>
    obtain ⟨b, k, r, f⟩ := l
    rw [LawfulLinks, ih, List.forall_mem_cons]

namespace Grammar

@[simp] theorem lawful_seqs (fs : List F) : (seqs fs).Lawful ↔ ∀ f ∈ fs, f.Lawful :=
  seqs_iff (by rw [Form.Lawful]; trivial) (fun _ _ => by rw [Form.Lawful]) fs

@[simp] theorem lawful_never : never.Lawful := by simp [never, Form.Lawful]

@[simp] theorem lawful_alts (fs : List F) : (alts fs).Lawful ↔ ∀ f ∈ fs, f.Lawful := by
  cases fs with
  | nil => simp [alts]
  | cons f fs => exact alts_iff (fun _ _ => by rw [Form.Lawful]) f fs

@[simp] theorem lawful_leaf (k : Kind) (accepts : Token → Bool) :
    (leaf k accepts).Lawful ↔ ∀ t, accepts t = true → k.Fits t := by
  simp [leaf, Form.Lawful]

@[simp] theorem lawful_opt (f : F) : (opt f).Lawful ↔ f.Lawful := by simp [opt, Form.Lawful]

@[simp] theorem lawful_ahead (f : F) : (ahead f).Lawful ↔ f.Lawful := by
  simp [ahead, Form.Lawful]

@[simp] theorem lawful_as (k : Kind) (f : F) : (as k f).Lawful ↔ f.Lawful := by
  simp [as, Form.Lawful]

@[simp] theorem lawful_rule (x : Rule) : (r x).Lawful := by simp [r, Form.Lawful]

@[simp] theorem lawful_op (s : String) : (op s).Lawful := by simp [op, Form.Lawful]

@[simp] theorem lawful_mark (c : String) : (mark c).Lawful := by
  simp [mark, Kind.Fits, Kind.token?]

@[simp] theorem lawful_keyword (w : String) : (keyword w).Lawful := by
  simp [keyword, Kind.Fits, Kind.token?]

@[simp] theorem lawful_lit (k : TokenKind) (kind : Kind) :
    (lit k kind).Lawful ↔ ∀ t : Token, t.kind = k → kind.Fits t := by
  simp [lit]

@[simp] theorem lawful_name : name.Lawful := by
  rw [name, lawful_leaf]
  simp +contextual [isName, Kind.Fits, Kind.token?]

@[simp] theorem lawful_fieldName : fieldName.Lawful := by
  rw [fieldName, lawful_leaf]
  simp +contextual [Kind.Fits, Kind.token?]

@[simp] theorem lawful_literal : literal.Lawful := by
  simp only [literal, lit, lawful_alts, List.forall_mem_cons, lawful_leaf]
  simp [Kind.Fits, Kind.token?, Token.isWord]
  rintro t (⟨hword, -⟩ | ⟨hword, -⟩)
  · exact hword
  · exact hword

@[simp] theorem lawful_list (item : F) : (list item).Lawful ↔ item.Lawful := by
  simp [list, Form.Lawful, comma]

@[simp] theorem lawful_attrs : attrs.Lawful := by simp [attrs, Form.Lawful]

@[simp] theorem lawful_label : label.Lawful := by simp [label, Kind.Fits, Kind.token?]

@[simp] theorem lawful_selfWord : selfWord.Lawful := by simp [selfWord, Kind.Fits, Kind.token?]

@[simp] theorem lawful_typeName : typeName.Lawful := by simp [typeName, Kind.Fits, Kind.token?]

@[simp] theorem lawful_pathGeneric : pathGeneric.Lawful := by simp [pathGeneric]

@[simp] theorem lawful_bracketed : bracketed.Lawful := by simp [bracketed]

@[simp] theorem lawful_path : path.Lawful := by
  simp [path, Form.Lawful, pathStart, pathLinks, link]

@[simp] theorem lawful_structName : structName.Lawful := by simp [structName, Form.Lawful]

@[simp] theorem lawful_result : result.Lawful := by simp [result]

@[simp] theorem lawful_bounds : bounds.Lawful := by simp [bounds, Form.Lawful]

@[simp] theorem lawful_boundsBehind : boundsBehind.Lawful := by simp [boundsBehind]

@[simp] theorem lawful_ops (os : List String) : (ops os).Lawful := by simp [ops]

@[simp] theorem lawful_operandAhead (p : Position) : (operandAhead p).Lawful := by
  unfold operandAhead
  split <;> simp [Form.Lawful]

@[simp] theorem lawful_rangeMark : rangeMark.Lawful := by simp [rangeMark]

@[simp] theorem lawful_patternLiteral : patternLiteral.Lawful := by simp [patternLiteral]

@[simp] theorem lawful_any : any.Lawful := by simp [any, Kind.Fits, Kind.token?]

@[simp] theorem lawful_word : word.Lawful := by simp [word, Kind.Fits, Kind.token?]

@[simp] theorem lawful_stray : stray.Lawful := by simp [stray, Kind.Fits, Kind.token?]

@[simp] theorem lawful_visibility : visibility.Lawful := by simp [visibility]

@[simp] theorem lawful_generics : generics.Lawful := by simp [generics, genericParameter]

@[simp] theorem lawful_whereClause : whereClause.Lawful := by simp [whereClause]

@[simp] theorem lawful_parameters : parameters.Lawful := by simp [parameters, parameter]

@[simp] theorem lawful_namedFields : namedFields.Lawful := by simp [namedFields, openBrace]

@[simp] theorem lawful_tupleFields : tupleFields.Lawful := by simp [tupleFields]

@[simp] theorem lawful_variants : variants.Lawful := by simp [variants, openBrace]

@[simp] theorem lawful_header : header.Lawful := by simp [header, Form.Lawful]

@[simp] theorem lawful_body : body.Lawful := by
  simp [body, Form.Lawful, openBrace, closeBrace, atEnd]

/-- After the point of a member stands the name or the number of a field. -/
theorem isField_fieldOf : fieldOf.IsField := by
  refine ⟨fun t h => ?_, fun t h => ?_⟩
  · exact Or.inl rfl
  · exact Or.inr rfl

@[simp] theorem lawful_fieldOf : fieldOf.Lawful := by
  simp [fieldOf, Kind.Fits, Kind.token?]

theorem lawful_postfixLinks (p : Position) :
    ∀ l ∈ postfixLinks p, l.2.2.1 ≠ .field ∧ l.2.2.2.Lawful := by
  simp [postfixLinks, link, linkAt, Form.Lawful, isField_fieldOf]

end Grammar

open Grammar in
/-- The forms of all rules are lawful. -/
theorem rust_lawful (name : Rule) : (rust name).Lawful := by
  cases name with
  | file => simp [rust, Form.Lawful, file]
  | statement => simp [rust, statement, letStatement, endOfStatement]
  | declaration =>
    simp [rust, Form.Lawful, declaration, modifiers, skipped, endOfStatement, Kind.Fits,
      Kind.token?]
  | items => simp [rust, items]
  | block => simp [rust, block, blockLabel]
  | tokenTree => simp [rust, Form.Lawful, tokenTree]
  | attr => simp [rust, Form.Lawful, attr]
  | expr p => simp [rust, Form.Lawful, expr, link]
  | range p => simp [rust, Form.Lawful, range, rangeLink, linkAt]
  | binary p level =>
    simp only [rust, binary]
    split
    · simp [Form.Lawful, linkAt]
    · rw [Form.Lawful, lawfulLinks_iff, List.forall_mem_cons]
      exact ⟨lawful_rule _, by simp [link], lawful_postfixLinks p⟩
  | unary p => simp [rust, unary, Form.Lawful, referenceMarks]
  | suffixed p =>
    rw [rust, Form.Lawful, lawfulLinks_iff]
    exact ⟨lawful_rule _, lawful_postfixLinks p⟩
  | primary p =>
    have hstruct : (if p.allowsBraces then r .structLiteral else never).Lawful := by
      split
      · exact lawful_rule _
      · exact lawful_never
    simp +contextual [rust, primary, jump, jumpValue, letCondition, hstruct, Kind.Fits, Kind.token?,
      Token.isWord]
  | closure p => simp [rust, Grammar.closure, closureParameters]
  | group => simp [rust, group, Form.Lawful]
  | array => simp [rust, array, Form.Lawful, comma]
  | structLiteral => simp [rust, structLiteral, structField, Kind.Fits, Kind.token?]
  | macroCall => simp [rust, macroCall]
  | path => simp [rust]
  | blockLike => simp [rust, blockLike, Form.Lawful, blockLabel]
  | conditional => simp [rust, conditional]
  | arm => simp [rust, arm, comma]
  | arguments => simp [rust, arguments]
  | typeArguments => simp [rust, typeArguments, typeArgument]
  | type =>
    simp [rust, type, functionType, Form.Lawful, primitive, typePath, typeSegment, typeSuffix,
      Kind.Fits, Kind.token?]
  | pattern => simp [rust, pattern, Form.Lawful]
  | patternItem =>
    simp [rust, patternItem, patternBound, patternField, Kind.Fits, Kind.token?]

/-! ## What is read from tokens -/

theorem strayLeaf_eq (t : Token) : strayLeaf t = .leaf .plain (strayLeaf t).kind t := by
  unfold strayLeaf
  split <;> rfl

theorem strayLeaf_lawful (t : Token) : (strayLeaf t).Lawful := by
  unfold strayLeaf
  split
  · exact Tree.lawful_commentLeaf t
  · exact Tree.lawful_leaf fun tk htk => by simp [Kind.token?] at htk

theorem forall_mem_strayLeaves {P : Tree → Prop} (h : ∀ t, P (strayLeaf t)) (ts : List Token) :
    ∀ u ∈ preorderAll (ts.map strayLeaf), P u := by
  intro u hu
  obtain ⟨t, -, rfl⟩ := mem_preorderAll_map_leaf strayLeaf_eq hu
  rw [← strayLeaf_eq]
  exact h t

/-- Every token list is read to its end, and all trees that are read are tight and lawful. -/
theorem parseTokens_spec (ts : List Token) :
    tokensAll (parseTokens ts) = ts ∧
      ∀ u ∈ preorderAll (parseTokens ts), u.Tight ∧ u.Lawful := by
  have htokens (t : Token) : (strayLeaf t).tokens = [t] := by
    rw [strayLeaf_eq, Tree.tokens_leaf]
  have hstray (t : Token) : (strayLeaf t).Tight ∧ (strayLeaf t).Lawful := by
    refine ⟨?_, strayLeaf_lawful t⟩
    rw [strayLeaf_eq]
    exact Tree.tight_leaf _ _ t
  unfold parseTokens
  split
  · next xs rest hread =>
    have h := reads_of_read hread
    constructor
    · rw [Tree.tokensAll_append, tokensAll_map_leaf strayLeaf htokens, h.tokens_eq]
    · refine Tree.forall_mem_append (fun u hu => ?_) (forall_mem_strayLeaves hstray rest)
      exact ⟨h.tight u hu, h.lawful rust_lawful (by rw [Form.Lawful]; trivial) u hu⟩
  · exact ⟨tokensAll_map_leaf strayLeaf htokens ts, forall_mem_strayLeaves hstray ts⟩

/-! ## Well-formed sources -/

/-- The tree of a source belongs to its text: trees lie within each other, their spans cut the
text between characters, tokens stand where they say, and leaves are what their kinds say. -/
structure Source.WellFormed (s : Source) : Prop where
  nested : s.root.WellNested
  cuts : ∀ t ∈ s.root.preorder, t.span.Cuts s.text.toList
  placed : ∀ t ∈ s.root.preorder, ∀ tok, t.token? = some tok → tok.Placed s.text.toList
  lawful : ∀ t ∈ s.root.preorder, t.Lawful

theorem Source.WellFormed.placed_of_mem_tokens {s : Source} (hs : s.WellFormed) {t : Tree}
    (ht : t ∈ s.root.preorder) {tok : Token} (h : tok ∈ t.tokens) : tok.Placed s.text.toList := by
  obtain ⟨u, hu, htok⟩ := Tree.exists_leaf_of_mem_tokens h
  exact hs.placed u (Tree.mem_preorder_trans hu ht) tok htok

/-- A tree whose tokens are in order lies around its children, if all of them are tight. -/
theorem Tree.Tight.contains {t c : Tree} (ht : t.Tight) (hc : c.Tight) (hord : Ordered t.tokens)
    (hsub : ∀ tok ∈ c.tokens, tok ∈ t.tokens) : t.span.contains c.span = true := by
  obtain ⟨first, last, hfirst, hlast, hspan⟩ := ht
  obtain ⟨first', last', hfirst', hlast', hspan'⟩ := hc
  have hstart := hord.bounds hfirst hlast (hsub first' (List.mem_of_mem_head? hfirst'))
  have hstop := hord.bounds hfirst hlast (hsub last' (List.mem_of_getLast? hlast'))
  rw [Text.Span.contains_iff, hspan, hspan']
  exact ⟨hstart.1, hstop.2⟩

/-- A tight tree is a part of the text if its tokens are. -/
theorem Tree.Tight.cuts {t : Tree} (ht : t.Tight) {cs : List Char}
    (hplaced : ∀ tok ∈ t.tokens, tok.Placed cs) (hord : Ordered t.tokens) : t.span.Cuts cs := by
  obtain ⟨first, last, hfirst, hlast, hspan⟩ := ht
  have hmem := List.mem_of_getLast? hlast
  obtain ⟨a, b, hcs, hstart, -⟩ := (hplaced first (List.mem_of_mem_head? hfirst)).place
  obtain ⟨a', b', hcs', hstart', -⟩ := (hplaced last hmem).place
  have hle : byteLength a ≤ byteLength (a' ++ last.text.toList) := by
    have hbounds := (hord.bounds hfirst hlast hmem).1
    rw [Text.byteLength_append]
    omega
  have hback : a' ++ last.text.toList <+: cs := ⟨b', by rw [hcs', List.append_assoc]⟩
  -- The text in front of the first token is a beginning of the text up to the end of the last.
  obtain ⟨inner, hinner⟩ := Text.isPrefix_of_byteLength_le ⟨_, hcs.symm⟩ hback hle
  refine ⟨a, inner, b', ?_, ?_, ?_⟩
  · rw [← List.append_assoc, hinner, hcs', List.append_assoc]
  · rw [hspan, hstart]
  · rw [hspan, last.stop_eq, hstart', ← Text.byteLength_append, ← hinner, Text.byteLength_append]

/-- Every text is read into a well-formed source. -/
theorem Source.parse_wellFormed (text : String) : (Source.parse text).WellFormed := by
  obtain ⟨htokens, hread⟩ := parseTokens_spec (scan text)
  have hroot : (Source.parse text).root.tokens = scan text := by
    rw [Source.parse, Tree.tokens_node, htokens]
  have hinner {u} (hu : u ∈ (Source.parse text).root.preorder) :
      u = (Source.parse text).root ∨ u ∈ preorderAll (parseTokens (scan text)) := by
    rwa [Tree.preorder_eq, List.mem_cons] at hu
  have hplaced {u} (hu : u ∈ (Source.parse text).root.preorder) (tok) (ht : tok ∈ u.tokens) :
      tok.Placed text.toList :=
    scan_placed (hroot ▸ (Tree.tokens_sublist hu).subset ht)
  have hord {u} (hu : u ∈ (Source.parse text).root.preorder) : Ordered u.tokens :=
    List.Pairwise.sublist (hroot ▸ Tree.tokens_sublist hu) (scan_ordered text)
  have hcuts (u) (hu : u ∈ (Source.parse text).root.preorder) : u.span.Cuts text.toList := by
    rcases hinner hu with rfl | hin
    · refine ⟨[], text.toList, [], by simp, rfl, ?_⟩
      rw [Text.byteLength_nil, Nat.zero_add, Text.byteLength_eq_utf8ByteSize]
      rfl
    · exact (hread u hin).1.cuts (hplaced hu) (hord hu)
  refine ⟨fun u hu c hc => ?_, hcuts, fun u hu tok htok => ?_, fun u hu => ?_⟩
  · have hcmem := Tree.mem_preorder_of_mem_children hc hu
    rcases hinner hu with rfl | hin
    · have hstop := (hcuts c hcmem).bounds.2
      rw [Text.byteLength_eq_utf8ByteSize] at hstop
      exact Text.Span.contains_iff.mpr ⟨Nat.zero_le _, hstop⟩
    · obtain ⟨t, ht, hut⟩ := Tree.mem_preorderAll.mp hin
      have hcin : c ∈ preorderAll (parseTokens (scan text)) :=
        Tree.mem_preorderAll.mpr ⟨t, ht, Tree.mem_preorder_of_mem_children hc hut⟩
      have hcu := Tree.mem_preorder_of_mem_children hc (Tree.mem_preorder_self u)
      exact (hread u hin).1.contains (hread c hcin).1 (hord hu) (Tree.tokens_sublist hcu).subset
  · refine hplaced hu tok ?_
    rw [Tree.eq_leaf_of_token? htok, Tree.tokens_leaf]
    exact List.mem_singleton.mpr rfl
  · rcases hinner hu with rfl | hin
    · exact Tree.lawful_node _ _ _
    · exact (hread u hin).2

end Attest.Syntax
