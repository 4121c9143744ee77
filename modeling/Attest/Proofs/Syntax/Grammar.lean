/-
  Facts about the grammar of Rust. Whether a token is read depends on its kind, and for words and
  marks on the text; the kind of a node does not depend on comments inside it; and nodes end as
  their kinds ask for. Main statements: the forms of all rules keep to this (`rust_every`), and so
  all nodes of a source end as they must (`Source.parse_ended`).
-/
import Attest.Proofs.Syntax.Alike
import Attest.Proofs.Syntax.Endings
import Attest.Proofs.Syntax.Source

namespace Attest.Syntax

/-! ## The grammar of Rust -/

/-- The rules that end with a named tree are those of operands. -/
def endingRules : Ending → Rule → Prop
  | .operand, .unary _ | .operand, .suffixed _ | .operand, .primary _ | .operand, .closure _
  | .operand, .group | .operand, .array | .operand, .structLiteral | .operand, .macroCall
  | .operand, .path | .operand, .blockLike | .operand, .conditional | .operand, .block
  | .arguments, .arguments => True
  | _, _ => False

namespace Grammar

variable {e : Ending} {rules : Rule → Prop}

@[simp] theorem solid_seqs (fs : List F) : (seqs fs).Solid ↔ ∃ f ∈ fs, f.Solid := by
  induction fs with
  | nil => exact ⟨False.elim, fun ⟨_, h, _⟩ => absurd h List.not_mem_nil⟩
  | cons f fs ih =>
    have hcons : (seqs (f :: fs)).Solid ↔ f.Solid ∨ (seqs fs).Solid := Iff.rfl
    simp only [hcons, ih, List.mem_cons, exists_eq_or_imp]

@[simp] theorem solid_alts (f : F) (fs : List F) :
    (alts (f :: fs)).Solid ↔ ∀ g ∈ f :: fs, g.Solid :=
  alts_iff (fun _ _ => Iff.rfl) f fs

@[simp] theorem endsAs_seqs_single (f : F) : (seqs [f]).EndsAs e rules ↔ f.EndsAs e rules :=
  Iff.rfl

@[simp] theorem endsAs_seqs_cons (f g : F) (fs : List F) :
    (seqs (f :: g :: fs)).EndsAs e rules ↔ (seqs (g :: fs)).EndsAs e rules := Iff.rfl

@[simp] theorem endsAs_alts (f : F) (fs : List F) :
    (alts (f :: fs)).EndsAs e rules ↔ ∀ g ∈ f :: fs, g.EndsAs e rules :=
  alts_iff (fun _ _ => Iff.rfl) f fs

@[simp] theorem solid_leaf (k : Kind) (accepts : Token → Bool) :
    (leaf k accepts).Solid ↔ ∀ t, accepts t = true → k.isComment = false := Iff.rfl

@[simp] theorem solid_mark (c : String) : (mark c).Solid := by simp [mark, Kind.isComment]

@[simp] theorem solid_keyword (w : String) : (keyword w).Solid := by
  simp [keyword, Kind.isComment]

@[simp] theorem solid_as (k : Kind) (f : F) : (as k f).Solid ↔ k.isComment = false ∧ f.Solid :=
  and_congr_left' (forall_const _)

@[simp] theorem endsAs_leaf (k : Kind) (accepts : Token → Bool) :
    (leaf k accepts).EndsAs e rules ↔ ∀ t, accepts t = true → e.Allows k (some t) := Iff.rfl

@[simp] theorem endsAs_as (k : Kind) (f : F) :
    (as k f).EndsAs e rules ↔ e.Allows k none ∧ f.Solid :=
  and_congr_left' (forall_const _)

@[simp] theorem endsAs_rule (x : Rule) : (r x).EndsAs e rules ↔ rules x := Iff.rfl

@[simp] theorem solid_name : name.Solid := by simp [name, Kind.isComment]

@[simp] theorem solid_path : path.Solid := by
  simp [path, Form.Solid, pathStart, pathLinks, link, selfWord, pathGeneric, typeName, bracketed,
    Kind.isComment]

theorem endsAs_links (p : Position) :
    ∀ l ∈ postfixLinks p, Ending.operand.Allows l.2.1 none := by
  simp [postfixLinks, link, linkAt, Kind.isNamed, Kind.isComment]

end Grammar

open Grammar

/-- The rules end as they are said to. -/
theorem rust_endsAs {e : Ending} {name : Rule} (h : endingRules e name) :
    (rust name).EndsAs e (endingRules e) := by
  cases e with
  | operand =>
    cases name with
    | unary p =>
      simp [rust, unary, referenceMarks, endingRules, Kind.isNamed, Kind.isComment]
    | suffixed p => exact ⟨trivial, endsAs_links p⟩
    | primary p =>
      have hstruct : (if p.allowsBraces then r .structLiteral else never).EndsAs .operand
          (endingRules .operand) := by
        split <;> simp [never, Form.EndsAs, endingRules]
      simp [rust, primary, literal, lit, jump, letCondition, hstruct, endingRules, Kind.isNamed,
        Kind.isComment]
    | closure p =>
      simp [rust, Grammar.closure, closureParameters, Kind.isNamed, Kind.isComment]
    | group =>
      refine ⟨fun xs => ?_, by simp⟩
      rw [allows_operand_iff, groupKind]
      split
      · decide
      · split <;> decide
    | array => simp [rust, array, Kind.isNamed, Kind.isComment]
    | structLiteral => simp [rust, structLiteral, Kind.isNamed, Kind.isComment]
    | macroCall => simp [rust, macroCall, Kind.isNamed, Kind.isComment]
    | path =>
      simp [rust, path, Form.EndsAs, pathStart, pathLinks, link, selfWord, pathGeneric, typeName,
        bracketed, name, Kind.isNamed, Kind.isComment]
    | blockLike => simp [rust, blockLike, endingRules, Kind.isNamed, Kind.isComment]
    | conditional => simp [rust, conditional, Kind.isNamed, Kind.isComment]
    | block => simp [rust, block, body, openBrace, Kind.isNamed, Kind.isComment]
    | _ => exact h.elim
  | arguments =>
    cases name with
    | arguments => simp [rust, arguments, Ending.Allows]
    | _ => exact h.elim
  | closing => exact h.elim

/-! ## Tokens -/

/-- Only the kind of a long token counts, and of any other one the kind and the text. -/
def BlindToken (accepts : Token → Bool) (kind : Token → Kind) : Prop :=
  ∀ t u : Token, u.kind = t.kind → t.Like u → accepts u = accepts t ∧ kind u = kind t

/-- Comments inside a node do not count for its kind, nor do the texts of long tokens. -/
def BlindKind (kind : List Tree → Kind) : Prop :=
  ∀ (R : Token → Token → Prop) (E : Token → Prop), (∀ t u, R t u → t.Like u) →
    ∀ xs ys, AllAlike R E xs ys → kind ys = kind xs

/-- What the grammar of Rust keeps to. -/
def rustCondition : Condition Rule where
  token := BlindToken
  node kind form := BlindKind kind ∧
    ∀ xs e, (kind xs).ending? = some e → form.EndsAs e (endingRules e)
  link kind _ form := ∀ e, kind.ending? = some e → form.EndsAs e (endingRules e)

namespace BlindToken

variable {k : Kind} {a b : Token → Bool}

theorem ofKind (tk : TokenKind) : BlindToken (fun t => t.kind == tk) fun _ => k :=
  fun _ _ hkind _ => ⟨congrArg (· == tk) hkind, rfl⟩

theorem const (b : Bool) : BlindToken (fun _ => b) fun _ => k := fun _ _ _ _ => ⟨rfl, rfl⟩

/-- A test of the texts of short tokens. -/
theorem ofText {tk : TokenKind} (hshort : tk.isLong = false) (p : String → Bool) :
    BlindToken (fun t => t.kind == tk && p t.text) fun _ => k := by
  refine fun t u hkind hlike => ⟨?_, rfl⟩
  dsimp only
  rw [hkind]
  by_cases htk : t.kind = tk
  · rw [hlike.text_eq (by rwa [htk])]
  · rw [beq_false_of_ne htk, Bool.false_and, Bool.false_and]

theorem or (ha : BlindToken a fun _ => k) (hb : BlindToken b fun _ => k) :
    BlindToken (fun t => a t || b t) fun _ => k :=
  fun t u hkind hlike => ⟨congrArg₂ _ (ha t u hkind hlike).1 (hb t u hkind hlike).1, rfl⟩

end BlindToken

namespace Grammar

@[simp] theorem checked_node (k : Kind) (f : F) : rustCondition.node (fun _ => k) f ↔
    ∀ e, k.ending? = some e → f.EndsAs e (endingRules e) :=
  ⟨fun h e he => h.2 [] e he, fun h => ⟨fun _ _ _ _ _ _ => rfl, fun _ e he => h e he⟩⟩

@[simp] theorem checked_link (k : Kind) (role : Role) (f : F) : rustCondition.link k role f ↔
    ∀ e, k.ending? = some e → f.EndsAs e (endingRules e) := Iff.rfl

theorem every_leaf_of_blind {k : Kind} {accepts : Token → Bool}
    (h : BlindToken accepts fun _ => k) : (leaf k accepts).Every rustCondition := by
  rw [every_leaf]
  exact h

@[simp] theorem every_word_leaf (k : Kind) (p : String → Bool) :
    (leaf k fun t => t.kind == .word && p t.text).Every rustCondition :=
  every_leaf_of_blind (.ofText rfl p)

@[simp] theorem every_mark (c : String) : (mark c).Every rustCondition :=
  every_leaf_of_blind (.ofText rfl (· == c))

@[simp] theorem every_isWord (k : Kind) (w : String) :
    (leaf k (·.isWord w)).Every rustCondition :=
  every_leaf_of_blind (.ofText rfl (· == w))

@[simp] theorem every_keyword (w : String) : (keyword w).Every rustCondition := every_isWord _ w

@[simp] theorem every_kind (k : Kind) (tk : TokenKind) :
    (leaf k (·.kind == tk)).Every rustCondition :=
  every_leaf_of_blind (.ofKind tk)

@[simp] theorem every_lit (tk : TokenKind) (k : Kind) : (lit tk k).Every rustCondition :=
  every_kind k tk

@[simp] theorem every_const (k : Kind) (b : Bool) : (leaf k fun _ => b).Every rustCondition :=
  every_leaf_of_blind (.const b)

@[simp] theorem every_any : any.Every rustCondition := every_const _ true

@[simp] theorem every_never : never.Every rustCondition := by
  rw [never, Form.Every]
  exact .const false

@[simp] theorem every_isName (k : Kind) : (leaf k isName).Every rustCondition :=
  every_leaf_of_blind (.ofText rfl fun w => !reserved.contains w)

@[simp] theorem every_name : name.Every rustCondition := every_isName _

@[simp] theorem every_typeName : typeName.Every rustCondition := every_isName _

@[simp] theorem every_fieldName : fieldName.Every rustCondition :=
  every_leaf_of_blind (.ofText rfl (· != "await"))

@[simp] theorem every_literal : literal.Every rustCondition := by
  simp only [literal, every_alts, List.forall_mem_cons, every_lit, true_and]
  refine ⟨every_leaf_of_blind ?_, by simp⟩
  exact .or (.ofText rfl (· == "true")) (.ofText rfl (· == "false"))

@[simp] theorem every_selfWord : selfWord.Every rustCondition :=
  every_leaf_of_blind (.or (.or (.ofText rfl (· == "self")) (.ofText rfl (· == "super")))
    (.ofText rfl (· == "crate")))

@[simp] theorem every_primitive : primitive.Every rustCondition :=
  every_leaf_of_blind (.ofText rfl fun w => primitives.contains w)

@[simp] theorem every_word : word.Every rustCondition := every_kind _ _

@[simp] theorem every_stray : stray.Every rustCondition := every_const _ true

@[simp] theorem every_list (item : F) :
    (list item).Every rustCondition ↔ item.Every rustCondition := by
  simp [list, Form.Every, comma]

@[simp] theorem every_attrs : attrs.Every rustCondition := by simp [attrs, Form.Every]

@[simp] theorem every_label : label.Every rustCondition := by simp [label, Kind.ending?]

@[simp] theorem every_pathGeneric : pathGeneric.Every rustCondition := by
  simp [pathGeneric, Kind.ending?]

@[simp] theorem every_bracketed : bracketed.Every rustCondition := by
  simp [bracketed, Kind.ending?]

@[simp] theorem every_path : path.Every rustCondition := by
  simp [path, Form.Every, pathStart, pathLinks, link, Kind.ending?]

@[simp] theorem every_structName : structName.Every rustCondition := by
  simp [structName, Form.Every, Kind.ending?]

@[simp] theorem every_result : result.Every rustCondition := by simp [result]

@[simp] theorem every_bounds : bounds.Every rustCondition := by simp [bounds, Form.Every]

@[simp] theorem every_boundsBehind : boundsBehind.Every rustCondition := by simp [boundsBehind]

@[simp] theorem every_operandAhead (p : Position) : (operandAhead p).Every rustCondition := by
  unfold operandAhead
  split <;> simp [Form.Every]

@[simp] theorem every_rangeMark : rangeMark.Every rustCondition := by simp [rangeMark]

@[simp] theorem every_patternLiteral : patternLiteral.Every rustCondition := by
  have hliteral : literal.EndsAs .operand (endingRules .operand) := by
    simp [literal, lit, Kind.isNamed, Kind.isComment]
  simp [patternLiteral, hliteral, Kind.ending?]

@[simp] theorem every_visibility : visibility.Every rustCondition := by simp [visibility]

@[simp] theorem every_generics : generics.Every rustCondition := by
  simp [generics, genericParameter, Kind.ending?]

@[simp] theorem every_whereClause : whereClause.Every rustCondition := by simp [whereClause]

@[simp] theorem every_parameters : parameters.Every rustCondition := by
  simp [parameters, parameter, Kind.ending?]

@[simp] theorem every_namedFields : namedFields.Every rustCondition := by
  simp [namedFields, openBrace, Kind.ending?]

@[simp] theorem every_tupleFields : tupleFields.Every rustCondition := by
  simp [tupleFields, Kind.ending?]

@[simp] theorem every_variants : variants.Every rustCondition := by
  simp [variants, openBrace, Kind.ending?]

@[simp] theorem every_header : header.Every rustCondition := by simp [header, Form.Every]

@[simp] theorem every_body : body.Every rustCondition := by
  simp [body, Form.Every, openBrace, closeBrace, atEnd]

/-- Whether there is a comma in parentheses, or anything at all. -/
theorem blindKind_groupKind : BlindKind groupKind := by
  intro R E hR xs ys h
  have hcomma : ys.any (fun t => t.kind == .mark && t.text == ",") =
      xs.any (fun t => t.kind == .mark && t.text == ",") := by
    refine (h.any (fun t u htu => ?_) fun u hu => ?_).symm
    · rw [htu.kind_eq, Bool.eq_iff_iff, Bool.and_eq_true, Bool.and_eq_true, beq_iff_eq,
        beq_iff_eq, beq_iff_eq]
      refine and_congr_right fun _ => ?_
      cases htu with
      | leaf htok => exact ((hR _ _ htok).text_eq_iff (by decide)).symm
      | node => exact Iff.rfl
    · have hkind := hu.isComment
      rw [Bool.and_eq_false_iff, beq_eq_false_iff_ne]
      refine Or.inl fun hmark => ?_
      rw [Tree.isComment, hmark] at hkind
      contradiction
  have hempty : (ys.filter fun t => t.isNamed && !t.isComment).isEmpty =
      (xs.filter fun t => t.isNamed && !t.isComment).isEmpty := by
    have hlength := (h.filter (p := fun t => t.isNamed && !t.isComment)
      (q := fun t => t.isNamed && !t.isComment) (fun t u htu => by
        rw [htu.isNamed_eq, htu.isComment_eq]) fun u hu => by simp [hu.isComment]).length_eq
    rw [Bool.eq_iff_iff, List.isEmpty_iff_length_eq_zero, List.isEmpty_iff_length_eq_zero, hlength]
  rw [groupKind, groupKind, hcomma, hempty]

theorem every_postfixLinks (p : Position) : EveryLink rustCondition (postfixLinks p) := by
  simp [postfixLinks, link, linkAt, Form.Every, fieldOf, Form.EndsAs, Kind.ending?, endingRules]

end Grammar

open Grammar in
/-- The forms of all rules keep to the condition. -/
theorem rust_every (name : Rule) : (rust name).Every rustCondition := by
  cases name with
  | file => simp [rust, Form.Every, file]
  | statement => simp [rust, statement, letStatement, endOfStatement, Kind.ending?]
  | declaration =>
    simp [rust, Form.Every, declaration, modifiers, skipped, endOfStatement, Kind.ending?]
  | items => simp [rust, items, Kind.ending?]
  | block => simp [rust, block, blockLabel, Kind.ending?]
  | tokenTree => simp [rust, Form.Every, tokenTree, Kind.ending?]
  | attr => simp [rust, Form.Every, attr, Kind.ending?]
  | expr p => simp [rust, Form.Every, expr, link, Kind.ending?, assignments]
  | range p => simp [rust, Form.Every, range, rangeLink, linkAt, Kind.ending?]
  | binary p level =>
    simp only [rust, binary]
    split
    · simp [Form.Every, linkAt, Kind.ending?]
    · rw [Form.Every, EveryLink]
      exact ⟨every_rule _, by simp [link, Kind.ending?], every_postfixLinks p⟩
  | unary p => simp [rust, unary, Form.Every, referenceMarks, Kind.ending?, endingRules]
  | suffixed p =>
    rw [rust, Form.Every]
    exact ⟨every_rule _, every_postfixLinks p⟩
  | primary p =>
    have hstruct : (if p.allowsBraces then r .structLiteral else never).Every rustCondition := by
      split
      · exact every_rule _
      · exact every_never
    simp [rust, primary, jump, jumpValue, letCondition, hstruct, Kind.ending?]
  | closure p => simp [rust, Grammar.closure, closureParameters, Kind.ending?]
  | group =>
    have hkind : rustCondition.node groupKind
        (seqs [mark "(", attrs, list (r (.expr .inside)), mark ")"]) := by
      refine ⟨blindKind_groupKind, fun xs e he => ?_⟩
      rw [groupKind] at he
      split at he
      · contradiction
      · split at he <;> contradiction
    rw [rust, group, Form.Every]
    exact ⟨hkind, by simp⟩
  | array => simp [rust, array, Form.Every, comma, Kind.ending?]
  | structLiteral => simp [rust, structLiteral, structField, Kind.ending?]
  | macroCall => simp [rust, macroCall, Kind.ending?]
  | path => simp [rust]
  | blockLike => simp [rust, blockLike, Form.Every, blockLabel, Kind.ending?]
  | conditional => simp [rust, conditional, Kind.ending?]
  | arm => simp [rust, arm, comma, Kind.ending?]
  | arguments =>
    have hclosing : (mark ")").EndsAs .closing (endingRules .closing) := by
      simp [mark, Ending.Allows]
    simp [rust, arguments, Kind.ending?, hclosing]
  | typeArguments => simp [rust, typeArguments, typeArgument, Kind.ending?]
  | type =>
    simp [rust, type, functionType, Form.Every, typePath, typeSegment, typeSuffix, Kind.ending?]
  | pattern => simp [rust, pattern, Form.Every, Kind.ending?]
  | patternItem => simp [rust, patternItem, patternBound, patternField, Kind.ending?]

/-! ## Sources -/

theorem rust_endings (name : Rule) : (rust name).Every (endings endingRules) :=
  Form.Every.imp (C := rustCondition) (D := endings endingRules) (fun _ _ _ => trivial)
    (fun _ _ h => h.2) (fun _ _ _ h => h) (rust_every name)

theorem strayLeaf_ended (t : Token) : (strayLeaf t).Ended := by
  rw [strayLeaf_eq]
  trivial

/-- In a source all nodes end as their kinds ask for. -/
theorem Source.parse_ended (text : String) : ∀ u ∈ (Source.parse text).root.preorder, u.Ended := by
  intro u hu
  rw [Source.parse, Tree.preorder, List.mem_cons] at hu
  rcases hu with rfl | hu
  · intro e he
    contradiction
  · revert u
    unfold parseTokens
    split
    · next xs rest hread =>
      refine Tree.forall_mem_append ?_ (forall_mem_strayLeaves strayLeaf_ended rest)
      refine (reads_of_read hread).ended (fun e name h => rust_endsAs h) rust_endings ?_
      rw [Form.Every]
      trivial
    · exact forall_mem_strayLeaves strayLeaf_ended _

end Attest.Syntax
