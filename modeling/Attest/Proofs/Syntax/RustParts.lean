/-
  The parts that children play in Rust source. The rules of the grammar name the parts of a node
  once (`rust_namesOnce`, `rust_parting`), so no two children of a node in a source play the same
  one, and nodes begin as their kinds ask for (`Source.parse_parted`). Main statement
  (`Source.parse_exact`): every source that is read is exact, which is what facts about the order of
  calls rest on.
-/
import Attest.Proofs.Syntax.Distinct
import Attest.Proofs.Syntax.Grammar
import Attest.Proofs.Syntax.Parts

namespace Attest.Syntax

open Syntax.Tree (preorderAll)

/-! ## The grammar of Rust -/

/-- The rules that read one tree are those of operands and of arguments. -/
def loneRules (name : Rule) : Prop := endingRules .operand name ∨ endingRules .arguments name

namespace Grammar

variable {lone : Rule → Prop}

@[simp] theorem lone_alts (f : F) (fs : List F) :
    (alts (f :: fs)).Lone lone ↔ ∀ g ∈ f :: fs, g.Lone lone :=
  alts_iff (fun _ _ => Iff.rfl) f fs

@[simp] theorem lone_leaf (k : Kind) (accepts : Token → Bool) :
    (leaf k accepts).Lone lone ↔ ∀ t, accepts t = true → k.isComment = false := Iff.rfl

@[simp] theorem lone_as (k : Kind) (f : F) :
    (as k f).Lone lone ↔ k.isComment = false ∧ f.Solid :=
  and_congr_left' (forall_const _)

@[simp] theorem lone_rule (x : Rule) : (r x).Lone lone ↔ lone x := Iff.rfl

theorem lone_postfixLinks (p : Position) : ∀ l ∈ postfixLinks p, l.2.1.isComment = false := by
  simp [postfixLinks, link, linkAt, Kind.isComment]

end Grammar

open Grammar

/-- Those rules do read one tree. -/
theorem rust_lone (name : Rule) (h : loneRules name) : (rust name).Lone loneRules := by
  cases name with
  | unary p => simp [rust, unary, referenceMarks, loneRules, endingRules, Kind.isComment]
  | suffixed p => exact ⟨Or.inl trivial, lone_postfixLinks p⟩
  | primary p =>
    have hstruct : (if p.allowsBraces then r .structLiteral else never).Lone loneRules := by
      split <;> simp [never, Form.Lone, loneRules, endingRules]
    simp [rust, primary, literal, lit, jump, letCondition, hstruct, loneRules, endingRules,
      Kind.isComment]
  | closure p => simp [rust, Grammar.closure, closureParameters, Kind.isComment]
  | group =>
    refine ⟨fun xs => ?_, by simp⟩
    rw [groupKind]
    split
    · rfl
    · split <;> rfl
  | array => simp [rust, array, Kind.isComment]
  | structLiteral => simp [rust, structLiteral, Kind.isComment]
  | macroCall => simp [rust, macroCall, Kind.isComment]
  | path =>
    simp [rust, path, Form.Lone, pathStart, pathLinks, link, selfWord, pathGeneric, typeName,
      bracketed, Grammar.name, Kind.isComment]
  | blockLike => simp [rust, blockLike, loneRules, endingRules, Kind.isComment]
  | conditional => simp [rust, conditional, Kind.isComment]
  | block => simp [rust, block, body, openBrace, Kind.isComment]
  | arguments => simp [rust, arguments, Kind.isComment]
  | _ => exact h.elim False.elim False.elim

namespace Grammar

variable {lone : Rule → Prop}

@[simp] theorem parts_seqs (fs : List F) : (seqs fs).parts = fs.flatMap Form.parts := by
  induction fs with
  | nil => rfl
  | cons f fs ih => rw [seqs_cons, Form.parts, ih, List.flatMap_cons]

@[simp] theorem parts_alts (fs : List F) : (alts fs).parts = fs.flatMap Form.parts := by
  induction fs with
  | nil => rfl
  | cons f fs ih =>
    cases fs with
    | nil => rw [alts, List.flatMap_singleton]
    | cons g gs => rw [alts_cons, Form.parts, ih, List.flatMap_cons (x := f)]

@[simp] theorem parts_leaf (k : Kind) (accepts : Token → Bool) : (leaf k accepts).parts = [] := rfl

@[simp] theorem parts_as (k : Kind) (f : F) : (as k f).parts = [] := rfl

@[simp] theorem parts_rule (x : Rule) : (r x).parts = [] := rfl

@[simp] theorem parts_op (s : String) : (op s).parts = [] := rfl

@[simp] theorem parts_ahead (f : F) : (ahead f).parts = [] := rfl

@[simp] theorem parts_opt (f : F) : (opt f).parts = f.parts := List.append_nil _

@[simp] theorem namesOnce_seqs (fs : List F) :
    (seqs fs).NamesOnce lone ↔ ∀ f ∈ fs, f.NamesOnce lone :=
  seqs_iff trivial (fun _ _ => Iff.rfl) fs

@[simp] theorem namesOnce_alts (f : F) (fs : List F) :
    (alts (f :: fs)).NamesOnce lone ↔ ∀ g ∈ f :: fs, g.NamesOnce lone :=
  alts_iff (fun _ _ => Iff.rfl) f fs

@[simp] theorem namesOnce_leaf (k : Kind) (accepts : Token → Bool) :
    (leaf k accepts).NamesOnce lone := trivial

@[simp] theorem namesOnce_as (k : Kind) (f : F) : (as k f).NamesOnce lone := trivial

@[simp] theorem namesOnce_rule (x : Rule) : (r x).NamesOnce lone := trivial

@[simp] theorem namesOnce_op (s : String) : (op s).NamesOnce lone := trivial

@[simp] theorem namesOnce_ahead (f : F) : (ahead f).NamesOnce lone := trivial

@[simp] theorem namesOnce_opt (f : F) : (opt f).NamesOnce lone ↔ f.NamesOnce lone :=
  and_iff_left trivial

@[simp] theorem namesOnce_many (f : F) :
    (Form.many f).NamesOnce lone ↔ f.parts = [] ∧ f.NamesOnce lone := Iff.rfl

@[simp] theorem parts_many (f : F) : (Form.many f).parts = [] := rfl

@[simp] theorem parts_unless (f : F) : (Form.unless f).parts = [] := rfl

@[simp] theorem namesOnce_unless (f : F) : (Form.unless f).NamesOnce lone := trivial

end Grammar

/-- No rule names a part in the node around it. -/
theorem rust_parts (name : Rule) : (rust name).parts = [] := by
  cases name with
  | binary p level =>
    rw [rust, binary]
    split <;> rfl
  | primary p =>
    rw [rust, primary, parts_alts]
    cases p <;> rfl
  | _ => rfl

namespace Grammar

@[simp] theorem parts_path : path.parts = [] := rfl

@[simp] theorem namesOnce_path : path.NamesOnce loneRules := by
  refine ⟨?_, Or.inl ?_⟩
  · simp [pathStart, selfWord, pathGeneric, Grammar.name, bracketed]
  · simp [pathLinks, link]

end Grammar

/-- No rule repeats a part, and what a part is given to is read as one tree. -/
theorem rust_namesOnce (name : Rule) : (rust name).NamesOnce loneRules := by
  cases name with
  | file => simp [rust, file, stray]
  | statement => simp [rust, statement, mark, letStatement]
  | expr p => simp [rust, expr, Form.NamesOnce, link]
  | range p => simp [rust, range, Form.NamesOnce, rangeLink, linkAt]
  | binary p level =>
    rw [rust, binary]
    split
    · simp [Form.NamesOnce, linkAt]
    · refine ⟨trivial, Or.inr ⟨Or.inl trivial, ?_⟩⟩
      rw [List.forall_mem_cons]
      exact ⟨rfl, lone_postfixLinks p⟩
  | unary p => simp [rust, unary]
  | suffixed p => exact ⟨trivial, Or.inr (rust_lone (.suffixed p) (Or.inl trivial))⟩
  | primary p =>
    have hstruct : (if p.allowsBraces then r .structLiteral else never).NamesOnce loneRules := by
      split
      · exact trivial
      · exact trivial
    simp [rust, primary, literal, lit, jump, letCondition, hstruct]
  | path => exact namesOnce_path
  | blockLike => simp [rust, blockLike]
  | _ => exact trivial

namespace Grammar

@[simp] theorem parting_node (k : Kind) (f : F) : (parting loneRules).node (fun _ => k) f ↔
    f.NamesOnce loneRules ∧ f.parts.Nodup ∧
      ∀ o, k.opening? = some o → o = .mark ∧ f.OpensWithMark :=
  and_congr_right' (and_congr_right' (forall_const _))

@[simp] theorem parting_link (k : Kind) (role : Role) (f : F) :
    (parting loneRules).link k role f ↔ f.NamesOnce loneRules ∧
      ([role].filter (· != .plain) ++ f.parts).Nodup ∧
      ∀ o, k.opening? = some o → o = .role role ∧ role ≠ .plain := Iff.rfl

@[simp] theorem parting_leaf (k : Kind) (accepts : Token → Bool) :
    (leaf k accepts).Every (parting loneRules) := by
  rw [every_leaf]
  trivial

@[simp] theorem parts_literal : literal.parts = [] := rfl

@[simp] theorem namesOnce_literal : literal.NamesOnce loneRules := by simp [literal, lit]

@[simp] theorem parting_literal : literal.Every (parting loneRules) := by simp [literal, lit]

@[simp] theorem parting_list (item : F) :
    (list item).Every (parting loneRules) ↔ item.Every (parting loneRules) := by
  simp [list, comma, mark, Form.Every]

@[simp] theorem parts_list (item : F) : (list item).parts = item.parts := by
  simp [list, comma, mark]

@[simp] theorem namesOnce_list {item : F} :
    (list item).NamesOnce loneRules ↔ item.parts = [] ∧ item.NamesOnce loneRules := by
  simp [list, comma, mark]

@[simp] theorem parting_path : path.Every (parting loneRules) := by
  simp [path, Form.Every, pathStart, pathLinks, link, selfWord, pathGeneric, typeName, bracketed,
    Grammar.name, mark, keyword, Kind.opening?]

@[simp] theorem parts_structName : structName.parts = [] := rfl

@[simp] theorem namesOnce_structName : structName.NamesOnce loneRules := trivial

@[simp] theorem parting_structName : structName.Every (parting loneRules) := by
  simp [structName, Form.Every, mark, pathGeneric, typeName, selfWord, Grammar.name, Kind.opening?]

@[simp] theorem parts_operandAhead (p : Position) : (operandAhead p).parts = [] := by
  unfold operandAhead
  split <;> rfl

@[simp] theorem namesOnce_operandAhead (p : Position) :
    (operandAhead p).NamesOnce loneRules := by
  unfold operandAhead
  split <;> trivial

@[simp] theorem parting_operandAhead (p : Position) :
    (operandAhead p).Every (parting loneRules) := by
  unfold operandAhead
  split <;> simp [Form.Every, mark]

theorem parting_postfixLinks (p : Position) : EveryLink (parting loneRules) (postfixLinks p) := by
  simp [postfixLinks, link, linkAt, Form.Every, fieldOf, fieldName, lit, mark, keyword,
    Kind.opening?, Kind.isComment, Form.NamesOnce, Form.parts, loneRules, endingRules]

end Grammar

/-- All nodes that the rules make name their parts once and begin as their kinds ask for. -/
theorem rust_parting (name : Rule) : (rust name).Every (parting loneRules) := by
  cases name with
  | file => simp [rust, Form.Every, file, stray]
  | statement =>
    simp [rust, statement, letStatement, endOfStatement, mark, keyword, Kind.opening?]
  | declaration =>
    simp [rust, Form.Every, declaration, visibility, modifiers, generics, genericParameter,
      boundsBehind, bounds, whereClause, parameters, parameter, result, namedFields, tupleFields,
      variants, openBrace, header, skipped, endOfStatement, mark, keyword, label, attrs, lit, word,
      any, Grammar.name, typeName, fieldName, selfWord, patternLiteral, Kind.opening?]
  | items =>
    simp [rust, items, body, Form.Every, openBrace, closeBrace, atEnd, any, stray, mark,
      Kind.opening?]
  | block =>
    simp [rust, block, blockLabel, label, body, Form.Every, openBrace, closeBrace, atEnd, any,
      stray, mark, Kind.opening?]
  | tokenTree => simp [rust, Form.Every, tokenTree, mark, any, Kind.opening?]
  | attr => simp [rust, Form.Every, attr, Kind.opening?, mark, any]
  | expr p => simp [rust, Form.Every, expr, link, Kind.opening?, assignments, ops]
  | range p =>
    simp [rust, Form.Every, range, rangeLink, linkAt, rangeMark, Kind.opening?]
  | binary p level =>
    simp only [rust, binary]
    split
    · simp [Form.Every, linkAt, Kind.opening?]
    · rw [Form.Every, EveryLink]
      exact ⟨every_rule _, by simp [link, Kind.opening?, keyword], parting_postfixLinks p⟩
  | unary p =>
    simp [rust, unary, Form.Every, referenceMarks, Kind.opening?, mark, keyword, Form.NamesOnce,
      Form.parts, loneRules, endingRules]
  | suffixed p =>
    rw [rust, Form.Every]
    exact ⟨every_rule _, parting_postfixLinks p⟩
  | primary p =>
    have hstruct : (if p.allowsBraces then r .structLiteral else never).Every
        (parting loneRules) := by
      split
      · exact every_rule _
      · rw [never, Form.Every]
        trivial
    simp [rust, primary, jump, jumpValue, letCondition, hstruct, Kind.opening?, keyword, label,
      mark]
  | closure p =>
    simp [rust, Grammar.closure, closureParameters, Kind.opening?, keyword, mark, attrs,
      Form.Every]
  | group =>
    have hkind : (parting loneRules).node groupKind
        (seqs [mark "(", attrs, list (r (.expr .inside)), mark ")"]) := by
      refine ⟨by simp [mark, attrs], by simp [mark, attrs], fun xs o ho => ?_⟩
      have hmark : o = .mark := by
        rw [groupKind] at ho
        split at ho
        · contradiction
        · split at ho
          · contradiction
          · exact (Option.some.inj ho).symm
      exact ⟨hmark, fun _ => rfl⟩
    rw [rust, group, Form.Every]
    exact ⟨hkind, by simp [mark, attrs, Form.Every]⟩
  | array => simp [rust, array, Form.Every, comma, Kind.opening?, mark, attrs]
  | structLiteral =>
    simp [rust, structLiteral, structField, Kind.opening?, mark, attrs, lit, fieldName, Form.Every,
      Grammar.name]
  | macroCall => simp [rust, macroCall, Kind.opening?]
  | path => simp [rust]
  | blockLike => simp [rust, blockLike, Form.Every, blockLabel, Kind.opening?, label, mark, keyword]
  | conditional => simp [rust, conditional, Kind.opening?, keyword]
  | arm => simp [rust, arm, comma, Kind.opening?, attrs, keyword, mark, Form.Every]
  | arguments => simp [rust, arguments, Kind.opening?, mark, attrs, Form.Every]
  | typeArguments =>
    simp [rust, typeArguments, typeArgument, Kind.opening?, mark, label, typeName, bounds,
      Form.Every]
  | type =>
    simp [rust, type, functionType, Form.Every, typePath, typeSegment, typeSuffix, result,
      Kind.opening?, mark, label, keyword, bounds, lit, Grammar.name, primitive, typeName, selfWord,
      bracketed]
  | pattern => simp [rust, pattern, Form.Every, Kind.opening?]
  | patternItem =>
    simp [rust, patternItem, patternBound, patternField, patternLiteral, Kind.opening?, mark,
      keyword, rangeMark, attrs, lit, fieldName, Form.Every, Grammar.name]

/-! ## Sources -/

theorem strayLeaf_parted (t : Token) : (strayLeaf t).Parted := by
  rw [strayLeaf_eq]
  trivial

theorem parts_strayLeaves (ts : List Token) : parts (ts.map strayLeaf) = [] := by
  refine parts_eq_nil fun x hx => ?_
  obtain ⟨t, -, rfl⟩ := List.mem_map.mp hx
  rw [strayLeaf_eq]
  rfl

theorem parseTokens_parted (ts : List Token) :
    parts (parseTokens ts) = [] ∧ ∀ u ∈ preorderAll (parseTokens ts), u.Parted := by
  have hnames (name : Rule) := And.intro (rust_parts name) (rust_namesOnce name)
  unfold parseTokens
  split
  · next xs rest hread =>
    have h := reads_of_read hread
    have hparts := h.parts_sublist rust_lone hnames trivial
    refine ⟨?_, Tree.forall_mem_append ?_ (forall_mem_strayLeaves strayLeaf_parted rest)⟩
    · rw [parts_append, List.sublist_nil.mp hparts, parts_strayLeaves]
      rfl
    · exact h.parted rust_lone hnames rust_parting (by rw [Form.Every]; trivial) trivial
  · exact ⟨parts_strayLeaves ts, forall_mem_strayLeaves strayLeaf_parted ts⟩

/-- In a source the children of all nodes play different parts, and calls, members and parentheses
begin as they must. -/
theorem Source.parse_parted (text : String) :
    ∀ u ∈ (Source.parse text).root.preorder, u.Parted := by
  intro u hu
  obtain ⟨hparts, hparted⟩ := parseTokens_parted (scan text)
  rw [Source.parse, Tree.preorder, List.mem_cons] at hu
  rcases hu with rfl | hu
  · refine ⟨?_, fun o ho => ?_⟩
    · rw [hparts]
      exact List.nodup_nil
    · contradiction
  · exact hparted u hu

/-- What every source that is read keeps to (`parse_regular`): it is well-formed, no token stands in
its tree twice, and no two children of a tree play the same part. -/
structure Source.Regular (s : Source) : Prop where
  wellFormed : s.WellFormed
  once : s.root.tokens.Nodup
  parted : ∀ t ∈ s.root.preorder, t.Parted

/-- And besides (`parse_exact`): its tokens come in the order of the text, and its root is a file in
which all trees reach from their first to their last token. -/
structure Source.Exact (s : Source) : Prop extends Source.Regular s where
  ordered : Ordered s.root.tokens
  file : s.root.kind = .file
  tight : ∀ t ∈ preorderAll s.root.children, t.Tight

/-- All trees in an exact source but the root are tight. -/
theorem Source.Exact.tight_of_mem {s : Source} (hs : s.Exact) {t : Tree} (ht : t ∈ s.root.preorder)
    (hkind : t.kind ≠ .file) : t.Tight := by
  rcases Tree.mem_preorder.mp ht with rfl | ⟨c, hc, ht⟩
  · exact absurd hs.file hkind
  · exact hs.tight t (Tree.mem_preorderAll.mpr ⟨c, hc, ht⟩)

theorem Source.parse_regular (text : String) : (Source.parse text).Regular :=
  ⟨parse_wellFormed text, parse_tokens_nodup text, parse_parted text⟩

theorem Source.parse_exact (text : String) : (Source.parse text).Exact := by
  refine ⟨parse_regular text, ?_, rfl, fun t ht => ((parseTokens_spec (scan text)).2 t ht).1⟩
  rw [parse_tokens]
  exact scan_ordered text

end Attest.Syntax
