/-
  What calls and members end with. Behind the tree it has grown from, a call has arguments, a
  turbofish type arguments and a member a field, and only marks and comments stand in between. Main
  statement (`Source.parse_grown`): so it is in every source.
-/
import Attest.Proofs.Syntax.RustParts

namespace Attest.Syntax

open Syntax.Tree (preorderAll)
open Grammar

/-! ## Grown trees -/

/-- A mark or a comment. -/
def Tree.IsGap : Tree → Prop
  | .leaf _ k _ => k = .mark ∨ k.isComment = true
  | .node _ _ _ _ => False

/-- What a tree has that has grown by a call, a turbofish or a member. -/
def Kind.Closes : Kind → Tree → Prop
  | .call, t => t.kind = .arguments
  | .generic, t => t.kind = .typeArguments
  | .member, .leaf _ k _ => k = .fieldName ∨ k = .integer
  | _, _ => False

/-- Marks and comments with what closes the tree behind them. -/
def Closed (k : Kind) (ys : List Tree) : Prop :=
  ∃ gap last, ys = gap ++ [last] ∧ (∀ g ∈ gap, g.IsGap) ∧ k.Closes last

/-- The tree that a call, a turbofish or a member has grown from stands first in it. -/
def Tree.Grown : Tree → Prop
  | .leaf _ _ _ => True
  | .node _ k _ cs => ∀ r, k.opening? = some (.role r) → ∃ first ys, cs = first :: ys ∧ Closed k ys

theorem Tree.Grown.withRole {t : Tree} (h : t.Grown) (r : Role) : (t.withRole r).Grown := by
  cases t with
  | leaf => trivial
  | node => exact h

theorem isGap_of_mem_leaves (cs marks : List Token) :
    ∀ x ∈ cs.map commentLeaf ++ marks.map (Tree.leaf .plain .mark ·), x.IsGap := by
  intro x hx
  rw [List.mem_append, List.mem_map, List.mem_map] at hx
  rcases hx with ⟨c, -, rfl⟩ | ⟨t, -, rfl⟩
  · exact Or.inr (isComment_commentLeaf c)
  · exact Or.inl rfl

theorem isGap_of_mem_comments (cs : List Token) : ∀ x ∈ cs.map commentLeaf, x.IsGap := by
  have h := isGap_of_mem_leaves cs []
  rwa [List.map_nil, List.append_nil] at h

/-! ## What stands last -/

section

variable {k : Kind} {ts rest : List Token} {xs ys : List Tree}

theorem Closed.append (h : Closed k ys) (hxs : ∀ x ∈ xs, x.IsGap) : Closed k (xs ++ ys) := by
  obtain ⟨gap, last, rfl, hgap, hlast⟩ := h
  exact ⟨xs ++ gap, last, by rw [List.append_assoc],
    List.forall_mem_append.mpr ⟨hxs, hgap⟩, hlast⟩

theorem Reads.isGap_of_op {s : String} (h : Reads rust (op s) ts xs rest) : ∀ x ∈ xs, x.IsGap := by
  cases h with
  | @operator _ cs marks => exact isGap_of_mem_leaves cs marks

/-- A node that begins with a mark stands behind comments. -/
theorem Reads.node_of_opensWithMark {f : F} (h : Reads rust (as k f) ts xs rest)
    (hf : f.OpensWithMark) :
    ∃ cs s body, xs = List.map commentLeaf cs ++ [.node .plain k s body] := by
  cases h with
  | node h =>
    obtain ⟨cs, first, body, rfl, hmark⟩ := h.exists_mark hf
    obtain ⟨hfront, hbody⟩ := comments_in_front cs hmark body
    obtain ⟨s, hs⟩ := Tree.wrap_of_cons (fun _ => k) hbody
    exact ⟨cs, s, _, by rw [hs, hfront]⟩

/-- What is called a field is read behind comments. -/
theorem Reads.leaf_of_fieldOf (h : Reads rust fieldOf ts xs rest) :
    ∃ cs t k, xs = List.map commentLeaf cs ++ [.leaf .plain k t] ∧
      (k = .fieldName ∨ k = .integer) := by
  cases h with
  | left h =>
    cases h with
    | token => exact ⟨_, _, _, rfl, Or.inl rfl⟩
  | right h =>
    cases h with
    | token => exact ⟨_, _, _, rfl, Or.inr rfl⟩

theorem label_comments (cs : List Token) {t : Tree} (ht : t.isComment = false) (r : Role) :
    Tree.label r (cs.map commentLeaf ++ [t]) = cs.map commentLeaf ++ [t.withRole r] :=
  label_append_singleton (isComment_of_mem_commentLeaves cs) ht

/-- What the links of calls, turbofishes and members add. -/
def growth : Kind → F
  | .call => .role .arguments (r .arguments)
  | .generic => seqs [op "::", r .typeArguments]
  | .member => seqs [op ".", .role .field fieldOf]
  | _ => .empty

theorem Reads.closed {f : F} (h : Reads rust f ts xs rest) (hf : f = growth k) {r : Role}
    (hk : k.opening? = some (.role r)) : Closed k xs := by
  subst hf
  cases k with
  | call =>
    cases h with
    | role h =>
      cases h with
      | rule h =>
        obtain ⟨cs, s, body, rfl⟩ := Reads.node_of_opensWithMark h fun _ => rfl
        exact ⟨_, _, label_comments cs rfl _, isGap_of_mem_comments cs, rfl⟩
  | generic =>
    cases h with
    | seq hop h =>
      cases h with
      | seq h hempty =>
        cases h with
        | rule h =>
          cases hempty
          obtain ⟨cs, s, body, rfl⟩ := Reads.node_of_opensWithMark h fun _ => rfl
          rw [List.append_nil]
          exact Closed.append ⟨_, _, rfl, isGap_of_mem_comments cs, rfl⟩ hop.isGap_of_op
  | member =>
    cases h with
    | seq hop h =>
      cases h with
      | seq h hempty =>
        cases h with
        | role h =>
          cases hempty
          obtain ⟨cs, t, k, rfl, hk⟩ := h.leaf_of_fieldOf
          have hcomment : (Tree.leaf .plain k t).isComment = false := by
            rcases hk with rfl | rfl <;> rfl
          rw [label_comments cs hcomment, List.append_nil]
          exact Closed.append ⟨_, _, rfl, isGap_of_mem_comments cs, hk⟩ hop.isGap_of_op
  | _ => simp [Kind.opening?] at hk

end

/-! ## The grammar of Rust -/

/-- The links of calls, turbofishes and members add what they must. -/
def growing : Condition Rule where
  token _ _ := True
  node _ _ := True
  link kind _ form := ∀ r, kind.opening? = some (.role r) → form = growth kind

namespace Grammar

@[simp] theorem growing_link (k : Kind) (role : Role) (f : F) : growing.link k role f ↔
    ∀ r, k.opening? = some (.role r) → f = growth k := Iff.rfl

@[simp] theorem growing_node (kind : List Tree → Kind) (f : F) : growing.node kind f := trivial

@[simp] theorem growing_leaf (k : Kind) (accepts : Token → Bool) :
    (leaf k accepts).Every growing := by
  rw [every_leaf]
  trivial

@[simp] theorem growing_list (item : F) : (list item).Every growing ↔ item.Every growing := by
  simp [list, comma, mark, Form.Every]

@[simp] theorem growing_literal : literal.Every growing := by simp [literal, lit]

@[simp] theorem growing_path : path.Every growing := by
  simp [path, Form.Every, pathStart, pathLinks, link, selfWord, pathGeneric, typeName, bracketed,
    Grammar.name, mark, keyword, Kind.opening?]

@[simp] theorem growing_structName : structName.Every growing := by
  simp [structName, Form.Every, mark, pathGeneric, typeName, selfWord, Grammar.name]

@[simp] theorem growing_operandAhead (p : Position) : (operandAhead p).Every growing := by
  unfold operandAhead
  split <;> simp [Form.Every, mark]

theorem growing_postfixLinks (p : Position) : EveryLink growing (postfixLinks p) := by
  simp [postfixLinks, link, linkAt, Form.Every, fieldOf, fieldName, lit, mark, keyword,
    Kind.opening?, growth]

end Grammar

theorem rust_growing (name : Rule) : (rust name).Every growing := by
  cases name with
  | expr p => simp [rust, Form.Every, expr, link, Kind.opening?, assignments, ops]
  | range p => simp [rust, Form.Every, range, rangeLink, linkAt, rangeMark, Kind.opening?]
  | binary p level =>
    simp only [rust, binary]
    split
    · simp [Form.Every, linkAt, Kind.opening?]
    · rw [Form.Every, EveryLink]
      exact ⟨every_rule _, by simp [link, Kind.opening?, keyword], growing_postfixLinks p⟩
  | suffixed p =>
    rw [rust, Form.Every]
    exact ⟨every_rule _, growing_postfixLinks p⟩
  | primary p =>
    have hstruct : (if p.allowsBraces then r .structLiteral else never).Every growing := by
      split
      · exact every_rule _
      · rw [never, Form.Every]
        trivial
    simp [rust, primary, jump, jumpValue, letCondition, hstruct, keyword, label, mark]
  | group =>
    rw [rust, group, Form.Every]
    exact ⟨trivial, by simp [mark, attrs, Form.Every]⟩
  | type =>
    simp [rust, type, functionType, Form.Every, typePath, typeSegment, typeSuffix, result,
      mark, label, keyword, bounds, lit, Grammar.name, primitive, typeName, selfWord, bracketed]
  | patternItem =>
    simp [rust, patternItem, patternBound, patternField, patternLiteral, mark,
      keyword, rangeMark, attrs, lit, fieldName, Form.Every, Grammar.name]
  | _ =>
    -- No link stands in the other rules.
    simp [rust, Form.Every, file, stray, statement, letStatement, endOfStatement, mark, keyword,
      declaration, visibility, modifiers, generics, genericParameter, boundsBehind, whereClause,
      parameters, parameter, result, namedFields, tupleFields, variants, header, skipped, openBrace,
      closeBrace, atEnd, items, block, blockLabel, label, body, tokenTree, attr, unary,
      referenceMarks, attrs, lit, word, any, Grammar.name, selfWord, patternLiteral,
      Grammar.closure, closureParameters, array, comma, structLiteral, structField, fieldName,
      macroCall, blockLike, conditional, arm, arguments, typeArguments, typeArgument, typeName,
      bounds, pattern]

/-! ## Sources -/

theorem grown_leaves (kind : Token → Kind) {cs : List Token} (ts : List Token) :
    ∀ u ∈ preorderAll (cs.map commentLeaf ++ ts.map fun t => .leaf .plain (kind t) t), u.Grown := by
  intro u hu
  rcases mem_preorderAll_leaves kind ts hu with ⟨c, -, rfl⟩ | ⟨c, -, rfl⟩
  · trivial
  · trivial

/-- Calls, turbofishes and members grow by links only, so in what is read they are as the links make
them. -/
theorem Reads.grown {form : F} {ts rest : List Token} {xs : List Tree}
    (h : Reads rust form ts xs rest) (hparting : form.Every (parting loneRules))
    (hgrowing : form.Every growing) (hnames : form.NamesOnce loneRules) :
    ∀ u ∈ preorderAll xs, u.Grown := by
  induction h with
  | empty | stop | absent => exact fun u hu => absurd hu List.not_mem_nil
  | @token _ kind _ t => exact grown_leaves kind [t]
  | operator => exact grown_leaves (fun _ => .mark) _
  | seq _ _ ihf ihs =>
    rw [Form.Every] at hparting hgrowing
    exact Tree.forall_mem_append (ihf hparting.1 hgrowing.1 hnames.1)
      (ihs hparting.2 hgrowing.2 hnames.2)
  | left _ ih =>
    rw [Form.Every] at hparting hgrowing
    exact ih hparting.1 hgrowing.1 hnames.1
  | right _ ih =>
    rw [Form.Every] at hparting hgrowing
    exact ih hparting.2 hgrowing.2 hnames.2
  | more _ _ ihi ihm =>
    refine Tree.forall_mem_append (ihi ?_ ?_ hnames.2) (ihm hparting hgrowing hnames)
    · rwa [Form.Every] at hparting
    · rwa [Form.Every] at hgrowing
  | role _ ih =>
    rw [Form.Every] at hparting hgrowing
    exact Tree.forall_mem_label (ih hparting hgrowing hnames.2) fun _ _ _ ht => ht.withRole _
  | node _ ih =>
    rw [Form.Every] at hparting hgrowing
    refine Tree.forall_mem_wrap_body (ih hparting.2 hgrowing.2 hparting.1.1) fun ys s r hr => ?_
    have hmark := (hparting.1.2.2 ys _ hr).1
    contradiction
  | base _ ih =>
    rw [Form.Every] at hparting hgrowing
    exact ih hparting.1 hgrowing.1 hnames.1
  | link hb hmem h ihb ihf =>
    have hlinks := And.intro hparting hgrowing
    rw [Form.Every, Form.Every, everyLink_iff, everyLink_iff] at hlinks
    obtain ⟨hlink, hevery⟩ := hlinks.1.2 _ hmem
    obtain ⟨hadds, hevery'⟩ := hlinks.2.2 _ hmem
    refine Tree.forall_mem_wrap_body (Tree.forall_mem_append
      (Tree.forall_mem_label (ihb hparting hgrowing hnames) fun _ _ _ ht => ht.withRole _)
      (ihf hevery hevery' hlink.1)) fun _ s r hr => ?_
    -- A link that names the part of what it stands behind stands behind one tree.
    have hlone := hnames.2.resolve_left fun hplain => (hlink.2.2 _ hr).2 (hplain _ hmem)
    obtain ⟨first, hbody, -⟩ := dropWhile_label_append (hb.lone rust_lone hlone) _
    exact ⟨first, _, hbody, h.closed (hadds r hr) hr⟩
  | @rule name _ _ _ _ ih => exact ih (rust_parting name) (rust_growing name) (rust_namesOnce name)

theorem strayLeaf_grown (t : Token) : (strayLeaf t).Grown := by
  rw [strayLeaf_eq]
  trivial

/-- In a source calls, turbofishes and members have grown from one tree. -/
theorem Source.parse_grown (text : String) :
    ∀ u ∈ (Source.parse text).root.preorder, u.Grown := by
  intro u hu
  rw [Source.parse, Tree.preorder, List.mem_cons] at hu
  rcases hu with rfl | hu
  · intro r hr
    contradiction
  · revert u
    unfold parseTokens
    split
    · next xs rest hread =>
      refine Tree.forall_mem_append ?_ (forall_mem_strayLeaves strayLeaf_grown rest)
      exact (reads_of_read hread).grown (every_rule _) (every_rule _) trivial
    · exact forall_mem_strayLeaves strayLeaf_grown _

end Attest.Syntax
