/-
  Trees: the trees inside a tree, its tokens, and nesting. In a well-nested tree every tree lies
  within all trees around it.
-/
import Attest.Syntax.Tree

namespace Attest.Text.Span

theorem contains_iff {a b : Span} : a.contains b = true ↔ a.start ≤ b.start ∧ b.stop ≤ a.stop := by
  simp [contains]

theorem contains_refl (a : Span) : a.contains a = true :=
  contains_iff.mpr ⟨Nat.le_refl _, Nat.le_refl _⟩

theorem contains_trans {a b c : Span} (hab : a.contains b = true) (hbc : b.contains c = true) :
    a.contains c = true := by
  rw [contains_iff] at *
  omega

end Attest.Text.Span

namespace Attest.Syntax.Tree

/-! ## Induction -/

/-- A property of leaves that a node has if all its children have it holds of every tree. -/
@[elab_as_elim]
theorem induct {P : Tree → Prop} (leaf : ∀ r k t, P (.leaf r k t))
    (node : ∀ r k s cs, (∀ c ∈ cs, P c) → P (.node r k s cs)) (t : Tree) : P t :=
  @Tree.rec P (fun cs => ∀ c ∈ cs, P c) leaf node
    (fun _ hc => absurd hc List.not_mem_nil)
    (fun _ _ first rest c hc => by
      rcases List.mem_cons.mp hc with rfl | hc
      · exact first
      · exact rest c hc)
    t

/-! ## Trees inside a tree -/

theorem preorder_eq (t : Tree) : t.preorder = t :: preorderAll t.children := by
  cases t <;> simp [preorder, preorderAll, children]

theorem mem_preorder_self (t : Tree) : t ∈ t.preorder := by
  rw [preorder_eq]
  exact List.mem_cons_self

theorem mem_preorderAll {u : Tree} {ts : List Tree} :
    u ∈ preorderAll ts ↔ ∃ t ∈ ts, u ∈ t.preorder := by
  induction ts with
  | nil => simp only [preorderAll, List.not_mem_nil, false_and, exists_false]
  | cons t ts ih => simp only [preorderAll, List.mem_append, List.mem_cons, ih, exists_eq_or_imp]

theorem mem_preorder {u t : Tree} :
    u ∈ t.preorder ↔ u = t ∨ ∃ c ∈ t.children, u ∈ c.preorder := by
  rw [preorder_eq, List.mem_cons, mem_preorderAll]

theorem preorderAll_append (ts us : List Tree) :
    preorderAll (ts ++ us) = preorderAll ts ++ preorderAll us := by
  induction ts with
  | nil => rfl
  | cons t ts ih => simp [preorderAll, ih]

/-- What holds of all trees in two forests holds of all trees in both together. -/
theorem forall_mem_append {P : Tree → Prop} {ts us : List Tree} (ht : ∀ u ∈ preorderAll ts, P u)
    (hu : ∀ u ∈ preorderAll us, P u) : ∀ u ∈ preorderAll (ts ++ us), P u := by
  intro u h
  rw [preorderAll_append, List.mem_append] at h
  exact h.elim (ht u) (hu u)

theorem mem_preorder_trans {u t root : Tree} (hu : u ∈ t.preorder) (ht : t ∈ root.preorder) :
    u ∈ root.preorder := by
  induction root using induct with
  | leaf r k tok =>
    rw [mem_preorder] at ht
    rcases ht with rfl | ⟨c, hc, -⟩
    · exact hu
    · simp [children] at hc
  | node r k s cs ih =>
    rw [mem_preorder] at ht
    rcases ht with rfl | ⟨c, hc, ht⟩
    · exact hu
    · exact mem_preorder.mpr (Or.inr ⟨c, hc, ih c hc ht⟩)

theorem mem_preorder_of_mem_children {c t root : Tree} (hc : c ∈ t.children)
    (ht : t ∈ root.preorder) : c ∈ root.preorder :=
  mem_preorder_trans (mem_preorder.mpr (Or.inr ⟨c, hc, mem_preorder_self c⟩)) ht

theorem mem_preorder_node {r : Role} {k : Kind} {s : Text.Span} {cs : List Tree} {c : Tree}
    (hc : c ∈ cs) : c ∈ (node r k s cs).preorder :=
  mem_preorder.mpr (Or.inr ⟨c, hc, mem_preorder_self c⟩)

/-- A tree with a token is the leaf of that token. -/
theorem eq_leaf_of_token? {u : Tree} {t : Token} (h : u.token? = some t) :
    u = leaf u.role u.kind t := by
  cases u with
  | leaf r k tok => rw [← Option.some.inj h]; rfl
  | node r k s cs => simp [token?] at h

theorem mem_children_of_child? {t c : Tree} {r : Role} (h : t.child? r = some c) :
    c ∈ t.children := List.mem_of_find?_eq_some h

theorem role_of_child? {t c : Tree} {r : Role} (h : t.child? r = some c) : c.role = r := by
  have hc := List.find?_some h
  exact eq_of_beq hc

theorem children_withRole (r : Role) (t : Tree) : (t.withRole r).children = t.children := by
  cases t <;> rfl

theorem kind_withRole (r : Role) (t : Tree) : (t.withRole r).kind = t.kind := by
  cases t <;> rfl

theorem span_withRole (r : Role) (t : Tree) : (t.withRole r).span = t.span := by
  cases t <;> rfl

theorem token?_withRole (r : Role) (t : Tree) : (t.withRole r).token? = t.token? := by
  cases t <;> rfl

theorem role_withRole (r : Role) (t : Tree) : (t.withRole r).role = r := by
  cases t <;> rfl

theorem wrap_of_nil (kind : List Tree → Kind) {ts : List Tree} (h : ts.dropWhile isComment = []) :
    wrap kind ts = ts := by
  rw [wrap, h]
  rfl

theorem wrap_of_cons (kind : List Tree → Kind) {ts body : List Tree} {first : Tree}
    (h : ts.dropWhile isComment = first :: body) :
    ∃ s, wrap kind ts =
      ts.takeWhile isComment ++ [node .plain (kind (first :: body)) s (first :: body)] := by
  rw [wrap, h, List.head?_cons, List.getLast?_cons]
  exact ⟨_, rfl⟩

/-- A wrapped forest is the forest if nothing but comments are in it, and else has one node
behind the comments. -/
theorem wrap_cases (kind : List Tree → Kind) (ts : List Tree) :
    wrap kind ts = ts ∨
    ∃ first last, (ts.dropWhile isComment).head? = some first ∧
      (ts.dropWhile isComment).getLast? = some last ∧
      wrap kind ts = ts.takeWhile isComment ++
        [node .plain (kind (ts.dropWhile isComment)) ⟨first.span.start, last.span.stop⟩
          (ts.dropWhile isComment)] := by
  unfold wrap
  dsimp only
  cases hh : (ts.dropWhile isComment).head? with
  | none => exact Or.inl rfl
  | some first =>
    cases hl : (ts.dropWhile isComment).getLast? with
    | none => exact Or.inl rfl
    | some last => exact Or.inr ⟨first, last, rfl, rfl, rfl⟩

/-- Giving roles adds no trees but the ones with the new role. -/
theorem forall_mem_label {P : Tree → Prop} {r : Role} {ts : List Tree}
    (h : ∀ u ∈ preorderAll ts, P u)
    (hr : ∀ t ∈ ts, t.isComment = false → P t → P (t.withRole r)) :
    ∀ u ∈ preorderAll (label r ts), P u := by
  intro u hu
  obtain ⟨t', ht', hu⟩ := mem_preorderAll.mp hu
  obtain ⟨t, ht, rfl⟩ := List.mem_map.mp ht'
  split at hu
  · exact h u (mem_preorderAll.mpr ⟨t, ht, hu⟩)
  · next hc =>
    rcases mem_preorder.mp hu with rfl | ⟨c, hmem, hu⟩
    · have hself := h t (mem_preorderAll.mpr ⟨t, ht, mem_preorder_self t⟩)
      exact hr t ht (Bool.eq_false_iff.mpr hc) hself
    · rw [children_withRole] at hmem
      exact h u (mem_preorderAll.mpr ⟨t, ht, mem_preorder.mpr (Or.inr ⟨c, hmem, hu⟩)⟩)

/-- Wrapping adds no tree but the new node. -/
theorem forall_mem_wrap {P : Tree → Prop} {kind : List Tree → Kind} {ts : List Tree}
    (h : ∀ u ∈ preorderAll ts, P u)
    (hn : ∀ body first last, (∀ t ∈ body, t ∈ ts) → body.head? = some first →
      body.getLast? = some last →
      P (node .plain (kind body) ⟨first.span.start, last.span.stop⟩ body)) :
    ∀ u ∈ preorderAll (wrap kind ts), P u := by
  have hbody : ∀ t ∈ ts.dropWhile isComment, t ∈ ts := fun t ht =>
    (List.dropWhile_sublist _).subset ht
  have hfront : ∀ t ∈ ts.takeWhile isComment, t ∈ ts := fun t ht =>
    (List.takeWhile_prefix _).subset ht
  rcases wrap_cases kind ts with hw | ⟨first, last, hhead, hlast, hw⟩
  · rwa [hw]
  · rw [hw]
    intro u hu
    rw [preorderAll_append, List.mem_append] at hu
    rcases hu with hu | hu
    · obtain ⟨t, ht, hu⟩ := mem_preorderAll.mp hu
      exact h u (mem_preorderAll.mpr ⟨t, hfront t ht, hu⟩)
    · obtain ⟨t, ht, hu⟩ := mem_preorderAll.mp hu
      rw [List.mem_singleton.mp ht, mem_preorder] at hu
      rcases hu with rfl | ⟨c, hc, hu⟩
      · exact hn _ first last hbody hhead hlast
      · exact h u (mem_preorderAll.mpr ⟨c, hbody c hc, hu⟩)

/-- Wrapping adds no tree but the new node, whose children are all that stands behind the comments in
front. -/
theorem forall_mem_wrap_body {P : Tree → Prop} {kind : List Tree → Kind} {ts : List Tree}
    (h : ∀ u ∈ preorderAll ts, P u)
    (hn : ∀ us s, P (node .plain (kind us) s (ts.dropWhile isComment))) :
    ∀ u ∈ preorderAll (wrap kind ts), P u := by
  cases hbody : ts.dropWhile isComment with
  | nil => rwa [wrap_of_nil kind hbody]
  | cons first body =>
    obtain ⟨s, hs⟩ := wrap_of_cons kind hbody
    have hsub {us : List Tree} (hus : us.Sublist ts) : ∀ u ∈ preorderAll us, P u := by
      intro u hu
      obtain ⟨t, ht, hu⟩ := mem_preorderAll.mp hu
      exact h u (mem_preorderAll.mpr ⟨t, hus.subset ht, hu⟩)
    rw [hs, ← hbody]
    refine forall_mem_append (hsub (List.takeWhile_sublist _)) fun u hu => ?_
    obtain ⟨t, ht, hu⟩ := mem_preorderAll.mp hu
    obtain rfl := List.mem_singleton.mp ht
    rw [preorder, List.mem_cons] at hu
    rcases hu with rfl | hu
    · exact hn _ s
    · exact hsub (List.dropWhile_sublist _) u hu

/-! ## Nesting -/

/-- Every child lies within its parent. -/
def WellNested (root : Tree) : Prop :=
  ∀ t ∈ root.preorder, ∀ c ∈ t.children, t.span.contains c.span = true

namespace WellNested

variable {root : Tree}

theorem of_mem (h : root.WellNested) {t : Tree} (ht : t ∈ root.preorder) : t.WellNested :=
  fun u hu => h u (mem_preorder_trans hu ht)

/-- Not only children but all trees inside a tree lie within it. -/
theorem contains (h : root.WellNested) {u : Tree} (hu : u ∈ root.preorder) :
    root.span.contains u.span = true := by
  induction root using induct with
  | leaf r k tok =>
    rcases mem_preorder.mp hu with rfl | ⟨c, hc, -⟩
    · exact Text.Span.contains_refl _
    · simp [children] at hc
  | node r k s cs ih =>
    rcases mem_preorder.mp hu with rfl | ⟨c, hc, hu⟩
    · exact Text.Span.contains_refl _
    · have hmem : c ∈ (node r k s cs).preorder := mem_preorder_node hc
      exact Text.Span.contains_trans (h _ (mem_preorder_self _) c hc) (ih c hc (h.of_mem hmem) hu)

end WellNested

/-! ## Tokens -/

theorem tokens_leaf (r : Role) (k : Kind) (t : Token) : (leaf r k t).tokens = [t] := by
  simp [tokens]

theorem tokens_node (r : Role) (k : Kind) (s : Text.Span) (cs : List Tree) :
    (node r k s cs).tokens = tokensAll cs := by
  simp [tokens]

theorem tokensAll_append (ts us : List Tree) :
    tokensAll (ts ++ us) = tokensAll ts ++ tokensAll us := by
  induction ts with
  | nil => rfl
  | cons t ts ih => simp [tokensAll, ih]

/-- The last token of a forest is that of its last tree. -/
theorem tokensAll_getLast? {ts : List Tree} {last : Tree} {a : Token}
    (hlast : ts.getLast? = some last) (ha : last.tokens.getLast? = some a) :
    (tokensAll ts).getLast? = some a := by
  obtain ⟨front, rfl⟩ := List.getLast?_eq_some_iff.mp hlast
  rw [tokensAll_append, List.getLast?_append]
  simp [tokensAll, ha]

theorem tokens_withRole (r : Role) (t : Tree) : (t.withRole r).tokens = t.tokens := by
  cases t <;> simp [withRole, tokens]

theorem tokensAll_label (r : Role) (ts : List Tree) : tokensAll (label r ts) = tokensAll ts := by
  induction ts with
  | nil => rfl
  | cons t ts ih =>
    have ih' : tokensAll (List.map (fun t => if t.isComment then t else t.withRole r) ts) =
        tokensAll ts := ih
    rw [label, List.map_cons, tokensAll, tokensAll, ih']
    split
    · rfl
    · rw [tokens_withRole]

theorem tokensAll_wrap (kind : List Tree → Kind) (ts : List Tree) :
    tokensAll (wrap kind ts) = tokensAll ts := by
  rcases wrap_cases kind ts with h | ⟨first, last, -, -, h⟩
  · rw [h]
  · rw [h, tokensAll_append]
    conv => rhs; rw [← List.takeWhile_append_dropWhile (p := isComment) (l := ts), tokensAll_append]
    simp [tokensAll, tokens_node]

theorem tokens_sublist_tokensAll {t : Tree} {ts : List Tree} (ht : t ∈ ts) :
    t.tokens.Sublist (tokensAll ts) := by
  obtain ⟨front, back, rfl⟩ := List.append_of_mem ht
  rw [tokensAll_append, tokensAll]
  exact (List.sublist_append_left _ _).trans (List.sublist_append_right _ _)

theorem mem_tokensAll {tok : Token} {ts : List Tree} :
    tok ∈ tokensAll ts ↔ ∃ t ∈ ts, tok ∈ t.tokens := by
  induction ts with
  | nil => simp [tokensAll]
  | cons t ts ih => simp [tokensAll, ih]

/-- Every token of a tree is that of a leaf in it. -/
theorem exists_leaf_of_mem_tokens {t : Tree} {tok : Token} (h : tok ∈ t.tokens) :
    ∃ u ∈ t.preorder, u.token? = some tok := by
  induction t using induct with
  | leaf r k a =>
    rw [tokens_leaf, List.mem_singleton] at h
    exact ⟨_, mem_preorder_self _, by rw [h]; rfl⟩
  | node r k s cs ih =>
    rw [tokens_node, mem_tokensAll] at h
    obtain ⟨c, hc, hmem⟩ := h
    obtain ⟨u, hu, htok⟩ := ih c hc hmem
    exact ⟨u, mem_preorder.mpr (Or.inr ⟨c, hc, hu⟩), htok⟩

/-- The tokens of a tree inside another are among the other's, in the same order. -/
theorem tokens_sublist {root u : Tree} (hu : u ∈ root.preorder) : u.tokens.Sublist root.tokens := by
  induction root using induct with
  | leaf r k tok =>
    rcases mem_preorder.mp hu with rfl | ⟨c, hc, -⟩
    · exact List.Sublist.refl _
    · simp [children] at hc
  | node r k s cs ih =>
    rcases mem_preorder.mp hu with rfl | ⟨c, hc, hu⟩
    · exact List.Sublist.refl _
    · rw [tokens_node]
      exact (ih c hc hu).trans (tokens_sublist_tokensAll hc)

end Attest.Syntax.Tree
