/-
  Trees that are alike: they have the same nodes, their leaves hold related tokens, and inside its
  nodes the second tree may have more comments than the first. Where the trees stand does not
  matter. Main statements: alike trees have alike trees inside them (`Tree.Alike.preorder`), and
  begin and end with related tokens (`Tree.Alike.ends`).
-/
import Attest.Proofs.Syntax.Reading
import Mathlib.Data.List.Forall2

namespace Attest.Syntax

/-! ## Lists with more in between -/

/-- The lists are related entry by entry, but in front of an entry the second one may have more. -/
inductive Interleaved {α β : Type} (A : α → β → Prop) (E : β → Prop) : List α → List β → Prop
  | nil : Interleaved A E [] []
  | cons {a b as bs} (h : A a b) (hs : Interleaved A E as bs) : Interleaved A E (a :: as) (b :: bs)
  | extra {b as bs} (h : E b) (hne : as ≠ []) (hs : Interleaved A E as bs) :
      Interleaved A E as (b :: bs)

namespace Interleaved

variable {α β γ δ : Type} {A : α → β → Prop} {E : β → Prop} {as as' : List α} {bs bs' : List β}

theorem append (h : Interleaved A E as bs) (h' : Interleaved A E as' bs') :
    Interleaved A E (as ++ as') (bs ++ bs') := by
  induction h with
  | nil => exact h'
  | cons hab _ ih => exact .cons hab ih
  | extra hb hne _ ih => exact .extra hb (by simp [hne]) ih

theorem singleton {a : α} {b : β} (h : A a b) : Interleaved A E [a] [b] := .cons h .nil

theorem imp {A' : α → β → Prop} (hA : ∀ a b, A a b → A' a b) (h : Interleaved A E as bs) :
    Interleaved A' E as bs := by
  induction h with
  | nil => exact .nil
  | cons hab _ ih => exact .cons (hA _ _ hab) ih
  | extra hb hne _ ih => exact .extra hb hne ih

/-- Only what is in the lists is related. -/
theorem of_mem (h : Interleaved A E as bs) :
    Interleaved (fun a b => a ∈ as ∧ b ∈ bs ∧ A a b) E as bs := by
  induction h with
  | nil => exact .nil
  | cons hab _ ih =>
    exact .cons ⟨List.mem_cons_self, List.mem_cons_self, hab⟩ (ih.imp fun _ _ hcd =>
      ⟨List.mem_cons_of_mem _ hcd.1, List.mem_cons_of_mem _ hcd.2.1, hcd.2.2⟩)
  | extra hb hne _ ih =>
    exact .extra hb hne (ih.imp fun _ _ hcd => ⟨hcd.1, List.mem_cons_of_mem _ hcd.2.1, hcd.2.2⟩)

theorem map {A' : γ → δ → Prop} {E' : δ → Prop} {f : α → γ} {g : β → δ}
    (hA : ∀ a b, A a b → A' (f a) (g b)) (hE : ∀ b, E b → E' (g b)) (h : Interleaved A E as bs) :
    Interleaved A' E' (as.map f) (bs.map g) := by
  induction h with
  | nil => exact .nil
  | cons hab _ ih => exact .cons (hA _ _ hab) ih
  | extra hb hne _ ih => exact .extra (hE _ hb) (by simpa using hne) ih

theorem eq_nil_iff (h : Interleaved A E as bs) : as = [] ↔ bs = [] := by
  cases h with
  | nil => simp
  | cons => simp
  | extra _ hne => simp [hne]

/-- The second list has nothing more at its end. -/
theorem getLast? (h : Interleaved A E as bs) : Option.Rel A as.getLast? bs.getLast? := by
  induction h with
  | nil => exact .none
  | @cons a b as bs hab hs ih =>
    by_cases has : as = []
    · obtain rfl := has
      obtain rfl := hs.eq_nil_iff.mp rfl
      exact .some hab
    · have hbs : bs ≠ [] := mt hs.eq_nil_iff.mpr has
      rwa [← List.singleton_append, ← List.singleton_append (l := bs),
        List.getLast?_append_of_ne_nil _ has, List.getLast?_append_of_ne_nil _ hbs]
  | @extra b as bs _ hne hs ih =>
    have hbs : bs ≠ [] := mt hs.eq_nil_iff.mpr hne
    rwa [← List.singleton_append, List.getLast?_append_of_ne_nil _ hbs]

/-- What is kept only of the entries is related entry by entry. -/
theorem filterMap {P : γ → δ → Prop} {f : α → Option γ} {g : β → Option δ}
    (hA : ∀ a b, A a b → Option.Rel P (f a) (g b)) (hE : ∀ b, E b → g b = none)
    (h : Interleaved A E as bs) : List.Forall₂ P (as.filterMap f) (bs.filterMap g) := by
  induction h with
  | nil => exact .nil
  | @cons a b as bs hab _ ih =>
    have hfg := hA a b hab
    cases hfa : f a with
    | none =>
      rw [hfa] at hfg
      generalize hgb : g b = o at hfg
      cases hfg
      rwa [List.filterMap_cons_none hfa, List.filterMap_cons_none hgb]
    | some c =>
      rw [hfa] at hfg
      generalize hgb : g b = o at hfg
      cases hfg with
      | some hcd =>
        rw [List.filterMap_cons_some hfa, List.filterMap_cons_some hgb]
        exact .cons hcd ih
  | extra hb _ _ ih => rwa [List.filterMap_cons_none (hE _ hb)]

theorem filter {p : α → Bool} {q : β → Bool} (hA : ∀ a b, A a b → p a = q b)
    (hE : ∀ b, E b → q b = false) (h : Interleaved A E as bs) :
    List.Forall₂ A (as.filter p) (bs.filter q) := by
  induction h with
  | nil => exact .nil
  | @cons a b as bs hab _ ih =>
    rw [List.filter_cons, List.filter_cons, hA a b hab]
    split
    · exact .cons hab ih
    · exact ih
  | extra hb _ _ ih => rwa [List.filter_cons_of_neg (by simp [hE _ hb])]

theorem any {p : α → Bool} {q : β → Bool} (hA : ∀ a b, A a b → p a = q b)
    (hE : ∀ b, E b → q b = false) (h : Interleaved A E as bs) : as.any p = bs.any q := by
  induction h with
  | nil => rfl
  | cons hab _ ih => rw [List.any_cons, List.any_cons, hA _ _ hab, ih]
  | extra hb _ _ ih => rw [List.any_cons, hE _ hb, Bool.false_or, ih]

theorem head?_of_forall₂ (h : List.Forall₂ A as bs) : Option.Rel A as.head? bs.head? := by
  cases h with
  | nil => exact .none
  | cons hab => exact .some hab

/-- So is what is found first, if that is nothing more. -/
theorem find?_of_not_extra {p : α → Bool} {q : β → Bool} (hA : ∀ a b, A a b → p a = q b)
    (hE : ∀ b, E b → q b = true) (h : Interleaved A E as bs)
    (hfound : ∀ b ∈ bs.find? q, ¬ E b) : Option.Rel A (as.find? p) (bs.find? q) := by
  induction h with
  | nil => exact .none
  | @cons a b as bs hab _ ih =>
    rw [List.find?_cons] at hfound
    rw [List.find?_cons, List.find?_cons, hA a b hab]
    cases hq : q b with
    | true => exact .some hab
    | false => exact ih (by rwa [hq] at hfound)
  | @extra b as bs hb _ _ _ =>
    rw [List.find?_cons_of_pos (hE b hb)] at hfound
    exact absurd hb (hfound b rfl)

/-- The first entry of some property is found in both lists. -/
theorem find? {p : α → Bool} {q : β → Bool} (hA : ∀ a b, A a b → p a = q b)
    (hE : ∀ b, E b → q b = false) (h : Interleaved A E as bs) :
    Option.Rel A (as.find? p) (bs.find? q) := by
  rw [← List.head?_filter, ← List.head?_filter]
  exact head?_of_forall₂ (h.filter hA hE)

end Interleaved

/-! ## Tokens that read alike -/

/-- Comments and texts may run over several lines. -/
def TokenKind.isLong : TokenKind → Bool
  | .text | .rawText | .lineComment | .blockComment => true
  | _ => false

/-- The texts are equal, except that those of a long token may differ. -/
def Token.Like (t u : Token) : Prop :=
  u.text = t.text ∨ t.kind.isLong = true ∧ 2 ≤ t.text.length ∧ 2 ≤ u.text.length

namespace Token.Like

variable {t u : Token}

theorem text_eq (h : t.Like u) (hkind : t.kind.isLong = false) : u.text = t.text := by
  rcases h with heq | ⟨hlong, -⟩
  · exact heq
  · rw [hkind] at hlong
    contradiction

/-- Marks are short, so one token is a mark if the other is. -/
theorem text_eq_iff (h : t.Like u) {s : String} (hs : s.length ≤ 1) : u.text = s ↔ t.text = s := by
  rcases h with heq | ⟨-, ht, hu⟩
  · rw [heq]
  · refine iff_of_false ?_ ?_
    · rintro rfl
      omega
    · rintro rfl
      omega

end Token.Like

/-! ## Alike trees -/

/-- The tree is a comment with one of the tokens. -/
def IsExtra (E : Token → Prop) (d : Tree) : Prop := ∃ t, E t ∧ d = commentLeaf t

/-- Leaves with tokens that `R` relates, and nodes of one kind with alike children, between which
the second node may have comments with tokens of `E`. -/
inductive Tree.Alike (R : Token → Token → Prop) (E : Token → Prop) : Tree → Tree → Prop
  | leaf {r k t u} (h : R t u) (hk : k.Fits t) : Alike R E (.leaf r k t) (.leaf r k u)
  | node {r k s s' c cs d ds} (h : Alike R E c d)
      (hs : Interleaved (Alike R E) (IsExtra E) cs ds) :
      Alike R E (.node r k s (c :: cs)) (.node r k s' (d :: ds))

/-- Alike forests. -/
abbrev AllAlike (R : Token → Token → Prop) (E : Token → Prop) : List Tree → List Tree → Prop :=
  Interleaved (Tree.Alike R E) (IsExtra E)

theorem isComment_commentLeaf (t : Token) : (commentLeaf t).isComment = true := by
  simp only [commentLeaf, Tree.isComment, Tree.kind]
  split <;> rfl

theorem isComment_of_mem_commentLeaves (ts : List Token) :
    ∀ c ∈ ts.map commentLeaf, c.isComment = true :=
  List.forall_mem_map.mpr fun t _ => isComment_commentLeaf t

theorem isNamed_of_isComment {t : Tree} (h : t.isComment = true) : t.isNamed = true := by
  rw [Tree.isComment, Kind.isComment, Bool.or_eq_true] at h
  rcases h with h | h
  · rw [Tree.isNamed, eq_of_beq h]
    rfl
  · rw [Tree.isNamed, eq_of_beq h]
    rfl

namespace IsExtra

variable {E : Token → Prop} {d : Tree}

theorem isComment (h : IsExtra E d) : d.isComment = true := by
  obtain ⟨t, -, rfl⟩ := h
  exact isComment_commentLeaf t

theorem role (h : IsExtra E d) : d.role = .plain := by
  obtain ⟨t, -, rfl⟩ := h
  rfl

theorem preorder (h : IsExtra E d) : d.preorder = [d] := by
  obtain ⟨t, -, rfl⟩ := h
  simp [commentLeaf, Tree.preorder]

end IsExtra

namespace Tree.Alike

variable {R : Token → Token → Prop} {E : Token → Prop} {t u : Tree} {ts us : List Tree}

/-- A property of related leaves that nodes have if their alike children have it holds of all
alike trees. -/
@[elab_as_elim]
theorem induct {P : ∀ t u : Tree, Alike R E t u → Prop}
    (leaf : ∀ {r k t u} (h : R t u) (hk : k.Fits t), P (.leaf r k t) (.leaf r k u) (.leaf h hk))
    (node : ∀ {r k s s' c cs d ds} (h : Alike R E c d) (hs : AllAlike R E cs ds), P c d h →
      Interleaved (fun c d => ∃ h, P c d h) (IsExtra E) cs ds →
      P (.node r k s (c :: cs)) (.node r k s' (d :: ds)) (.node h hs))
    {t u : Tree} (h : Alike R E t u) : P t u h :=
  @Alike.rec R E P (fun cs ds _ => Interleaved (fun c d => ∃ h, P c d h) (IsExtra E) cs ds)
    leaf node .nil (fun h _ hp hs => .cons ⟨h, hp⟩ hs) (fun h hne _ hs => .extra h hne hs) t u h

theorem kind_eq (h : Alike R E t u) : u.kind = t.kind := by cases h <;> rfl

theorem role_eq (h : Alike R E t u) : u.role = t.role := by cases h <;> rfl

theorem isNamed_eq (h : Alike R E t u) : u.isNamed = t.isNamed := by
  rw [isNamed, isNamed, h.kind_eq]

theorem isComment_eq (h : Alike R E t u) : u.isComment = t.isComment := by
  rw [isComment, isComment, h.kind_eq]

theorem withRole (h : Alike R E t u) (r : Role) : Alike R E (t.withRole r) (u.withRole r) := by
  cases h with
  | leaf h hk => exact .leaf h hk
  | node h hs => exact .node h hs

theorem children (h : Alike R E t u) : AllAlike R E t.children u.children := by
  cases h with
  | leaf => exact .nil
  | node h hs => exact .cons h hs

/-- The child that plays a part is never one of the comments. -/
theorem child? (h : Alike R E t u) {r : Role} (hr : r ≠ .plain) :
    Option.Rel (Alike R E) (t.child? r) (u.child? r) := by
  refine h.children.find? (fun c d hcd => ?_) (fun d hd => ?_)
  · rw [hcd.role_eq]
  · rw [hd.role, beq_eq_false_iff_ne]
    exact hr.symm

/-! ## Trees inside -/

theorem allPreorder (h : Interleaved
      (fun c d => Alike R E c d ∧ AllAlike R E c.preorder d.preorder) (IsExtra E) ts us) :
    AllAlike R E (preorderAll ts) (preorderAll us) := by
  induction h with
  | nil => exact .nil
  | cons hcd _ ih => exact hcd.2.append ih
  | @extra b as bs hb hne _ ih =>
    rw [preorderAll, hb.preorder]
    refine .extra hb ?_ ih
    obtain ⟨a, as, rfl⟩ := List.exists_cons_of_ne_nil hne
    rw [preorderAll, preorder_eq]
    exact List.cons_ne_nil _ _

/-- Alike trees have alike trees inside. -/
theorem preorder (h : Alike R E t u) : AllAlike R E t.preorder u.preorder := by
  induction h using induct with
  | leaf h hk =>
    rw [Tree.preorder, Tree.preorder]
    exact .singleton (.leaf h hk)
  | node h hs ih ihs =>
    rw [Tree.preorder, Tree.preorder]
    refine .cons (.node h hs) ?_
    rw [preorderAll, preorderAll]
    exact ih.append (allPreorder (ihs.imp fun c d hcd => ⟨hcd.1, hcd.2⟩))

theorem preorderAll_alike (h : AllAlike R E ts us) :
    AllAlike R E (preorderAll ts) (preorderAll us) :=
  allPreorder (h.imp fun _ _ hcd => ⟨hcd, hcd.preorder⟩)

/-! ## First and last tokens -/

/-- Alike trees begin with related tokens, and they end with related tokens. -/
theorem ends (h : Alike R E t u) :
    (∃ a b, t.tokens.head? = some a ∧ u.tokens.head? = some b ∧ R a b) ∧
      ∃ a b, t.tokens.getLast? = some a ∧ u.tokens.getLast? = some b ∧ R a b := by
  induction h using induct with
  | leaf h hk =>
    rw [tokens_leaf, tokens_leaf]
    exact ⟨⟨_, _, rfl, rfl, h⟩, ⟨_, _, rfl, rfl, h⟩⟩
  | @node r k s s' c cs d ds h hs ih ihs =>
    obtain ⟨⟨a, b, ha, hb, hab⟩, hlast⟩ := ih
    rw [tokens_node, tokens_node]
    refine ⟨⟨a, b, ?_, ?_, hab⟩, ?_⟩
    · rw [tokensAll, List.head?_append, ha, Option.some_or]
    · rw [tokensAll, List.head?_append, hb, Option.some_or]
    · -- The last children are alike, as there is no comment more behind them.
      have hends := (Interleaved.cons (A := fun c d : Tree => ∃ a b, c.tokens.getLast? = some a ∧
        d.tokens.getLast? = some b ∧ R a b) hlast (ihs.imp fun _ _ hcd => hcd.2.2)).getLast?
      generalize hc : (c :: cs).getLast? = x at hends
      generalize hd : (d :: ds).getLast? = y at hends
      cases hends with
      | none => simp at hc
      | some hxy =>
        obtain ⟨a', b', ha', hb', hab'⟩ := hxy
        exact ⟨a', b', tokensAll_getLast? hc ha', tokensAll_getLast? hd hb', hab'⟩

end Tree.Alike

end Attest.Syntax
