/-
  How nodes end. The last child of a call are its arguments, those end with a closing parenthesis,
  and an expression with a sign ends with its operand. Main statement (`Reads.ended`): so do all
  nodes that are read, if the forms of the grammar end as they are said to.
-/
import Attest.Proofs.Syntax.Forms
import Attest.Proofs.Syntax.Reading
import Mathlib.Data.List.Basic
import Mathlib.Data.List.TakeWhile

namespace Attest.Syntax

open Syntax.Tree (tokensAll preorderAll)

variable {ν : Type} {grammar : ν → Form ν}

/-! ## Last trees -/

/-- What is known of the last child of a node. -/
inductive Ending where
  | operand
  | arguments
  | closing
deriving DecidableEq, Repr

/-- A tree of this kind, with this token if it is a leaf, may be the last one. -/
def Ending.Allows : Ending → Kind → Option Token → Prop
  | operand, k, _ => k.isNamed = true ∧ k.isComment = false
  | arguments, k, t? => k = .arguments ∧ t? = none
  | closing, k, t? => k = .mark ∧ ∃ t, t? = some t ∧ t.isMark ")" = true

theorem Ending.Allows.isComment {e : Ending} {k : Kind} {t? : Option Token} (h : e.Allows k t?) :
    k.isComment = false := by
  cases e with
  | operand => exact h.2
  | arguments => rw [h.1]; rfl
  | closing => rw [h.1]; rfl

def Kind.ending? : Kind → Option Ending
  | .unary => some .operand
  | .call => some .arguments
  | .arguments => some .closing
  | _ => none

@[simp] theorem allows_operand_iff {k : Kind} {t? : Option Token} :
    Ending.operand.Allows k t? ↔ k.isNamed = true ∧ k.isComment = false := Iff.rfl

/-- The last of the trees is as it must be. -/
def EndsAs (e : Ending) (xs : List Tree) : Prop :=
  ∃ last, xs.getLast? = some last ∧ e.Allows last.kind last.token?

/-- A node ends as nodes of its kind must. -/
def Tree.Ended : Tree → Prop
  | .leaf _ _ _ => True
  | .node _ k _ cs => ∀ e, k.ending? = some e → EndsAs e cs

theorem Tree.Ended.withRole {t : Tree} (h : t.Ended) (r : Role) : (t.withRole r).Ended := by
  cases t with
  | leaf => trivial
  | node => exact h

theorem dropWhile_ne_nil {xs : List Tree} (h : ∃ x ∈ xs, x.isComment = false) :
    xs.dropWhile Tree.isComment ≠ [] := by
  obtain ⟨x, hx, hcomment⟩ := h
  intro hnil
  rw [List.dropWhile_eq_nil_iff.mp hnil x hx] at hcomment
  contradiction

namespace EndsAs

variable {e : Ending} {xs ys : List Tree}

theorem append (h : EndsAs e ys) : EndsAs e (xs ++ ys) := by
  obtain ⟨last, hlast, hallows⟩ := h
  refine ⟨last, ?_, hallows⟩
  rw [List.getLast?_append, hlast, Option.some_or]

theorem exists_not_isComment (h : EndsAs e xs) : ∃ x ∈ xs, x.isComment = false := by
  obtain ⟨last, hlast, hallows⟩ := h
  exact ⟨last, List.mem_of_getLast? hlast, hallows.isComment⟩

theorem label (h : EndsAs e xs) (r : Role) : EndsAs e (Tree.label r xs) := by
  obtain ⟨last, hlast, hallows⟩ := h
  have hcomment : last.isComment = false := hallows.isComment
  refine ⟨last.withRole r, ?_, ?_⟩
  · rw [Tree.label, List.getLast?_map, hlast, Option.map_some, hcomment]
    rfl
  · rwa [Tree.kind_withRole, Tree.token?_withRole]

/-- Comments in front do not matter. -/
theorem dropWhile (h : EndsAs e xs) : EndsAs e (xs.dropWhile Tree.isComment) := by
  obtain ⟨last, hlast, hallows⟩ := h
  refine ⟨last, ?_, hallows⟩
  have hne := dropWhile_ne_nil ⟨last, List.mem_of_getLast? hlast, hallows.isComment⟩
  rwa [← List.takeWhile_append_dropWhile (p := Tree.isComment) (l := xs),
    List.getLast?_append_of_ne_nil _ hne] at hlast

end EndsAs

/-- If more than comments are wrapped, the last tree is the new node. -/
theorem endsAs_wrap {e : Ending} {kind : List Tree → Kind} {xs : List Tree}
    (hxs : ∃ x ∈ xs, x.isComment = false) (hkind : ∀ ys, e.Allows (kind ys) none) :
    EndsAs e (Tree.wrap kind xs) := by
  obtain ⟨first, body, hbody⟩ := List.exists_cons_of_ne_nil (dropWhile_ne_nil hxs)
  obtain ⟨s, hs⟩ := Tree.wrap_of_cons kind hbody
  rw [hs]
  exact ⟨_, List.getLast?_concat, hkind _⟩

/-! ## Forms -/

/-- The form reads more than comments. -/
def Form.Solid : Form ν → Prop
  | .token accepts kind => ∀ t, accepts t = true → (kind t).isComment = false
  | .seq first second => first.Solid ∨ second.Solid
  | .alt first second => first.Solid ∧ second.Solid
  | .role _ form => form.Solid
  | .node kind form => (∀ xs, (kind xs).isComment = false) ∧ form.Solid
  | .grow base links => base.Solid ∧ ∀ l ∈ links, l.2.1.isComment = false
  | .empty | .operator _ | .many _ | .unless _ | .rule _ => False

theorem exists_wrap {kind : List Tree → Kind} {xs : List Tree}
    (hxs : ∃ x ∈ xs, x.isComment = false) (hkind : ∀ ys, (kind ys).isComment = false) :
    ∃ x ∈ Tree.wrap kind xs, x.isComment = false := by
  obtain ⟨first, body, hbody⟩ := List.exists_cons_of_ne_nil (dropWhile_ne_nil hxs)
  obtain ⟨s, hs⟩ := Tree.wrap_of_cons kind hbody
  rw [hs]
  exact ⟨_, List.mem_append_right _ List.mem_cons_self, hkind _⟩

theorem exists_label {r : Role} {xs : List Tree} (hxs : ∃ x ∈ xs, x.isComment = false) :
    ∃ x ∈ Tree.label r xs, x.isComment = false := by
  obtain ⟨x, hx, hcomment⟩ := hxs
  refine ⟨x.withRole r, List.mem_map.mpr ⟨x, hx, if_neg (by simp [hcomment])⟩, ?_⟩
  rwa [Tree.isComment, Tree.kind_withRole]

theorem Reads.solid {form : Form ν} {ts rest : List Token} {xs : List Tree}
    (h : Reads grammar form ts xs rest) (hf : form.Solid) : ∃ x ∈ xs, x.isComment = false := by
  induction h with
  | token hc ht => exact ⟨_, List.mem_append_right _ List.mem_cons_self, hf _ ht⟩
  | seq _ _ ihf ihs =>
    rcases hf with hf | hf
    · obtain ⟨x, hx, hcomment⟩ := ihf hf
      exact ⟨x, List.mem_append_left _ hx, hcomment⟩
    · obtain ⟨x, hx, hcomment⟩ := ihs hf
      exact ⟨x, List.mem_append_right _ hx, hcomment⟩
  | left _ ih => exact ih hf.1
  | right _ ih => exact ih hf.2
  | role _ ih => exact exists_label (ih hf)
  | node _ ih => exact exists_wrap (ih hf.2) hf.1
  | base _ ih => exact ih hf.1
  | link _ hl _ ihb _ =>
    obtain ⟨x, hx, hcomment⟩ := exists_label (ihb hf)
    exact exists_wrap ⟨x, List.mem_append_left _ hx, hcomment⟩ fun _ => hf.2 _ hl
  | _ => exact hf.elim

/-- The last tree that the form reads is as it must be, if that is so for the rules. -/
def Form.EndsAs (e : Ending) (rules : ν → Prop) : Form ν → Prop
  | .token accepts kind => ∀ t, accepts t = true → e.Allows (kind t) (some t)
  | .seq first .empty => first.EndsAs e rules
  | .seq _ second => second.EndsAs e rules
  | .alt first second => first.EndsAs e rules ∧ second.EndsAs e rules
  | .role _ form => form.EndsAs e rules
  | .node kind form => (∀ xs, e.Allows (kind xs) none) ∧ form.Solid
  | .grow base links => base.EndsAs e rules ∧ ∀ l ∈ links, e.Allows l.2.1 none
  | .rule name => rules name
  | .empty | .operator _ | .many _ | .unless _ => False

theorem Form.EndsAs.seq_second {e : Ending} {rules : ν → Prop} {first second : Form ν}
    (h : (Form.seq first second).EndsAs e rules) :
    second = .empty ∧ first.EndsAs e rules ∨ second.EndsAs e rules := by
  cases second with
  | empty => exact Or.inl ⟨rfl, h⟩
  | _ => exact Or.inr h

theorem Reads.endsAs {e : Ending} {rules : ν → Prop}
    (hg : ∀ name, rules name → (grammar name).EndsAs e rules) {form : Form ν}
    {ts rest : List Token} {xs : List Tree} (h : Reads grammar form ts xs rest)
    (hf : form.EndsAs e rules) : EndsAs e xs := by
  induction h with
  | token hc ht => exact ⟨_, List.getLast?_concat, hf _ ht⟩
  | @seq first second _ xs _ ys _ hfirst hsecond ihf ihs =>
    rcases hf.seq_second with ⟨rfl, hf⟩ | hf
    · cases hsecond
      rw [List.append_nil]
      exact ihf hf
    · exact (ihs hf).append
  | left _ ih => exact ih hf.1
  | right _ ih => exact ih hf.2
  | role _ ih => exact (ih hf).label _
  | node h ih => exact endsAs_wrap (h.solid hf.2) hf.1
  | base _ ih => exact ih hf.1
  | link _ hl _ ihb _ =>
    obtain ⟨x, hx, hcomment⟩ := exists_label (ihb hf).exists_not_isComment
    exact endsAs_wrap ⟨x, List.mem_append_left _ hx, hcomment⟩ fun _ => hf.2 _ hl
  | rule _ ih => exact ih (hg _ hf)
  | _ => exact hf.elim

/-- Every node and every link has the ending that its kind asks for. -/
def endings (rules : Ending → ν → Prop) : Condition ν where
  token _ _ := True
  node kind form := ∀ xs e, (kind xs).ending? = some e → form.EndsAs e (rules e)
  link kind _ form := ∀ e, kind.ending? = some e → form.EndsAs e (rules e)

theorem ended_node {k : Kind} {s : Text.Span} {xs : List Tree}
    (h : ∀ e, k.ending? = some e → EndsAs e xs) :
    (Tree.node .plain k s (xs.dropWhile Tree.isComment)).Ended :=
  fun e he => (h e he).dropWhile

theorem forall_ended_wrap {kind : List Tree → Kind} {xs : List Tree}
    (hxs : ∀ u ∈ preorderAll xs, u.Ended)
    (h : ∀ ys e, (kind ys).ending? = some e → EndsAs e xs) :
    ∀ u ∈ preorderAll (Tree.wrap kind xs), u.Ended :=
  Tree.forall_mem_wrap_body hxs fun ys _ => ended_node (h ys)

/-- In what is read all nodes end as they must. -/
theorem Reads.ended {rules : Ending → ν → Prop}
    (hrules : ∀ e name, rules e name → (grammar name).EndsAs e (rules e))
    (hg : ∀ name, (grammar name).Every (endings rules)) {form : Form ν} {ts rest : List Token}
    {xs : List Tree} (h : Reads grammar form ts xs rest) (hf : form.Every (endings rules)) :
    ∀ u ∈ preorderAll xs, u.Ended := by
  induction h with
  | empty => simp [preorderAll]
  | @token accepts kind cs t _ hc ht =>
    intro u hu
    rcases mem_preorderAll_leaves kind [t] hu with ⟨c, -, rfl⟩ | ⟨c, -, rfl⟩
    · trivial
    · trivial
  | operator hc =>
    intro u hu
    rcases mem_preorderAll_leaves (fun _ => .mark) _ hu with ⟨c, -, rfl⟩ | ⟨c, -, rfl⟩
    · trivial
    · trivial
  | seq _ _ ihf ihs =>
    rw [Form.Every] at hf
    exact Tree.forall_mem_append (ihf hf.1) (ihs hf.2)
  | left _ ih => rw [Form.Every] at hf; exact ih hf.1
  | right _ ih => rw [Form.Every] at hf; exact ih hf.2
  | stop => simp [preorderAll]
  | more _ _ ihi ihm => exact Tree.forall_mem_append (ihi (by rwa [Form.Every] at hf)) (ihm hf)
  | absent => simp [preorderAll]
  | role _ ih =>
    rw [Form.Every] at hf
    exact Tree.forall_mem_label (ih hf) fun _ _ _ ht => ht.withRole _
  | node h ih =>
    rw [Form.Every] at hf
    exact forall_ended_wrap (ih hf.2) fun ys e he => h.endsAs (hrules e) (hf.1 ys e he)
  | base _ ih => rw [Form.Every] at hf; exact ih hf.1
  | link _ hmem hform ihb ihf =>
    have hlinks := hf
    rw [Form.Every, everyLink_iff] at hlinks
    obtain ⟨hlink, hevery⟩ := hlinks.2 _ hmem
    refine forall_ended_wrap (Tree.forall_mem_append
      (Tree.forall_mem_label (ihb hf) fun _ _ _ ht => ht.withRole _) (ihf hevery)) fun _ e he => ?_
    exact (hform.endsAs (hrules e) (hlink e he)).append
  | rule _ ih => exact ih (hg _)

end Attest.Syntax
