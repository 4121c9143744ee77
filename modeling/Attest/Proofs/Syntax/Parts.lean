/-
  The parts that children play, and how nodes begin. No two children of a node play the same part,
  so it does not matter how the child that plays one is looked for (`Tree.Parted.filter_role`).
  Calls and members begin with the tree they grew from, and parentheses with their mark. Main
  statement (`Reads.parted`): so it is in all that is read, if the forms of the grammar keep to it.
-/
import Attest.Proofs.Syntax.Alike
import Attest.Proofs.Syntax.Endings
import Mathlib.Data.List.Nodup

namespace Attest.Syntax

open Syntax.Tree (preorderAll)

variable {ν : Type} {grammar : ν → Form ν} {rules : ν → Prop}

/-! ## Parts and openings -/

/-- The parts that the trees play by name. -/
def parts (xs : List Tree) : List Role := (xs.map Tree.role).filter (· != .plain)

/-- What is known of the first child of a node. -/
inductive Opening where
  | role (r : Role)
  | mark
deriving DecidableEq, Repr

def Opening.Allows : Opening → Tree → Prop
  | role r, t => t.role = r
  | mark, t => t.kind = .mark

def Kind.opening? : Kind → Option Opening
  | .call | .generic => some (.role .function)
  | .member => some (.role .value)
  | .paren => some .mark
  | _ => none

/-- The children of a node play different parts, and the first one is as its kind asks for. -/
def Tree.Parted : Tree → Prop
  | .leaf _ _ _ => True
  | .node _ k _ cs => (parts cs).Nodup ∧
      ∀ o, k.opening? = some o → ∃ first, cs.head? = some first ∧ o.Allows first

theorem Tree.Parted.withRole {t : Tree} (h : t.Parted) (r : Role) : (t.withRole r).Parted := by
  cases t with
  | leaf => trivial
  | node => exact h

theorem parts_append (xs ys : List Tree) : parts (xs ++ ys) = parts xs ++ parts ys := by
  rw [parts, List.map_append, List.filter_append, parts, parts]

theorem parts_singleton (t : Tree) : parts [t] = [t.role].filter (· != .plain) := rfl

theorem parts_eq_nil {xs : List Tree} (h : ∀ x ∈ xs, x.role = .plain) : parts xs = [] := by
  rw [parts, List.filter_eq_nil_iff]
  intro r hr
  obtain ⟨x, hx, rfl⟩ := List.mem_map.mp hr
  rw [h x hx]
  decide

theorem parts_sublist_of_sublist {xs ys : List Tree} (h : xs.Sublist ys) :
    (parts xs).Sublist (parts ys) :=
  (h.map _).filter _

/-! ## Children by part -/

theorem length_filter_role (r : Role) (hr : r ≠ .plain) (xs : List Tree) :
    (xs.filter fun c => c.role == r).length = (parts xs).count r := by
  rw [parts, List.count_filter (by simpa using hr), List.count, List.countP_map,
    List.countP_eq_length_filter]
  rfl

/-- The only child that plays a part is the one that is found. -/
theorem Tree.Parted.filter_role {t : Tree} (h : t.Parted) {r : Role} (hr : r ≠ .plain) :
    t.children.filter (fun c => c.role == r) = (t.child? r).toList := by
  have hcount : (t.children.filter fun c => c.role == r).length ≤ 1 := by
    cases t with
    | leaf => exact Nat.zero_le _
    | node =>
      rw [length_filter_role r hr]
      exact List.nodup_iff_count_le_one.mp h.1 r
  rw [Tree.child?, ← List.head?_filter]
  generalize t.children.filter (fun c => c.role == r) = found at hcount
  match found with
  | [] => rfl
  | [c] => rfl
  | c :: d :: cs => simp at hcount

theorem Tree.child?_of_head? {t first : Tree} {r : Role} (h : t.children.head? = some first)
    (hrole : first.role = r) : t.child? r = some first := by
  obtain ⟨rest, hrest⟩ := List.head?_eq_some_iff.mp h
  rw [Tree.child?, hrest, List.find?_cons_of_pos (by simpa using hrole)]

/-- A tree whose kind asks for an opening has one, if it has children at all. -/
theorem Tree.Parted.head?_of_opening? {t c : Tree} (h : t.Parted) {o : Opening}
    (ho : t.kind.opening? = some o) (hc : c ∈ t.children) :
    ∃ first, t.children.head? = some first ∧ o.Allows first := by
  cases t with
  | leaf => exact absurd hc List.not_mem_nil
  | node => exact h.2 o ho

/-- The child that plays the part of the opening is the first one. -/
theorem Tree.Parted.head?_eq_child? {t c : Tree} (h : t.Parted) {r : Role}
    (hopening : t.kind.opening? = some (.role r)) (hc : t.child? r = some c) :
    t.children.head? = some c := by
  obtain ⟨first, hfirst, hrole⟩ := h.head?_of_opening? hopening (Tree.mem_children_of_child? hc)
  rw [← hc, Tree.child?_of_head? hfirst hrole]
  exact hfirst

/-! ## One tree -/

/-- One tree behind comments. -/
def Lone (xs : List Tree) : Prop :=
  ∃ cs t, xs = cs ++ [t] ∧ (∀ c ∈ cs, c.isComment = true) ∧ t.isComment = false

theorem Lone.exists_not_isComment {xs : List Tree} (h : Lone xs) :
    ∃ x ∈ xs, x.isComment = false := by
  obtain ⟨cs, t, rfl, -, ht⟩ := h
  exact ⟨t, List.mem_append_right _ List.mem_cons_self, ht⟩

theorem label_of_isComment {r : Role} {cs : List Tree} (h : ∀ c ∈ cs, c.isComment = true) :
    Tree.label r cs = cs := by
  conv => rhs; rw [← List.map_id cs]
  exact List.map_congr_left fun c hc => if_pos (h c hc)

theorem label_append_singleton {r : Role} {cs : List Tree} {t : Tree}
    (hcs : ∀ c ∈ cs, c.isComment = true) (ht : t.isComment = false) :
    Tree.label r (cs ++ [t]) = cs ++ [t.withRole r] := by
  have hlabel := label_of_isComment (r := r) hcs
  rw [Tree.label] at hlabel
  rw [Tree.label, List.map_append, hlabel, List.map_singleton, ht]
  rfl

theorem lone_label {r : Role} {xs : List Tree} (h : Lone xs) : Lone (Tree.label r xs) := by
  obtain ⟨cs, t, rfl, hcs, ht⟩ := h
  refine ⟨cs, t.withRole r, label_append_singleton hcs ht, hcs, ?_⟩
  rwa [Tree.isComment, Tree.kind_withRole]

theorem lone_wrap {kind : List Tree → Kind} {xs : List Tree}
    (hxs : ∃ x ∈ xs, x.isComment = false) (hkind : ∀ ys, (kind ys).isComment = false) :
    Lone (Tree.wrap kind xs) := by
  obtain ⟨first, body, hbody⟩ := List.exists_cons_of_ne_nil (dropWhile_ne_nil hxs)
  obtain ⟨s, hs⟩ := Tree.wrap_of_cons kind hbody
  exact ⟨_, _, hs, fun c hc => List.all_eq_true.mp List.all_takeWhile c hc, hkind _⟩

/-- Besides comments the form reads one tree, if the rules do that are said to. -/
def Form.Lone (rules : ν → Prop) : Form ν → Prop
  | .token accepts kind => ∀ t, accepts t = true → (kind t).isComment = false
  | .alt first second => first.Lone rules ∧ second.Lone rules
  | .role _ form => form.Lone rules
  | .node kind form => (∀ xs, (kind xs).isComment = false) ∧ form.Solid
  | .grow base links => base.Lone rules ∧ ∀ l ∈ links, l.2.1.isComment = false
  | .rule name => rules name
  | .empty | .operator _ | .seq _ _ | .many _ | .unless _ => False

theorem Reads.lone (hg : ∀ name, rules name → (grammar name).Lone rules) {form : Form ν}
    {ts rest : List Token} {xs : List Tree} (h : Reads grammar form ts xs rest)
    (hf : form.Lone rules) : Syntax.Lone xs := by
  induction h with
  | token hc ht => exact ⟨_, _, rfl, isComment_of_mem_commentLeaves _, hf _ ht⟩
  | left _ ih => exact ih hf.1
  | right _ ih => exact ih hf.2
  | role _ ih => exact lone_label (ih hf)
  | node h ih => exact lone_wrap (h.solid hf.2) hf.1
  | base _ ih => exact ih hf.1
  | link _ hl _ ihb _ =>
    obtain ⟨x, hx, hcomment⟩ := (lone_label (ihb hf)).exists_not_isComment
    exact lone_wrap ⟨x, List.mem_append_left _ hx, hcomment⟩ fun _ => hf.2 _ hl
  | rule _ ih => exact ih (hg _ hf)
  | _ => exact hf.elim

/-! ## Parts that forms name -/

/-- The parts that the form names in the node around it. -/
def Form.parts : Form ν → List Role
  | .seq first second | .alt first second => first.parts ++ second.parts
  | .role r _ => [r]
  | .grow base _ => base.parts
  | .empty | .token _ _ | .operator _ | .many _ | .unless _ | .node _ _ | .rule _ => []

/-- Parts are named once: none is repeated, and what a part is given to is a single tree. -/
def Form.NamesOnce (rules : ν → Prop) : Form ν → Prop
  | .seq first second | .alt first second => first.NamesOnce rules ∧ second.NamesOnce rules
  | .many item => item.parts = [] ∧ item.NamesOnce rules
  | .role _ form => form.Lone rules ∧ form.NamesOnce rules
  | .grow base links => base.NamesOnce rules ∧
      ((∀ l ∈ links, l.2.2.1 = .plain) ∨ (Form.grow base links).Lone rules)
  | .empty | .token _ _ | .operator _ | .unless _ | .node _ _ | .rule _ => True

/-- The form begins with a mark. -/
def Form.OpensWithMark : Form ν → Prop
  | .seq (.token _ kind) _ => ∀ t, kind t = .mark
  | _ => False

/-- Every node names its parts once, and begins as its kind asks for. -/
def parting (rules : ν → Prop) : Condition ν where
  token _ _ := True
  node kind form := form.NamesOnce rules ∧ form.parts.Nodup ∧
    ∀ xs o, (kind xs).opening? = some o → o = .mark ∧ form.OpensWithMark
  link kind role form := form.NamesOnce rules ∧
    ([role].filter (· != .plain) ++ form.parts).Nodup ∧
    ∀ o, kind.opening? = some o → o = .role role ∧ role ≠ .plain

/-- Comments play no part. -/
def CommentsPlain (xs : List Tree) : Prop := ∀ x ∈ xs, x.isComment = true → x.role = .plain

namespace CommentsPlain

variable {xs ys : List Tree}

theorem append (hxs : CommentsPlain xs) (hys : CommentsPlain ys) : CommentsPlain (xs ++ ys) :=
  fun x hx => (List.mem_append.mp hx).elim (hxs x) (hys x)

theorem label (h : CommentsPlain xs) (r : Role) : CommentsPlain (Tree.label r xs) := by
  intro x hx hcomment
  obtain ⟨t, ht, rfl⟩ := List.mem_map.mp hx
  split at hcomment
  · next hc => rw [if_pos hc, h t ht hc]
  · next hc =>
    rw [Tree.isComment, Tree.kind_withRole] at hcomment
    exact absurd hcomment hc

theorem wrap (h : CommentsPlain xs) (kind : List Tree → Kind) :
    CommentsPlain (Tree.wrap kind xs) := by
  intro x hx hcomment
  rcases Tree.wrap_cases kind xs with heq | ⟨first, last, -, -, heq⟩
  · exact h x (heq ▸ hx) hcomment
  · rw [heq, List.mem_append, List.mem_singleton] at hx
    rcases hx with hx | rfl
    · exact h x ((List.takeWhile_prefix _).subset hx) hcomment
    · rfl

theorem of_forall (h : ∀ x ∈ xs, x.role = .plain) : CommentsPlain xs := fun x hx _ => h x hx

/-- What is given no part by name has none. -/
theorem role_label (h : CommentsPlain xs) : ∀ x ∈ Tree.label .plain xs, x.role = .plain := by
  intro x hx
  obtain ⟨t, ht, rfl⟩ := List.mem_map.mp hx
  split
  · next hc => exact h t ht hc
  · exact Tree.role_withRole _ t

/-- Where only comments are, no part is played. -/
theorem parts_eq_nil (h : CommentsPlain xs) {cs : List Tree}
    (hcs : ∀ c ∈ cs, c ∈ xs ∧ c.isComment = true) : parts cs = [] :=
  Syntax.parts_eq_nil fun c hc => h c (hcs c hc).1 (hcs c hc).2

theorem parts_label (h : CommentsPlain xs) (hlone : Lone xs) (r : Role) :
    parts (Tree.label r xs) = [r].filter (· != .plain) := by
  obtain ⟨cs, t, rfl, hcs, ht⟩ := hlone
  have hnil : parts cs = [] := h.parts_eq_nil fun c hc => ⟨List.mem_append_left _ hc, hcs c hc⟩
  rw [label_append_singleton hcs ht, parts_append, hnil, parts_singleton, Tree.role_withRole]
  rfl

/-- A new node plays no part, and neither do the comments in front of it. -/
theorem parts_wrap (h : CommentsPlain xs) (kind : List Tree → Kind) :
    parts (Tree.wrap kind xs) = [] := by
  cases hbody : xs.dropWhile Tree.isComment with
  | nil =>
    rw [Tree.wrap_of_nil kind hbody]
    exact h.parts_eq_nil fun c hc => ⟨hc, List.dropWhile_eq_nil_iff.mp hbody c hc⟩
  | cons first body =>
    obtain ⟨s, hs⟩ := Tree.wrap_of_cons kind hbody
    rw [hs, parts_append, h.parts_eq_nil fun c hc =>
      ⟨(List.takeWhile_prefix _).subset hc, List.all_eq_true.mp List.all_takeWhile c hc⟩]
    rfl

end CommentsPlain

theorem role_of_mem_leaves (kind : Token → Kind) (cs ts : List Token) :
    ∀ x ∈ cs.map commentLeaf ++ ts.map fun t => .leaf .plain (kind t) t, x.role = .plain := by
  intro x hx
  rw [List.mem_append, List.mem_map, List.mem_map] at hx
  rcases hx with ⟨t, -, rfl⟩ | ⟨t, -, rfl⟩
  · rfl
  · rfl

theorem Reads.commentsPlain {form : Form ν} {ts rest : List Token} {xs : List Tree}
    (h : Reads grammar form ts xs rest) : CommentsPlain xs := by
  induction h with
  | empty | stop | absent => exact fun x hx => absurd hx List.not_mem_nil
  | @token _ kind cs t => exact .of_forall (role_of_mem_leaves kind cs [t])
  | @operator _ cs marks => exact .of_forall (role_of_mem_leaves (fun _ => .mark) cs marks)
  | seq _ _ ihf ihs | more _ _ ihf ihs => exact ihf.append ihs
  | left _ ih | right _ ih | base _ ih | rule _ ih => exact ih
  | role _ ih => exact ih.label _
  | node _ ih => exact ih.wrap _
  | link _ _ _ ihb ihf => exact ((ihb.label _).append ihf).wrap _

/-- The parts that the trees play are named by the form. -/
theorem Reads.parts_sublist (hlone : ∀ name, rules name → (grammar name).Lone rules)
    (hnames : ∀ name, (grammar name).parts = [] ∧ (grammar name).NamesOnce rules) {form : Form ν}
    {ts rest : List Token} {xs : List Tree} (h : Reads grammar form ts xs rest)
    (hf : form.NamesOnce rules) : (parts xs).Sublist form.parts := by
  induction h with
  | empty | stop | absent => exact List.nil_sublist _
  | @token _ kind cs t =>
    have hplain := parts_eq_nil (role_of_mem_leaves kind cs [t])
    rw [List.map_singleton] at hplain
    rw [hplain]
    exact List.nil_sublist _
  | @operator _ cs marks =>
    rw [parts_eq_nil (role_of_mem_leaves (fun _ => .mark) cs marks)]
    exact List.nil_sublist _
  | seq _ _ ihf ihs =>
    rw [parts_append]
    exact (ihf hf.1).append (ihs hf.2)
  | left _ ih => exact (ih hf.1).trans (List.sublist_append_left _ _)
  | right _ ih => exact (ih hf.2).trans (List.sublist_append_right _ _)
  | more _ _ ihi ihm =>
    have hitem := ihi hf.2
    rw [hf.1, List.sublist_nil] at hitem
    rw [parts_append, hitem]
    exact ihm hf
  | role h _ =>
    rw [h.commentsPlain.parts_label (h.lone hlone hf.1)]
    exact List.filter_sublist
  | node h _ =>
    rw [h.commentsPlain.parts_wrap]
    exact List.nil_sublist _
  | base _ ih => exact ih hf.1
  | link hb _ hform =>
    rw [((hb.commentsPlain.label _).append hform.commentsPlain).parts_wrap]
    exact List.nil_sublist _
  | @rule name _ _ _ _ ih =>
    have hparts := ih (hnames name).2
    rwa [(hnames name).1] at hparts

/-! ## All nodes -/

/-- What a form that begins with a mark reads begins with it, behind comments. -/
theorem Reads.exists_mark {form : Form ν} {ts rest : List Token} {xs : List Tree}
    (h : Reads grammar form ts xs rest) (hf : form.OpensWithMark) :
    ∃ cs first body, xs = List.map commentLeaf cs ++ first :: body ∧ first.kind = .mark := by
  cases h with
  | @seq first _ _ _ _ ys _ hfirst _ =>
    cases hfirst with
    | @token accepts kind cs t _ hc ht =>
      exact ⟨cs, .leaf .plain (kind t) t, ys, by rw [List.append_assoc, List.singleton_append], hf t⟩
    | _ => exact hf.elim
  | _ => exact hf.elim

/-- The comments in front of a mark, and what they leave. -/
theorem comments_in_front (cs : List Token) {first : Tree} (h : first.kind = .mark)
    (body : List Tree) :
    (cs.map commentLeaf ++ first :: body).takeWhile Tree.isComment = cs.map commentLeaf ∧
      (cs.map commentLeaf ++ first :: body).dropWhile Tree.isComment = first :: body := by
  have hcs := isComment_of_mem_commentLeaves cs
  have hfirst : ¬ first.isComment = true := by
    rw [Tree.isComment, h]
    decide
  rw [List.takeWhile_append_of_pos hcs, List.dropWhile_append_of_pos hcs,
    List.takeWhile_cons_of_neg hfirst, List.dropWhile_cons_of_neg hfirst, List.append_nil]
  exact ⟨rfl, rfl⟩

theorem Reads.head?_of_opensWithMark {form : Form ν} {ts rest : List Token} {xs : List Tree}
    (h : Reads grammar form ts xs rest) (hf : form.OpensWithMark) :
    ∃ first, (xs.dropWhile Tree.isComment).head? = some first ∧ first.kind = .mark := by
  obtain ⟨cs, first, body, rfl, hmark⟩ := h.exists_mark hf
  exact ⟨first, by rw [(comments_in_front cs hmark body).2, List.head?_cons], hmark⟩

/-- What a tree has grown into begins with it. -/
theorem dropWhile_label_append {r : Role} {xs : List Tree} (h : Lone xs) (ys : List Tree) :
    ∃ first, (Tree.label r xs ++ ys).dropWhile Tree.isComment = first :: ys ∧ first.role = r := by
  obtain ⟨cs, t, rfl, hcs, ht⟩ := h
  refine ⟨t.withRole r, ?_, Tree.role_withRole r t⟩
  rw [label_append_singleton hcs ht, List.append_assoc, List.dropWhile_append_of_pos hcs,
    List.singleton_append, List.dropWhile_cons_of_neg]
  rwa [Tree.isComment, Tree.kind_withRole, Bool.not_eq_true]

section

variable (hlone : ∀ name, rules name → (grammar name).Lone rules)
  (hnames : ∀ name, (grammar name).parts = [] ∧ (grammar name).NamesOnce rules)
include hlone hnames

theorem Reads.parted_node {form : Form ν} {ts rest : List Token} {xs : List Tree}
    (h : Reads grammar form ts xs rest) {kind : List Tree → Kind}
    (hnode : (parting rules).node kind form) (ys : List Tree) (s : Text.Span) :
    (Tree.node .plain (kind ys) s (xs.dropWhile Tree.isComment)).Parted := by
  obtain ⟨hform, hnodup, hopening⟩ := hnode
  refine ⟨?_, fun o ho => ?_⟩
  · have hsub := parts_sublist_of_sublist (List.dropWhile_sublist Tree.isComment (l := xs))
    exact hnodup.sublist (hsub.trans (h.parts_sublist hlone hnames hform))
  · obtain ⟨rfl, hmark⟩ := hopening ys o ho
    exact h.head?_of_opensWithMark hmark

theorem Reads.parted_link {base form : Form ν} {ts mid rest : List Token} {xs ys : List Tree}
    (hb : Reads grammar base ts xs mid) (h : Reads grammar form mid ys rest) {kind : Kind}
    {role : Role} (hbase : role = .plain ∨ base.Lone rules)
    (hlink : (parting rules).link kind role form) (s : Text.Span) :
    (Tree.node .plain kind s
      ((Tree.label role xs ++ ys).dropWhile Tree.isComment)).Parted := by
  obtain ⟨hform, hnodup, hopening⟩ := hlink
  have hys := h.parts_sublist hlone hnames hform
  rcases hbase with rfl | hbase
  · have hparts : parts (Tree.label .plain xs ++ ys) = parts ys := by
      rw [parts_append, parts_eq_nil hb.commentsPlain.role_label, List.nil_append]
    have hsub := parts_sublist_of_sublist
      (List.dropWhile_sublist Tree.isComment (l := Tree.label .plain xs ++ ys))
    exact ⟨hnodup.sublist (hsub.trans (hparts ▸ hys)), fun o ho => absurd rfl (hopening o ho).2⟩
  · obtain ⟨first, hbody, hrole⟩ := dropWhile_label_append (r := role) (hb.lone hlone hbase) ys
    have hparts : parts (first :: ys) = [role].filter (· != .plain) ++ parts ys := by
      rw [← List.singleton_append, parts_append, parts_singleton, hrole]
    rw [hbody]
    refine ⟨?_, fun o ho => ⟨first, rfl, ?_⟩⟩
    · rw [hparts]
      exact hnodup.sublist ((List.Sublist.refl _).append hys)
    · rw [(hopening o ho).1]
      exact hrole

/-- In what is read the children of all nodes play different parts, and the first ones are as
their kinds ask for. -/
theorem Reads.parted (hg : ∀ name, (grammar name).Every (parting rules)) {form : Form ν}
    {ts rest : List Token} {xs : List Tree} (h : Reads grammar form ts xs rest)
    (hf : form.Every (parting rules)) (hform : form.NamesOnce rules) :
    ∀ u ∈ preorderAll xs, u.Parted := by
  induction h with
  | empty | stop | absent => exact fun u hu => absurd hu List.not_mem_nil
  | @token accepts kind cs t _ hc ht =>
    intro u hu
    rcases mem_preorderAll_leaves kind [t] hu with ⟨c, -, rfl⟩ | ⟨c, -, rfl⟩
    · trivial
    · trivial
  | operator hc =>
    intro u hu
    rcases mem_preorderAll_leaves (fun _ => .mark) _ hu with ⟨c, -, rfl⟩ | ⟨c, -, rfl⟩
    · trivial
    · trivial
  | seq _ _ ihf ihs =>
    rw [Form.Every] at hf
    exact Tree.forall_mem_append (ihf hf.1 hform.1) (ihs hf.2 hform.2)
  | left _ ih => rw [Form.Every] at hf; exact ih hf.1 hform.1
  | right _ ih => rw [Form.Every] at hf; exact ih hf.2 hform.2
  | more _ _ ihi ihm =>
    exact Tree.forall_mem_append (ihi (by rwa [Form.Every] at hf) hform.2) (ihm hf hform)
  | role _ ih =>
    rw [Form.Every] at hf
    exact Tree.forall_mem_label (ih hf hform.2) fun _ _ _ ht => ht.withRole _
  | node h ih =>
    rw [Form.Every] at hf
    exact Tree.forall_mem_wrap_body (ih hf.2 hf.1.1) (h.parted_node hlone hnames hf.1)
  | base _ ih => rw [Form.Every] at hf; exact ih hf.1 hform.1
  | link hb hmem h ihb ihf =>
    have hlinks := hf
    rw [Form.Every, everyLink_iff] at hlinks
    obtain ⟨hlink, hevery⟩ := hlinks.2 _ hmem
    have hgrown := hform.2.imp_left fun hplain => hplain _ hmem
    refine Tree.forall_mem_wrap_body (Tree.forall_mem_append
      (Tree.forall_mem_label (ihb hf hform) fun _ _ _ ht => ht.withRole _)
      (ihf hevery hlink.1)) fun _ s => ?_
    exact hb.parted_link hlone hnames h hgrown hlink s
  | rule _ ih => exact ih (hg _) (hnames _).2

end

end Attest.Syntax
