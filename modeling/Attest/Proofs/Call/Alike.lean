/-
  Calls in trees that are alike. Alike calls have alike arguments and receivers, so they are
  described by the same chain (`Candidate.Alike.chain_eq`) and their checks come out the same as
  far as their literals do (`Candidate.Alike.accepts_eq`). One thing may get in the way: the reader
  of literals looks at the first thing in parentheses, and that may be a comment.
-/
import Attest.Call.Resolve
import Attest.Proofs.Call.Scalar
import Attest.Proofs.Call.Search
import Attest.Proofs.Syntax.Alike
import Attest.Proofs.Syntax.Endings

namespace Attest.Call

open Syntax
open Syntax.Tree (preorderAll)

variable {R : Token → Token → Prop} {E : Token → Prop} {t u : Tree} {ts us : List Tree}

/-! ## Names -/

theorem namesAll_eq (h : Interleaved (fun c d : Tree => names d = names c) (IsExtra E) ts us) :
    namesAll us = namesAll ts := by
  induction h with
  | nil => rfl
  | cons hcd _ ih => rw [namesAll, namesAll, hcd, ih]
  | extra hb _ _ ih =>
    obtain ⟨t, -, rfl⟩ := hb
    have hcomment : names (commentLeaf t) = [] := by
      rw [commentLeaf, names]
      split <;> rfl
    rw [namesAll, hcomment, ih, List.nil_append]

/-- Alike trees hold the same names. -/
theorem names_eq_of_alike (hR : ∀ t u, R t u → t.Like u) (h : t.Alike R E u) :
    names u = names t := by
  induction h using Tree.Alike.induct with
  | @leaf r k t u h hk =>
    rw [names, names]
    by_cases hname : isNameKind k = true
    · have hword : t.kind = .word := by
        rw [isNameKind, Bool.or_eq_true, beq_iff_eq, beq_iff_eq] at hname
        rcases hname with rfl | rfl
        · exact hk .word rfl
        · exact hk .word rfl
      rw [(hR t u h).text_eq (by rw [hword]; rfl)]
    · rw [if_neg hname, if_neg hname]
  | @node r k s s' c cs d ds h hs ih ihs =>
    have hall := namesAll_eq (.cons ih (ihs.imp fun _ _ hcd => hcd.2))
    rw [names, names, hall]

/-! ## Literals -/

/-- The same literal, or two texts with related tokens. -/
inductive Literal.Alike (R : Token → Token → Prop) : Literal → Literal → Prop
  | refl (l : Literal) : Alike R l l
  | text {t u : Token} (h : R t u) (hk : t.kind = .text) :
      Alike R (.text t.text.toList) (.text u.text.toList)
  | rawText {t u : Token} (h : R t u) (hk : t.kind = .rawText) :
      Alike R (.rawText t.text.toList) (.rawText u.text.toList)

namespace Literal

theorem Alike.eq_of_text_eq (hR : ∀ t u, R t u → u.text = t.text) {l m : Literal}
    (h : Alike R l m) : m = l := by
  cases h with
  | refl => rfl
  | text h => rw [hR _ _ h]
  | rawText h => rw [hR _ _ h]

/-- A minus sign goes in front of numbers only, and those are the same. -/
theorem negate?_alike {l m : Literal} (h : Alike R l m) :
    Option.Rel (Alike R) (negate? l) (negate? m) := by
  cases h with
  | refl l =>
    cases negate? l with
    | none => exact .none
    | some n => exact .some (.refl n)
  | text => exact .none
  | rawText => exact .none

theorem ofToken?_alike {k : Kind} {a b : Token} (hab : a.Like b) (h : R a b) (hk : k.Fits a) :
    Option.Rel (Alike R) (ofToken? k a.text) (ofToken? k b.text) := by
  have hsame (hlong : a.kind.isLong = false) :
      Option.Rel (Alike R) (ofToken? k a.text) (ofToken? k b.text) := by
    rw [hab.text_eq hlong]
    cases ofToken? k a.text with
    | none => exact .none
    | some l => exact .some (.refl l)
  cases k with
  | integer => exact hsame (by rw [hk .integer rfl]; rfl)
  | float => exact hsame (by rw [hk .float rfl]; rfl)
  | boolean => exact hsame (by rw [hk .word rfl]; rfl)
  | char => exact hsame (by rw [hk .char rfl]; rfl)
  | text => exact .some (.text h (hk .text rfl))
  | rawText => exact .some (.rawText h (hk .rawText rfl))
  | _ => exact .none

end Literal

/-- Who reads the tree as a literal comes upon one of the comments first: in parentheses the first
thing counts, and behind a sign the last one. -/
inductive Hidden (E : Token → Prop) : Tree → Prop
  | here {r s cs d} (hd : cs.find? Tree.isNamed = some d) (h : IsExtra E d) :
      Hidden E (.node r .paren s cs)
  | paren {r s cs d} (hd : cs.find? Tree.isNamed = some d) (h : Hidden E d) :
      Hidden E (.node r .paren s cs)
  | sign {r s cs d} (hd : (cs.filter Tree.isNamed).getLast? = some d) (h : Hidden E d) :
      Hidden E (.node r .unary s cs)

theorem not_hidden_of_no_extra (hE : ∀ e, ¬ E e) (t : Tree) : ¬ Hidden E t := by
  intro h
  induction h with
  | here _ h =>
    obtain ⟨e, he, -⟩ := h
    exact hE e he
  | paren _ _ ih => exact ih
  | sign _ _ ih => exact ih

theorem optionRel_bind {α β γ δ : Type} {A : α → β → Prop} {B : γ → δ → Prop} {a : Option α}
    {b : Option β} {f : α → Option γ} {g : β → Option δ} (h : Option.Rel A a b)
    (hfg : ∀ x ∈ a, ∀ y ∈ b, A x y → Option.Rel B (f x) (g y)) :
    Option.Rel B (a.bind f) (b.bind g) := by
  cases h with
  | none => exact .none
  | some hxy => exact hfg _ rfl _ rfl hxy

theorem ofTree?_commentLeaf (e : Token) : Literal.ofTree? (commentLeaf e) = none := by
  rw [commentLeaf, Literal.ofTree?]
  split <;> rfl

theorem getLast?_filter_isNamed {ts : List Tree} {last : Tree} (h : ts.getLast? = some last)
    (hnamed : last.isNamed = true) : (ts.filter Tree.isNamed).getLast? = some last := by
  obtain ⟨front, rfl⟩ := List.getLast?_eq_some_iff.mp h
  rw [List.filter_append, List.filter_cons_of_pos hnamed, List.filter_nil,
    List.getLast?_append, List.getLast?_singleton, Option.some_or]

theorem isMinus_eq_of_alike (hR : ∀ t u, R t u → t.Like u) {c d : Tree} (h : c.Alike R E d)
    (cs ds : List Tree) : Literal.isMinus (d :: ds) = Literal.isMinus (c :: cs) := by
  rw [Literal.isMinus, Literal.isMinus, Bool.eq_iff_iff, beq_iff_eq, beq_iff_eq]
  cases h with
  | leaf h => exact (hR _ _ h).text_eq_iff (by decide)
  | node => rfl

/-- Alike trees are alike literals or none. If a comment hides the second one, it is none. -/
theorem literal_alike (hR : ∀ t u, R t u → t.Like u) (h : t.Alike R E u)
    (hended : ∀ p ∈ t.preorder, p.Ended) :
    Option.Rel (Literal.Alike R) (Literal.ofTree? t) (Literal.ofTree? u) ∨
      Literal.ofTree? u = none ∧ Hidden E u := by
  induction h using Tree.Alike.induct with
  | @leaf r k a b h hk =>
    rw [Literal.ofTree?, Literal.ofTree?]
    exact Or.inl (Literal.ofToken?_alike (hR a b h) h hk)
  | @node r k s s' c cs d ds h hs ih ihs =>
    have hall : Interleaved (fun c d => c.Alike R E d ∧ ((∀ p ∈ c.preorder, p.Ended) →
        Option.Rel (Literal.Alike R) (Literal.ofTree? c) (Literal.ofTree? d) ∨
          Literal.ofTree? d = none ∧ Hidden E d)) (IsExtra E) (c :: cs) (d :: ds) :=
      .cons ⟨h, ih⟩ (ihs.imp fun _ _ hcd => ⟨hcd.1, hcd.2⟩)
    have hinner {x : Tree} (hx : x ∈ c :: cs) : ∀ p ∈ x.preorder, p.Ended :=
      fun p hp => hended p (Tree.mem_preorder_trans hp (Tree.mem_preorder_node hx))
    by_cases hunary : k = .unary
    · subst hunary
      obtain ⟨last, hlast, hnamed, -⟩ := hended _ (Tree.mem_preorder_self _) .operand rfl
      have hlasts := hall.getLast?
      rw [hlast] at hlasts
      generalize hlast' : (d :: ds).getLast? = y at hlasts
      cases hlasts with
      | @some _ last' hpair =>
      have hoperand := getLast?_filter_isNamed hlast' (hpair.1.isNamed_eq.trans hnamed)
      rw [ofTree?_unary, ofTree?_unary, isMinus_eq_of_alike hR h cs ds,
        getLast?_filter_isNamed hlast hnamed, hoperand]
      split
      · rcases hpair.2 (hinner (List.mem_of_getLast? hlast)) with hrel | ⟨hnone, hidden⟩
        · exact Or.inl (optionRel_bind hrel fun _ _ _ _ hlm => Literal.negate?_alike hlm)
        · refine Or.inr ⟨?_, .sign hoperand hidden⟩
          rw [Option.bind_some, hnone, Option.bind_none]
      · exact Or.inl .none
    · by_cases hparen : k = .paren
      · subst hparen
        rw [ofTree?_paren, ofTree?_paren]
        by_cases hextra : ∃ y ∈ (d :: ds).find? Tree.isNamed, IsExtra E y
        · obtain ⟨y, hy, hextra⟩ := hextra
          refine Or.inr ⟨?_, .here hy hextra⟩
          obtain ⟨e, -, rfl⟩ := hextra
          rw [Option.mem_def.mp hy, Option.bind_some, ofTree?_commentLeaf]
        · have hfirst := hall.find?_of_not_extra (p := Tree.isNamed) (q := Tree.isNamed)
            (fun _ _ hxy => hxy.1.isNamed_eq.symm)
            (fun _ hx => isNamed_of_isComment hx.isComment) fun y hy h => hextra ⟨y, hy, h⟩
          generalize hx : (c :: cs).find? Tree.isNamed = x at hfirst
          generalize hy : (d :: ds).find? Tree.isNamed = y at hfirst
          cases hfirst with
          | none => exact Or.inl .none
          | some hxy =>
            rw [Option.bind_some, Option.bind_some]
            rcases hxy.2 (hinner (List.mem_of_find?_eq_some hx)) with hrel | ⟨hnone, hidden⟩
            · exact Or.inl hrel
            · exact Or.inr ⟨hnone, .paren hy hidden⟩
      · rw [ofTree?_node hparen hunary, ofTree?_node hparen hunary]
        exact Or.inl .none

/-! ## Calls -/

/-- Alike calls of alike members. -/
structure Candidate.Alike (R : Token → Token → Prop) (E : Token → Prop) (c d : Candidate) :
    Prop where
  call : c.call.Alike R E d.call
  member : c.member.Alike R E d.member

namespace Candidate

theorem memberOf?_alike (h : t.Alike R E u) :
    Option.Rel (Tree.Alike R E) (memberOf? t) (memberOf? u) := by
  unfold memberOf?
  rw [h.kind_eq]
  split
  · have hfunction := h.child? (r := .function) (by decide)
    generalize t.child? .function = f at hfunction
    generalize u.child? .function = g at hfunction
    cases hfunction with
    | none => exact .none
    | @some f g hfg =>
      dsimp only
      rw [hfg.kind_eq]
      have hmember : Option.Rel (Tree.Alike R E)
          (if f.kind = .generic then f.child? .function else some f)
          (if f.kind = .generic then g.child? .function else some g) := by
        split
        · exact hfg.child? (by decide)
        · exact .some hfg
      generalize (if f.kind = .generic then f.child? .function else some f) = m at hmember
      generalize (if f.kind = .generic then g.child? .function else some g) = n at hmember
      cases hmember with
      | none => exact .none
      | some hmn =>
        dsimp only
        rw [hmn.kind_eq]
        split
        · exact .some hmn
        · exact .none
  · exact .none

/-- The names of alike members are equal: a field is a word or a number. -/
theorem fieldText?_eq (hR : ∀ t u, R t u → t.Like u) (h : t.Alike R E u)
    (hlawful : ∀ f ∈ t.children, f.Lawful) : fieldText? u = fieldText? t := by
  have hfield := h.child? (r := .field) (by decide)
  unfold fieldText?
  generalize ht : t.child? .field = f at hfield
  generalize u.child? .field = g at hfield
  cases hfield with
  | none => rfl
  | @some f g hfg =>
    have hf := hlawful f (Tree.mem_children_of_child? ht)
    obtain ⟨-, hkind⟩ := hf.field (Tree.role_of_child? ht)
    cases hfg with
    | @leaf r k a b hab hk =>
      have hshort : a.kind.isLong = false := by
        rcases hkind with hkind | hkind
        · obtain rfl : k = .fieldName := hkind
          rw [hk .word rfl]
          rfl
        · obtain rfl : k = .integer := hkind
          rw [hk .integer rfl]
          rfl
      exact congrArg some ((hR a b hab).text_eq hshort)
    | node => rfl

theorem ofTree?_alike (hR : ∀ t u, R t u → t.Like u) (h : t.Alike R E u)
    (hlawful : ∀ p ∈ t.preorder, p.Lawful) (method : String) :
    Option.Rel (Candidate.Alike R E) (ofTree? method t) (ofTree? method u) := by
  have hmember := memberOf?_alike h
  unfold ofTree?
  generalize hm : memberOf? t = m at hmember
  generalize memberOf? u = n at hmember
  cases hmember with
  | none => exact .none
  | @some m n hmn =>
    have hroot := member_mem (Tree.mem_preorder_self t) hm
    dsimp only
    rw [fieldText?_eq hR hmn fun f hf => hlawful f (Tree.mem_preorder_of_mem_children hf hroot)]
    split
    · exact .some ⟨h, hmn⟩
    · exact .none

namespace Alike

variable {c d : Candidate}

theorem arguments (h : c.Alike R E d) :
    List.Forall₂ (Tree.Alike R E) c.arguments d.arguments := by
  have harguments := h.call.child? (r := .arguments) (by decide)
  unfold Candidate.arguments
  generalize c.call.child? .arguments = as at harguments
  generalize d.call.child? .arguments = bs at harguments
  cases harguments with
  | none => exact .nil
  | some hab =>
    refine hab.children.filter (fun x y hxy => ?_) (fun y hy => ?_)
    · rw [isArgument, isArgument, hxy.isNamed_eq, hxy.isComment_eq, hxy.kind_eq]
    · rw [isArgument, hy.isComment, Bool.not_true, Bool.and_false, Bool.false_and]

/-- Alike calls are described alike. -/
theorem chain_eq (hR : ∀ t u, R t u → t.Like u) (h : c.Alike R E d) (entryPoint method : String) :
    d.chain entryPoint method = c.chain entryPoint method := by
  have hreceiver := h.member.child? (r := .value) (by decide)
  unfold chain receiver?
  generalize c.member.child? .value = x at hreceiver
  generalize d.member.child? .value = y at hreceiver
  cases hreceiver with
  | none => rfl
  | some hxy =>
    dsimp only
    rw [names_eq_of_alike hR hxy]

theorem nameRow?_eq (hrow : ∀ t u, R t u → u.row = t.row) (h : c.Alike R E d) :
    d.nameRow? = c.nameRow? := by
  have hfield := h.member.child? (r := .field) (by decide)
  unfold nameRow?
  generalize c.member.child? .field = x at hfield
  generalize d.member.child? .field = y at hfield
  cases hfield with
  | none => rfl
  | some hxy =>
    dsimp only
    rw [hxy.kind_eq]
    cases hxy with
    | leaf h => rw [Tree.token?, Tree.token?, Option.map_some, Option.map_some, hrow _ _ h]
    | node => rfl

end Alike

end Candidate

/-! ## Checks of arguments -/

theorem elements_alike (h : t.Alike R E u) :
    List.Forall₂ (Tree.Alike R E) (elements t) (elements u) := by
  refine h.children.filter (fun x y hxy => ?_) (fun y hy => ?_)
  · rw [hxy.isNamed_eq, hxy.isComment_eq]
  · rw [hy.isComment, Bool.not_true, Bool.and_false]

theorem dereferenced_alike (h : t.Alike R E u) :
    Option.Rel (Tree.Alike R E) (dereferenced t) (dereferenced u) := by
  unfold dereferenced
  rw [h.kind_eq]
  split
  · exact h.child? (by decide)
  · exact .some h

theorem sequenceArguments_alike (h : List.Forall₂ (Tree.Alike R E) ts us) :
    List.Forall₂ (Tree.Alike R E) (sequenceArguments ts) (sequenceArguments us) := by
  cases h with
  | nil => exact .nil
  | @cons t u ts us htu hs =>
    cases hs with
    | cons hxy hs => exact .cons htu (.cons hxy hs)
    | nil =>
      have harray := dereferenced_alike htu
      rw [sequenceArguments, sequenceArguments]
      generalize dereferenced t = a at harray
      generalize dereferenced u = b at harray
      cases harray with
      | none => exact .cons htu .nil
      | some hab =>
        dsimp only
        rw [hab.kind_eq]
        split
        · exact elements_alike hab
        · exact .cons htu .nil

namespace Candidate

/-- The expected values and the arguments that they are compared with. -/
def compared (c : Candidate) : Expected → List (Scalar × Tree)
  | .scalar v => if v.isDefault then [] else c.arguments.head?.toList.map (v, ·)
  | .sequence vs => vs.zip (sequenceArguments c.arguments)

/-- A call is accepted if all that is compared agrees. -/
theorem accepts_eq_acceptsAll (c : Candidate) (expected : Expected) :
    c.accepts expected = acceptsAll (c.compared expected) := by
  cases expected with
  | sequence vs => rfl
  | scalar v =>
    rw [accepts, compared]
    split
    · rfl
    · cases c.arguments with
      | nil => rfl
      | cons t ts =>
        show argumentAccepts t v = acceptsAll [(v, t)]
        rw [acceptsAll]
        cases argumentAccepts t v with
        | error o => rfl
        | ok b => cases b <;> rfl

/-- What is compared are trees inside the call. -/
theorem mem_preorder_of_mem_compared {c : Candidate} {expected : Expected} {p : Scalar × Tree}
    (h : p ∈ c.compared expected) : p.2 ∈ c.call.preorder := by
  have harguments : ∀ t ∈ c.arguments, t ∈ c.call.preorder := fun t ht =>
    mem_preorder_of_mem_arguments (Tree.mem_preorder_self _) ht
  cases expected with
  | scalar v =>
    rw [compared] at h
    split at h
    · contradiction
    · obtain ⟨t, ht, rfl⟩ := List.mem_map.mp h
      exact harguments t (List.mem_of_mem_head? (Option.mem_toList.mp ht))
  | sequence vs =>
    exact mem_preorder_of_mem_sequenceArguments harguments (List.of_mem_zip h).2

namespace Alike

variable {c d : Candidate}

/-- The same values are compared with alike arguments. -/
theorem compared (h : c.Alike R E d) (expected : Expected) :
    List.Forall₂ (fun p q : Scalar × Tree => q.1 = p.1 ∧ p.2.Alike R E q.2)
      (c.compared expected) (d.compared expected) := by
  cases expected with
  | scalar v =>
    rw [Candidate.compared, Candidate.compared]
    split
    · exact .nil
    · have hargs := h.arguments
      generalize c.arguments = xs at hargs
      generalize d.arguments = ys at hargs
      cases hargs with
      | nil => exact .nil
      | cons hxy => exact .cons ⟨rfl, hxy⟩ .nil
  | sequence vs =>
    rw [Candidate.compared, Candidate.compared]
    have hargs := sequenceArguments_alike h.arguments
    generalize sequenceArguments c.arguments = xs at hargs
    generalize sequenceArguments d.arguments = ys at hargs
    induction hargs generalizing vs with
    | nil => simp
    | cons hxy _ ih =>
      cases vs with
      | nil => exact .nil
      | cons v vs => exact .cons ⟨rfl, hxy⟩ (ih vs)

/-- The checks of alike calls come out the same, if those of what they compare do. -/
theorem accepts_eq {expected : Expected} (h : c.Alike R E d)
    (hsame : ∀ p q, (p, q) ∈ (c.compared expected).zip (d.compared expected) → q.1 = p.1 →
      p.2.Alike R E q.2 → argumentAccepts q.2 q.1 = argumentAccepts p.2 p.1) :
    d.accepts expected = c.accepts expected := by
  rw [accepts_eq_acceptsAll, accepts_eq_acceptsAll]
  have hpairs := h.compared expected
  generalize c.compared expected = ps at hpairs hsame
  generalize d.compared expected = qs at hpairs hsame
  induction hpairs with
  | nil => rfl
  | @cons p q ps qs hpq _ ih =>
    obtain ⟨v, t⟩ := p
    obtain ⟨w, u⟩ := q
    have hhead := hsame _ _ List.mem_cons_self hpq.1 hpq.2
    dsimp only at hhead
    rw [acceptsAll, acceptsAll, hhead, ih fun p q hpq =>
      hsame p q (List.mem_cons_of_mem _ hpq)]

end Alike

end Candidate

/-- What literals denote decides the check of an argument. -/
theorem argumentAccepts_eq_of_alike {v : Scalar}
    (h : Option.Rel (Literal.Alike R) (Literal.ofTree? t) (Literal.ofTree? u))
    (hdenotes : ∀ l m, Literal.ofTree? t = some l → Literal.Alike R l m →
      m.denotes v = l.denotes v) :
    argumentAccepts u v = argumentAccepts t v := by
  have hcompare : compare u v = compare t v := by
    unfold compare
    generalize Literal.ofTree? t = x at h hdenotes
    generalize Literal.ofTree? u = y at h
    cases h with
    | none => rfl
    | @some l m hlm =>
      dsimp only
      rw [hdenotes l m rfl hlm]
  unfold argumentAccepts
  split
  · rfl
  · rw [hcompare]

/-- A comment in the second call hides an argument that contradicts its value. -/
def HidesContradiction (E : Token → Prop) (expected : Expected) (c d : Candidate) : Prop :=
  ∃ pq ∈ (c.compared expected).zip (d.compared expected),
    argumentAccepts pq.1.2 pq.1.1 ≠ .ok true ∧ Hidden E pq.2.2

theorem not_hidesContradiction_of_no_extra (hE : ∀ e, ¬ E e) (expected : Expected)
    (c d : Candidate) : ¬ HidesContradiction E expected c d := by
  rintro ⟨pq, -, -, hidden⟩
  exact not_hidden_of_no_extra hE _ hidden

/-- The checks of alike calls come out the same, if no comment hides a contradiction, and related
literals denote the same. -/
theorem Candidate.Alike.accepts_eq_of_denotes (hR : ∀ t u, R t u → t.Like u) {c d : Candidate}
    (h : c.Alike R E d) (hended : ∀ p ∈ c.call.preorder, p.Ended) {expected : Expected}
    (hidden : ¬ HidesContradiction E expected c d)
    (hdenotes : ∀ p ∈ c.compared expected, ∀ l m, Literal.ofTree? p.2 = some l →
      Literal.Alike R l m → m.denotes p.1 = l.denotes p.1) :
    d.accepts expected = c.accepts expected := by
  refine h.accepts_eq fun p q hpq hvalue halike => ?_
  have hp := (List.of_mem_zip hpq).1
  have hinner : ∀ x ∈ p.2.preorder, x.Ended := fun x hx =>
    hended x (Tree.mem_preorder_trans hx (mem_preorder_of_mem_compared hp))
  rcases literal_alike hR halike hinner with hrel | ⟨hnone, hhidden⟩
  · rw [hvalue]
    exact argumentAccepts_eq_of_alike hrel (hdenotes p hp)
  · rw [argumentAccepts_of_not_read hnone]
    by_contra hne
    exact hidden ⟨(p, q), hpq, Ne.symm hne, hhidden⟩

/-! ## Selection -/

/-- Alike candidates with the same checks give the same chain. -/
theorem select_chain_eq (hR : ∀ t u, R t u → t.Like u) {expected : Expected}
    {cs ds : List Candidate} (h : List.Forall₂ (Candidate.Alike R E) cs ds)
    (haccepts : ∀ c d, (c, d) ∈ cs.zip ds → c.Alike R E d →
      d.accepts expected = c.accepts expected)
    (entryPoint method : String) :
    (select expected ds).map (Option.map (·.chain entryPoint method)) =
      (select expected cs).map (Option.map (·.chain entryPoint method)) := by
  induction h with
  | nil => rfl
  | @cons c d cs ds hcd _ ih =>
    have hrest := ih fun c' d' h' => haccepts c' d' (List.mem_cons_of_mem _ h')
    rw [select, select, haccepts c d List.mem_cons_self hcd]
    cases c.accepts expected with
    | error o => rfl
    | ok b =>
      cases b with
      | false => exact hrest
      | true =>
        show Except.ok (some (d.chain entryPoint method)) = .ok (some (c.chain entryPoint method))
        rw [hcd.chain_eq hR]

/-- So sources with alike candidates and the same checks give the same answer. -/
theorem resolve_eq_of_alike (hR : ∀ t u, R t u → t.Like u) {s s' : Source} {method : String}
    {line line' : Nat} {expected : Expected}
    (h : List.Forall₂ (Candidate.Alike R E) (candidates s method line)
      (candidates s' method line'))
    (haccepts : ∀ c d, (c, d) ∈ (candidates s method line).zip (candidates s' method line') →
      c.Alike R E d → d.accepts expected = c.accepts expected) (entryPoint : String) :
    resolve s' entryPoint method line' expected = resolve s entryPoint method line expected :=
  select_chain_eq hR h haccepts entryPoint method

end Attest.Call
