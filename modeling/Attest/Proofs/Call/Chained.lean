/-
  Calls in one chain. A call is linked to one that is made on its result if it lies on the spine of
  what that one is called on; it is evaluated first. On a line the call that is evaluated last comes
  first all the same, and so it is tried first. Among the calls named on a row the order is that of
  evaluation, unless parentheses around the inner call are part of the chain: the outer call then
  starts earlier. Main statement, for all exact sources and so for all that are read
  (`Source.parse_exact`): `linked_calls_order`.
-/
import Attest.Proofs.Call.Order
import Attest.Proofs.Syntax.RustParts

namespace Attest.Call

open Syntax
open Syntax.Tree (preorderAll tokensAll)
open Text (Span)

/-! ## Spines -/

/-- What an expression is built on and is evaluated before it: what is called, what has a member or
an index, and what stands in parentheses. -/
def operand? (t : Tree) : Option Tree :=
  match t.kind with
  | .call | .generic => t.child? .function
  | .member => t.child? .value
  | .index | .try | .await => t.children.head?
  | .paren => t.children.find? Candidate.isArgument
  | _ => none

/-- The way from an expression down to one that it is built on, with the kinds of the expressions
that are passed. -/
inductive Spine : Tree → List Kind → Tree → Prop
  | here (t : Tree) : Spine t [] t
  | down {t u v : Tree} {passed : List Kind} (h : operand? t = some u) (hs : Spine u passed v) :
      Spine t (t.kind :: passed) v

/-- The first call lies on the spine of what the second one is called on. -/
def Linked (inner outer : Candidate) (passed : List Kind) : Prop :=
  ∃ receiver, outer.receiver? = some receiver ∧ Spine receiver passed inner.call

theorem mem_children_of_operand? {t u : Tree} (h : operand? t = some u) : u ∈ t.children := by
  unfold operand? at h
  split at h
  · exact Tree.mem_children_of_child? h
  · exact Tree.mem_children_of_child? h
  · exact Tree.mem_children_of_child? h
  · exact List.mem_of_head? h
  · exact List.mem_of_head? h
  · exact List.mem_of_head? h
  · exact List.mem_of_find?_eq_some h
  · contradiction

namespace Spine

variable {t u v : Tree} {ks ls : List Kind}

theorem mem (h : Spine t ks u) : u ∈ t.preorder := by
  induction h with
  | here t => exact Tree.mem_preorder_self t
  | down h _ ih =>
    exact Tree.mem_preorder.mpr (Or.inr ⟨_, mem_children_of_operand? h, ih⟩)

theorem mem_inside (h : Spine t ks u) (hks : ks ≠ []) : u ∈ preorderAll t.children := by
  cases h with
  | here => exact absurd rfl hks
  | down h hs => exact Tree.mem_preorderAll.mpr ⟨_, mem_children_of_operand? h, hs.mem⟩

theorem trans (htu : Spine t ks u) (huv : Spine u ls v) : Spine t (ks ++ ls) v := by
  induction htu with
  | here => exact huv
  | down h _ ih => exact .down h (ih huv)

end Spine

/-- From a call the way goes through the member that it calls to what that is called on. -/
theorem spine_receiver {method : String} {d : Candidate} {receiver : Tree}
    (hd : Candidate.ofTree? method d.call = some d) (h : d.receiver? = some receiver) :
    ∃ front, .paren ∉ .call :: front ∧ Spine d.call (.call :: front) receiver := by
  obtain ⟨-, hmember, -⟩ := Candidate.ofTree?_eq_some hd
  obtain ⟨hcall, hkind, hcallee⟩ := Candidate.memberOf?_eq_some hmember
  have hvalue : Spine d.member [.member] receiver := by
    have hdown : operand? d.member = some receiver := by
      rw [operand?, hkind]
      exact h
    have := Spine.down hdown (.here receiver)
    rwa [hkind] at this
  rcases hcallee with hf | ⟨g, hg, hgeneric, hf⟩
  · refine ⟨[.member], by decide, ?_⟩
    have hdown : operand? d.call = some d.member := by
      rw [operand?, hcall]
      exact hf
    have := Spine.down hdown hvalue
    rwa [hcall] at this
  · refine ⟨[.generic, .member], by decide, ?_⟩
    have hdown : operand? d.call = some g := by
      rw [operand?, hcall]
      exact hg
    have hdown' : operand? g = some d.member := by
      rw [operand?, hgeneric]
      exact hf
    have := Spine.down hdown (.down hdown' hvalue)
    rwa [hcall, hgeneric] at this

/-! ## Where expressions on a spine start -/

section

variable {s : Source} {t u : Tree}

theorem tight_of_mem_children (hs : s.Exact) (ht : t ∈ s.root.preorder) (hu : u ∈ t.children) :
    u.Tight := by
  refine hs.tight u (Tree.mem_preorderAll.mpr ?_)
  rcases Tree.mem_preorder.mp ht with rfl | ⟨c, hc, ht⟩
  · exact ⟨u, hu, Tree.mem_preorder_self u⟩
  · exact ⟨c, hc, Tree.mem_preorder_of_mem_children hu ht⟩

theorem tokens_eq_tokensAll (hu : u ∈ t.children) : t.tokens = tokensAll t.children := by
  cases t with
  | leaf => exact absurd hu List.not_mem_nil
  | node => exact Tree.tokens_node _ _ _ _

/-- A tree starts with its first child. -/
theorem start_head? (hs : s.Exact) (ht : t ∈ s.root.preorder) (hkind : t.kind ≠ .file)
    (h : t.children.head? = some u) : u.span.start = t.span.start := by
  obtain ⟨a, _, ha, -, hspan⟩ := hs.tight_of_mem ht hkind
  obtain ⟨b, hb, hstart⟩ := head?_tokensAll (fun c hc => tight_of_mem_children hs ht hc) h
  rw [tokens_eq_tokensAll (List.mem_of_head? h), hb] at ha
  rw [hstart, hspan, Option.some.inj ha]

/-- What stands behind the first child starts later. -/
theorem start_lt_of_tail (hs : s.Exact) (ht : t ∈ s.root.preorder) (hkind : t.kind ≠ .file)
    {first : Tree} {rest : List Tree} (hchildren : t.children = first :: rest) (hu : u ∈ rest) :
    t.span.start < u.span.start := by
  have hfirst : first ∈ t.children := hchildren ▸ List.mem_cons_self
  have hmem : u ∈ t.children := hchildren ▸ List.mem_cons_of_mem _ hu
  obtain ⟨a, _, ha, -, hfirstspan⟩ := tight_of_mem_children hs ht hfirst
  obtain ⟨b, _, hb, -, hspan⟩ := tight_of_mem_children hs ht hmem
  have hplaced : a.Placed s.text.toList :=
    hs.wellFormed.placed_of_mem_tokens (Tree.mem_preorder_of_mem_children hfirst ht)
      (List.mem_of_mem_head? ha)
  have hord := List.Pairwise.sublist (Tree.tokens_sublist ht) hs.ordered
  rw [tokens_eq_tokensAll hfirst, hchildren, tokensAll] at hord
  have hle := (List.pairwise_append.mp hord).2.2 a (List.mem_of_mem_head? ha) b
    ((Tree.tokens_sublist_tokensAll hu).subset (List.mem_of_mem_head? hb))
  have hstart := start_head? hs ht hkind (u := first) (by rw [hchildren]; rfl)
  have hsize := hplaced.start_lt_stop
  rw [hfirstspan] at hstart
  rw [← hstart, hspan]
  exact Nat.lt_of_lt_of_le hsize hle

theorem start_operand? (hs : s.Exact) (ht : t ∈ s.root.preorder) (h : operand? t = some u) :
    (t.kind ≠ .paren → u.span.start = t.span.start) ∧
      (t.kind = .paren → t.span.start < u.span.start) := by
  have hparted := hs.parted t ht
  by_cases hparen : t.kind = .paren
  · refine ⟨absurd hparen, fun _ => ?_⟩
    have hmem := mem_children_of_operand? h
    rw [operand?, hparen] at h
    obtain ⟨first, hfirst, hmark⟩ := hparted.head?_of_opening? (by rw [hparen]; rfl) hmem
    obtain ⟨rest, hchildren⟩ := List.head?_eq_some_iff.mp hfirst
    refine start_lt_of_tail hs ht (by rw [hparen]; decide) hchildren ?_
    -- The mark is no expression.
    have hnot : first.isNamed = false := by
      rw [Tree.isNamed, hmark]
      rfl
    rw [hchildren, List.find?_cons_of_neg (by simp [Candidate.isArgument, hnot])] at h
    exact List.mem_of_find?_eq_some h
  · refine ⟨fun _ => ?_, fun hkind => absurd hkind hparen⟩
    have hhead : t.children.head? = some u := by
      unfold operand? at h
      split at h
      · next hkind => exact hparted.head?_eq_child? (by rw [hkind]; rfl) h
      · next hkind => exact hparted.head?_eq_child? (by rw [hkind]; rfl) h
      · next hkind => exact hparted.head?_eq_child? (by rw [hkind]; rfl) h
      · exact h
      · exact h
      · exact h
      · contradiction
      · contradiction
    refine start_head? hs ht (fun hkind => ?_) hhead
    rw [operand?, hkind] at h
    contradiction

/-- On a spine all expressions start together, but for those in parentheses. -/
theorem Spine.start (hs : s.Exact) {ks : List Kind} (h : Spine t ks u)
    (ht : t ∈ s.root.preorder) :
    (.paren ∉ ks → u.span.start = t.span.start) ∧
      (.paren ∈ ks → t.span.start < u.span.start) := by
  induction h with
  | here => exact ⟨fun _ => rfl, fun hks => absurd hks List.not_mem_nil⟩
  | @down t u v ks hu _ ih =>
    have hstart := start_operand? hs ht hu
    have hrest := ih (Tree.mem_preorder_of_mem_children (mem_children_of_operand? hu) ht)
    rw [List.mem_cons, not_or]
    refine ⟨fun ⟨hkind, hks⟩ => (hrest.1 hks).trans (hstart.1 (Ne.symm hkind)), fun hpassed => ?_⟩
    by_cases hkind : t.kind = .paren
    · have := hstart.2 hkind
      by_cases hks : .paren ∈ ks
      · exact Nat.lt_trans this (hrest.2 hks)
      · rwa [hrest.1 hks]
    · rw [← hstart.1 hkind]
      exact hrest.2 (hpassed.resolve_left (Ne.symm hkind))

end

/-! ## The order of linked calls -/

/-- The inner one of two linked calls stands inside the outer one, and the way to it passes
parentheses exactly if the way from the receiver does. -/
theorem Linked.spine {method : String} {c d : Candidate} {passed : List Kind}
    (h : Linked c d passed) (hd : Candidate.ofTree? method d.call = some d) :
    c.call ∈ preorderAll d.call.children ∧
      ∃ ks, Spine d.call ks c.call ∧ (.paren ∈ ks ↔ .paren ∈ passed) := by
  obtain ⟨receiver, hreceiver, hspine⟩ := h
  obtain ⟨front, hfront, hcallee⟩ := spine_receiver hd hreceiver
  have hway := hcallee.trans hspine
  refine ⟨hway.mem_inside (by simp), _, hway, ?_⟩
  rw [List.mem_append]
  exact or_iff_right hfront

/-- Of two linked calls on a line the outer one comes first, although it is evaluated last. Among
those named on a row the inner one comes first, unless it is in parentheses on the way between them.
Whichever comes first is tried first: the other one is selected only if it is rejected. -/
theorem linked_calls_order {s : Source} (hs : s.Exact) (method : String) {c d : Candidate}
    {passed : List Kind} (h : Linked c d passed) :
    (∀ line, c ∈ onLine s method line → d ∈ onLine s method line →
      Precedes d c (onLine s method line) ∧
      ∀ expected, select expected (onLine s method line) = .ok (some c) →
        d.accepts expected = .ok false) ∧
    ∀ row, c ∈ anchored s method row → d ∈ anchored s method row →
      (.paren ∉ passed → Precedes c d (anchored s method row) ∧
        ∀ expected, select expected (anchored s method row) = .ok (some d) →
          c.accepts expected = .ok false) ∧
      (.paren ∈ passed → Precedes d c (anchored s method row) ∧
        ∀ expected, select expected (anchored s method row) = .ok (some c) →
          d.accepts expected = .ok false) := by
  have hwell := hs.wellFormed
  refine ⟨fun line hc hd => ?_, fun row hc hd => ?_⟩
  · obtain ⟨-, -, -, -, hdcall⟩ := (mem_onLine hwell).mp hd
    have horder := precedes_onLine hwell hs.once (h.spine hdcall).1 hc hd
    exact ⟨horder, fun expected => horder.rejects⟩
  · obtain ⟨hdroot, hdcall, -⟩ := mem_anchored.mp hd
    obtain ⟨hin, ks, hspine, hparen⟩ := h.spine hdcall
    have hstart := hspine.start hs hdroot
    rw [hparen] at hstart
    refine ⟨fun hpassed => ?_, fun hpassed => ?_⟩
    · have horder := precedes_anchored hwell hs.once hin hc hd (hstart.1 hpassed)
      exact ⟨horder, fun expected => horder.rejects⟩
    · have horder := precedes_anchored_of_ne hwell hs.once hin hc hd
        (Nat.ne_of_gt (hstart.2 hpassed))
      exact ⟨horder, fun expected => horder.rejects⟩

/-- Two calls of one method in a chain. -/
def twoInChain : String := "fn t() \x7b a.be(x).b.be(y); \x7d"

/-- Both searches find them. -/
theorem exists_linked : ∃ c d, Linked c d [.member] ∧
    (c ∈ onLine (.parse twoInChain) "be" 1 ∧ d ∈ onLine (.parse twoInChain) "be" 1) ∧
    c ∈ anchored (.parse twoInChain) "be" 0 ∧ d ∈ anchored (.parse twoInChain) "be" 0 := by
  have hs := Source.parse_wellFormed twoInChain
  have hspan : Text.lineSpan twoInChain 1 = some ⟨0, 27⟩ := by decide
  have hcheck : ((onLine (.parse twoInChain) "be" 1).head?.bind fun d => d.receiver?.bind fun r =>
      (operand? r).bind fun t => (Candidate.ofTree? "be" t).filter fun c => r.kind == .member &&
        liesIn ⟨0, 27⟩ t && c.nameRow? == some 0 && d.nameRow? == some 0).isSome = true := by
    decide +kernel
  obtain ⟨c, hc⟩ := Option.isSome_iff_exists.mp hcheck
  simp only [Option.bind_eq_some_iff, Option.filter_eq_some_iff, Bool.and_eq_true, beq_iff_eq] at hc
  obtain ⟨d, hd, r, hr, t, ht, hct, ⟨⟨hmember, hlies⟩, hcrow⟩, hdrow⟩ := hc
  obtain ⟨rfl, -⟩ := Candidate.ofTree?_eq_some hct
  have hdon := List.mem_of_head? hd
  obtain ⟨-, -, hdroot, -, hdcall⟩ := (mem_onLine hs).mp hdon
  have hlinked : Linked c d [.member] := ⟨r, hr, hmember ▸ .down ht (.here _)⟩
  have hcroot := Tree.mem_preorder_trans (hlinked.spine hdcall).2.choose_spec.1.mem hdroot
  exact ⟨c, d, hlinked, ⟨(mem_onLine hs).mpr ⟨_, hspan, hcroot, hlies, hct⟩, hdon⟩,
    mem_anchored.mpr ⟨hcroot, hct, hcrow⟩, mem_anchored.mpr ⟨hdroot, hdcall, hdrow⟩⟩

theorem linked_calls_order_twoInChain : (Source.parse twoInChain).Exact ∧
    ∃ c d, Linked c d [.member] ∧
    Precedes d c (onLine (.parse twoInChain) "be" 1) ∧
    Precedes c d (anchored (.parse twoInChain) "be" 0) := by
  obtain ⟨c, d, hlinked, ⟨hcon, hdon⟩, hc, hd⟩ := exists_linked
  have hs := Source.parse_exact twoInChain
  obtain ⟨honLine, hanchored⟩ := linked_calls_order hs "be" hlinked
  exact ⟨hs, c, d, hlinked, (honLine 1 hcon hdon).1, ((hanchored 0 hc hd).1 (by decide)).1⟩

/-- The call that is evaluated first is not always tried first. Of two calls that could both have
failed the one that is evaluated last is named. -/
theorem outer_call_may_precede : (¬ ∀ (text method : String) (c d : Candidate)
    (passed : List Kind), Linked c d passed →
      (∀ line, c ∈ onLine (.parse text) method line → d ∈ onLine (.parse text) method line →
        Precedes c d (onLine (.parse text) method line)) ∧
      ∀ row, c ∈ anchored (.parse text) method row → d ∈ anchored (.parse text) method row →
        Precedes c d (anchored (.parse text) method row)) ∧
    resolve (.parse twoInChain) "should" "be" 1 (.scalar (.int 5)) = .ok (some "a.b") := by
  refine ⟨fun hinnerFirst => ?_, by decide +kernel⟩
  have hs := Source.parse_wellFormed twoInChain
  obtain ⟨c, d, hlinked, ⟨hc, hd⟩, -⟩ := exists_linked
  obtain ⟨-, -, -, -, hdcall⟩ := (mem_onLine hs).mp hd
  have horder := precedes_onLine hs (Source.parse_tokens_nodup _) (hlinked.spine hdcall).1 hc hd
  exact horder.2 ((hinnerFirst _ _ c d _ hlinked).1 1 hc hd).1

end Attest.Call
