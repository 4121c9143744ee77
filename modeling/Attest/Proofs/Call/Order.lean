/-
  The order of candidates. Sorting by start keeps candidates in their order unless it puts an earlier
  start in front (`pair_sublist_sortByStart`, `pair_sublist_sortByStart_of_lt`). No call is found
  twice, and of two calls one of which is inside the other the outer one comes first on a line
  (`precedes_onLine`); among those named on a row it does unless both start together
  (`precedes_anchored`, `precedes_anchored_of_ne`).
-/
import Attest.Proofs.Call.Search
import Attest.Proofs.Call.Selection
import Attest.Proofs.Syntax.Distinct
import Mathlib.Data.List.Induction

namespace Attest.Call

open Syntax
open Syntax.Tree (preorderAll)
open Text (Span)

variable {c d : Candidate} {cs : List Candidate}

/-! ## Order in a list -/

/-- The first candidate stands in front of the second one, and not also behind it. -/
def Precedes (c d : Candidate) (cs : List Candidate) : Prop :=
  [c, d].Sublist cs ∧ ¬ [d, c].Sublist cs

theorem Precedes.of_nodup (hcs : cs.Nodup) (h : [c, d].Sublist cs) : Precedes c d cs := by
  refine ⟨h, fun hback => ?_⟩
  obtain ⟨front, back, rfl, hc, hd⟩ := List.cons_sublist_iff.mp h
  obtain ⟨front', back', heq, hd', hc'⟩ := List.cons_sublist_iff.mp hback
  rw [List.singleton_sublist] at hd hc'
  have hdisjoint := (List.nodup_append.mp hcs).2.2
  rcases List.append_eq_append_iff.mp heq with ⟨middle, rfl, rfl⟩ | ⟨middle, rfl, rfl⟩
  · exact hdisjoint c hc c (List.mem_append_right _ hc') rfl
  · exact hdisjoint d (List.mem_append_left _ hd') d hd rfl

/-- A candidate is selected only if those in front of it are rejected. -/
theorem Precedes.rejects {expected : Expected} (h : Precedes c d cs)
    (hselect : select expected cs = .ok (some d)) : c.accepts expected = .ok false := by
  obtain ⟨front, back, rfl, hfront, -⟩ := select_eq_some_iff.mp hselect
  obtain ⟨hcd, hdc⟩ := h
  have hc := hcd.subset List.mem_cons_self
  rcases List.mem_append.mp hc with hc | hc
  · exact hfront c hc
  · refine absurd ?_ hdc
    rcases List.mem_cons.mp hc with rfl | hc
    · exact hcd
    · exact ((List.singleton_sublist.mpr hc).cons_cons d).trans (List.sublist_append_right _ _)

/-! ## Sorting -/

theorem sublist_insertByStart (c : Candidate) (ds : List Candidate) :
    ds.Sublist (insertByStart c ds) := by
  induction ds with
  | nil => exact List.nil_sublist _
  | cons d ds ih =>
    rw [insertByStart]
    split
    · exact List.sublist_cons_self _ _
    · exact ih.cons_cons d

theorem insertByStart_pairwise {ds : List Candidate}
    (h : ds.Pairwise fun d e => d.start ≤ e.start) (c : Candidate) :
    (insertByStart c ds).Pairwise fun d e => d.start ≤ e.start := by
  induction ds with
  | nil => exact List.pairwise_singleton _ _
  | cons d ds ih =>
    rw [List.pairwise_cons] at h
    rw [insertByStart]
    split
    · next hlt =>
      refine List.pairwise_cons.mpr ⟨fun e he => ?_, List.pairwise_cons.mpr h⟩
      rcases List.mem_cons.mp he with rfl | he
      · exact Nat.le_of_lt hlt
      · exact Nat.le_trans (Nat.le_of_lt hlt) (h.1 e he)
    · next hge =>
      refine List.pairwise_cons.mpr ⟨fun e he => ?_, ih h.2⟩
      rcases List.mem_cons.mp ((insertByStart_perm c ds).mem_iff.mp he) with rfl | he
      · exact Nat.le_of_not_lt hge
      · exact h.1 e he

/-- In a sorted list a candidate is put behind all that start no later. -/
theorem pair_sublist_insertByStart {ds : List Candidate}
    (h : ds.Pairwise fun d e => d.start ≤ e.start) (hc : c ∈ ds) (hle : c.start ≤ d.start) :
    [c, d].Sublist (insertByStart d ds) := by
  induction ds with
  | nil => exact absurd hc List.not_mem_nil
  | cons e ds ih =>
    rw [List.pairwise_cons] at h
    have hd : d ∈ insertByStart d ds := (insertByStart_perm d ds).mem_iff.mpr List.mem_cons_self
    rw [insertByStart]
    split
    · next hlt =>
      rcases List.mem_cons.mp hc with rfl | hc
      · omega
      · have := h.1 c hc
        omega
    · rcases List.mem_cons.mp hc with rfl | hc
      · exact (List.singleton_sublist.mpr hd).cons_cons c
      · exact (ih h.2 hc).cons e

theorem sortByStart_concat (cs : List Candidate) (c : Candidate) :
    sortByStart (cs ++ [c]) = insertByStart c (sortByStart cs) := by
  rw [sortByStart, List.foldl_append]
  rfl

theorem sortByStart_pairwise (cs : List Candidate) :
    (sortByStart cs).Pairwise fun c d => c.start ≤ d.start := by
  induction cs using List.reverseRecOn with
  | nil => exact List.Pairwise.nil
  | append_singleton cs c ih =>
    rw [sortByStart_concat]
    exact insertByStart_pairwise ih c

/-- What comes later in the list does not change the order of what has been sorted. -/
theorem sortByStart_sublist_append (front back : List Candidate) :
    (sortByStart front).Sublist (sortByStart (front ++ back)) := by
  induction back using List.reverseRecOn with
  | nil => simp
  | append_singleton back c ih =>
    rw [← List.append_assoc, sortByStart_concat]
    exact ih.trans (sublist_insertByStart c _)

/-- Sorting keeps the order of two candidates that are not out of order. -/
theorem pair_sublist_sortByStart (h : [c, d].Sublist cs) (hle : c.start ≤ d.start) :
    [c, d].Sublist (sortByStart cs) := by
  obtain ⟨front, rest, rfl, hc, hd⟩ := List.cons_sublist_iff.mp h
  obtain ⟨middle, back, rfl⟩ := List.append_of_mem (List.singleton_sublist.mp hd)
  have hsplit : front ++ (middle ++ d :: back) = (front ++ middle ++ [d]) ++ back := by simp
  have hinsert : [c, d].Sublist (insertByStart d (sortByStart (front ++ middle))) :=
    pair_sublist_insertByStart (sortByStart_pairwise _)
      (mem_sortByStart.mpr (List.mem_append_left _ hc)) hle
  rw [← sortByStart_concat] at hinsert
  rw [hsplit]
  exact hinsert.trans (sortByStart_sublist_append _ back)

theorem pair_sublist_sortByStart_of_lt (hc : c ∈ cs) (hd : d ∈ cs) (hlt : c.start < d.start) :
    [c, d].Sublist (sortByStart cs) := by
  have hsorted := sortByStart_pairwise cs
  obtain ⟨front, back, heq⟩ := List.append_of_mem (mem_sortByStart.mpr hc)
  have hmem := mem_sortByStart.mpr hd
  rw [heq] at hsorted hmem ⊢
  rcases List.mem_append.mp hmem with hd | hd
  · have := (List.pairwise_append.mp hsorted).2.2 d hd c List.mem_cons_self
    omega
  · rcases List.mem_cons.mp hd with rfl | hd
    · exact absurd hlt (Nat.lt_irrefl _)
    · exact ((List.singleton_sublist.mpr hd).cons_cons c).trans (List.sublist_append_right _ _)

/-! ## Calls inside calls -/

/-- An outer tree comes before the trees inside it. -/
theorem pair_sublist_preorder {root t u : Tree} (ht : t ∈ root.preorder)
    (hu : u ∈ preorderAll t.children) : [t, u].Sublist root.preorder := by
  refine List.Sublist.trans ?_ (Tree.preorder_sublist ht)
  rw [Tree.preorder_eq]
  exact (List.singleton_sublist.mpr hu).cons_cons t

theorem postorder_eq (t : Tree) : postorder t = postorderAll t.children ++ [t] := by
  cases t <;> simp [postorder, postorderAll, Tree.children]

theorem postorder_sublist_postorderAll {t : Tree} {ts : List Tree} (ht : t ∈ ts) :
    (postorder t).Sublist (postorderAll ts) := by
  induction ts with
  | nil => exact absurd ht List.not_mem_nil
  | cons u ts ih =>
    rw [postorderAll]
    rcases List.mem_cons.mp ht with rfl | ht
    · exact List.sublist_append_left _ _
    · exact (ih ht).trans (List.sublist_append_right _ _)

theorem postorder_sublist {u t : Tree} (hu : u ∈ t.preorder) :
    (postorder u).Sublist (postorder t) := by
  induction t using Tree.induct with
  | leaf r k tok =>
    rcases Tree.mem_preorder.mp hu with rfl | ⟨c, hc, -⟩
    · exact List.Sublist.refl _
    · exact absurd hc List.not_mem_nil
  | node r k s cs ih =>
    rcases Tree.mem_preorder.mp hu with rfl | ⟨c, hc, hu⟩
    · exact List.Sublist.refl _
    · rw [postorder]
      exact ((ih c hc hu).trans (postorder_sublist_postorderAll hc)).trans
        (List.sublist_append_left _ _)

/-- In the other order it comes behind them. -/
theorem pair_sublist_postorder {root t u : Tree} (ht : t ∈ root.preorder)
    (hu : u ∈ preorderAll t.children) : [u, t].Sublist (postorder root) := by
  refine List.Sublist.trans ?_ (postorder_sublist ht)
  obtain ⟨c, hc, hu⟩ := Tree.mem_preorderAll.mp hu
  have hinside : u ∈ postorderAll t.children := mem_postorderAll.mpr ⟨c, hc, mem_postorder.mpr hu⟩
  rw [postorder_eq]
  exact (List.singleton_sublist.mpr hinside).append (List.Sublist.refl [t])

theorem postorderAll_perm {ts : List Tree} (h : ∀ t ∈ ts, (postorder t).Perm t.preorder) :
    (postorderAll ts).Perm (preorderAll ts) := by
  induction ts with
  | nil => exact List.Perm.refl _
  | cons t ts ih =>
    rw [List.forall_mem_cons] at h
    rw [postorderAll, preorderAll]
    exact h.1.append (ih h.2)

/-- Both orders run through each tree as often. -/
theorem postorder_perm (t : Tree) : (postorder t).Perm t.preorder := by
  induction t using Tree.induct with
  | leaf r k tok => rw [postorder, Tree.preorder]
  | node r k s cs ih =>
    rw [postorder, Tree.preorder]
    exact (List.perm_append_comm.trans ((postorderAll_perm ih).append_left [_]))

/-! ## No call is found twice -/

variable {s : Source} {method : String}

/-- A call has tokens, that of its name among them. -/
theorem tokens_ne_nil_of_ofTree? (hs : s.WellFormed) {t : Tree} (ht : t ∈ s.root.preorder)
    (h : Candidate.ofTree? method t = some c) : t.tokens ≠ [] := by
  obtain ⟨rfl, hmember, htext⟩ := Candidate.ofTree?_eq_some h
  obtain ⟨f, hf, -⟩ := Option.map_eq_some_iff.mp htext
  have hin : f ∈ c.call.preorder :=
    Tree.mem_preorder_of_mem_children (Tree.mem_children_of_child? hf)
      (Candidate.member_mem (Tree.mem_preorder_self _) hmember)
  have hleaf := ((hs.lawful f (Tree.mem_preorder_trans hin ht)).field (Tree.role_of_child? hf)).1
  obtain ⟨name, hname⟩ := Option.isSome_iff_exists.mp hleaf
  have htokens := Tree.tokens_sublist hin
  rw [Tree.eq_leaf_of_token? hname, Tree.tokens_leaf] at htokens
  exact List.ne_nil_of_mem (htokens.subset List.mem_cons_self)

/-- The calls of a method that a source holds are different ones. -/
theorem calls_nodup (hs : s.WellFormed) (honce : s.root.tokens.Nodup) (method : String) :
    (s.root.preorder.filterMap (Candidate.ofTree? method)).Nodup := by
  have hdistinct := (Tree.pairwise_preorder honce).imp_of_mem
    (S := fun t u => ∀ c, Candidate.ofTree? method t = some c → t ≠ u) fun ht _ h c hc heq =>
      tokens_ne_nil_of_ofTree? hs ht hc (h heq)
  refine hdistinct.filterMap _ fun t u hne c hc d hd heq => ?_
  obtain ⟨rfl, -⟩ := Candidate.ofTree?_eq_some hc
  obtain ⟨rfl, -⟩ := Candidate.ofTree?_eq_some hd
  exact hne c hc (congrArg Candidate.call heq)

theorem onLine_nodup (hs : s.WellFormed) (honce : s.root.tokens.Nodup) (method : String)
    (line : Nat) : (onLine s method line).Nodup := by
  rw [onLine, (sortByStart_perm _).nodup_iff]
  cases hspan : Text.lineSpan s.text line with
  | none =>
    rw [treesOnLine, hspan]
    exact List.nodup_nil
  | some span =>
    rw [treesOnLine_eq_filter hs hspan]
    exact (calls_nodup hs honce method).sublist (List.filter_sublist.filterMap _)

theorem anchored_nodup (hs : s.WellFormed) (honce : s.root.tokens.Nodup) (method : String)
    (row : Nat) : (anchored s method row).Nodup := by
  have hcalls := ((postorder_perm s.root).filterMap (Candidate.ofTree? method)).nodup_iff.mpr
    (calls_nodup hs honce method)
  rw [anchored, (sortByStart_perm _).nodup_iff]
  exact hcalls.sublist List.filter_sublist

/-! ## The order of calls inside calls -/

/-- A call inside another one starts no earlier. -/
theorem start_le_of_mem (hs : s.WellFormed) (hd : d.call ∈ s.root.preorder)
    (hin : c.call ∈ preorderAll d.call.children) : d.start ≤ c.start := by
  have hmem : c.call ∈ d.call.preorder := by
    rw [Tree.preorder_eq]
    exact List.mem_cons_of_mem _ hin
  exact (Span.contains_iff.mp ((hs.nested.of_mem hd).contains hmem)).1

/-- On a line an outer call comes in front of those inside it. -/
theorem precedes_onLine (hs : s.WellFormed) (honce : s.root.tokens.Nodup) {line : Nat}
    (hin : c.call ∈ preorderAll d.call.children)
    (hc : c ∈ onLine s method line) (hd : d ∈ onLine s method line) :
    Precedes d c (onLine s method line) := by
  refine .of_nodup (onLine_nodup hs honce method line) ?_
  obtain ⟨span, hspan, hdroot, hdlies, hdcall⟩ := (mem_onLine hs).mp hd
  obtain ⟨span', hspan', -, hclies, hccall⟩ := (mem_onLine hs).mp hc
  obtain rfl : span = span' := Option.some.inj (hspan.symm.trans hspan')
  have hpair := ((pair_sublist_preorder hdroot hin).filter (liesIn span)).filterMap
    (Candidate.ofTree? method)
  rw [onLine, treesOnLine_eq_filter hs hspan]
  refine pair_sublist_sortByStart ?_ (start_le_of_mem hs hdroot hin)
  simpa [hdlies, hclies, hdcall, hccall] using hpair

section

variable (hs : s.WellFormed) (honce : s.root.tokens.Nodup) {row : Nat}
  (hin : c.call ∈ preorderAll d.call.children) (hc : c ∈ anchored s method row)
  (hd : d ∈ anchored s method row)
include hs honce hin hc hd

/-- Among the calls named on a row an inner call comes first if both start together. -/
theorem precedes_anchored (hstart : c.start = d.start) :
    Precedes c d (anchored s method row) := by
  refine .of_nodup (anchored_nodup hs honce method row) ?_
  obtain ⟨hdroot, hdcall, hdrow⟩ := mem_anchored.mp hd
  obtain ⟨-, hccall, hcrow⟩ := mem_anchored.mp hc
  have hpair := ((pair_sublist_postorder hdroot hin).filterMap
    (Candidate.ofTree? method)).filter fun c => c.nameRow? == some row
  refine pair_sublist_sortByStart ?_ (Nat.le_of_eq hstart)
  simpa [hdcall, hccall, hdrow, hcrow] using hpair

/-- If the outer one starts earlier, it comes first. -/
theorem precedes_anchored_of_ne (hstart : c.start ≠ d.start) :
    Precedes d c (anchored s method row) := by
  refine .of_nodup (anchored_nodup hs honce method row) ?_
  have hle := start_le_of_mem hs (mem_anchored.mp hd).1 hin
  exact pair_sublist_sortByStart_of_lt (mem_sortByStart.mp hd) (mem_sortByStart.mp hc) (by omega)

end

end Attest.Call
