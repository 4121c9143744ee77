/-
  Distinct trees. The trees inside a tree stand in its pre-order as they stand in their own
  (`preorder_sublist`). If no token stands in a tree twice, no tree with tokens does
  (`pairwise_preorder`), and in a source none does (`Source.parse_tokens_nodup`).
-/
import Attest.Proofs.Syntax.Source

namespace Attest.Syntax

open Syntax.Tree (tokensAll preorderAll)

namespace Tree

/-! ## Trees inside a tree -/

theorem preorder_sublist_preorderAll {t : Tree} {ts : List Tree} (ht : t ∈ ts) :
    t.preorder.Sublist (preorderAll ts) := by
  obtain ⟨front, back, rfl⟩ := List.append_of_mem ht
  rw [preorderAll_append, preorderAll]
  exact (List.sublist_append_left _ _).trans (List.sublist_append_right _ _)

theorem preorder_sublist {u t : Tree} (hu : u ∈ t.preorder) : u.preorder.Sublist t.preorder := by
  induction t using induct with
  | leaf r k tok =>
    rcases mem_preorder.mp hu with rfl | ⟨c, hc, -⟩
    · exact List.Sublist.refl _
    · exact absurd hc List.not_mem_nil
  | node r k s cs ih =>
    rcases mem_preorder.mp hu with rfl | ⟨c, hc, hu⟩
    · exact List.Sublist.refl _
    · rw [preorder]
      exact ((ih c hc hu).trans (preorder_sublist_preorderAll hc)).cons _

/-- A tree is not inside itself. -/
theorem ne_of_mem_preorderAll {u t : Tree} (hu : u ∈ preorderAll t.children) : u ≠ t := by
  rintro rfl
  obtain ⟨c, hc, hu⟩ := mem_preorderAll.mp hu
  have hlength := ((preorder_sublist hu).trans (preorder_sublist_preorderAll hc)).length_le
  rw [u.preorder_eq, List.length_cons] at hlength
  omega

/-! ## Distinct trees -/

theorem pairwise_preorderAll {ts : List Tree}
    (hts : ∀ t ∈ ts, t.preorder.Pairwise fun u v => u = v → u.tokens = [])
    (h : (tokensAll ts).Nodup) :
    (preorderAll ts).Pairwise fun u v => u = v → u.tokens = [] := by
  induction ts with
  | nil => exact List.Pairwise.nil
  | cons t ts ih =>
    rw [List.forall_mem_cons] at hts
    rw [tokensAll, List.nodup_append] at h
    rw [preorderAll, List.pairwise_append]
    refine ⟨hts.1, ih hts.2 h.2.1, ?_⟩
    -- A token of a tree that stood here and there would stand on both sides.
    rintro u hu v hv rfl
    obtain ⟨t', ht', hv⟩ := mem_preorderAll.mp hv
    rw [List.eq_nil_iff_forall_not_mem]
    intro tok htok
    have hthere := ((tokens_sublist hv).trans (tokens_sublist_tokensAll ht')).subset htok
    exact h.2.2 tok ((tokens_sublist hu).subset htok) tok hthere rfl

/-- If no token stands twice in a tree, only trees without tokens do. -/
theorem pairwise_preorder {t : Tree} (h : t.tokens.Nodup) :
    t.preorder.Pairwise fun u v => u = v → u.tokens = [] := by
  induction t using induct with
  | leaf r k tok =>
    rw [preorder]
    exact List.pairwise_singleton _ _
  | node r k s cs ih =>
    rw [tokens_node] at h
    have hcs (c) (hc : c ∈ cs) := ih c hc (h.sublist (tokens_sublist_tokensAll hc))
    rw [preorder, List.pairwise_cons]
    refine ⟨fun u hu heq => ?_, pairwise_preorderAll hcs h⟩
    exact absurd heq.symm (ne_of_mem_preorderAll (t := .node r k s cs) hu)

end Tree

/-! ## Sources -/

theorem Source.parse_tokens (text : String) : (Source.parse text).root.tokens = scan text := by
  rw [Source.parse, Tree.tokens_node, (parseTokens_spec (scan text)).1]

/-- Tokens take room and come one behind the other, so no token of a text stands in it twice. -/
theorem scan_nodup (text : String) : (scan text).Nodup := by
  refine (scan_ordered text).imp_of_mem fun ht _ hle => ?_
  rintro rfl
  exact absurd hle (Nat.not_le_of_lt (scan_placed ht).start_lt_stop)

theorem Source.parse_tokens_nodup (text : String) : (Source.parse text).root.tokens.Nodup := by
  rw [parse_tokens]
  exact scan_nodup text

end Attest.Syntax
