/-
  Cursors. A cursor stands at a tree inside another one and moves to the first child, to the next
  sibling or to the tree around it; where there is none it cannot move. `ahead` lists what a
  traversal in pre-order has still to come to. Main statements: at the root everything is ahead
  (`ahead_root`), the first child leaves out the tree itself (`ahead_of_firstChild?`), and going on
  behind the tree leaves out all that is inside it (`ahead_of_onward?`).
-/
import Attest.Syntax.Tree
import Attest.Proofs.Syntax.Tree

namespace Attest.Syntax

open Syntax.Tree (preorderAll)

/-- A place in a tree: the tree that stands there, the siblings behind it, and the trees around it
from the inside out, each with the siblings behind that one. -/
structure Cursor where
  tree : Tree
  behind : List Tree
  around : List (Tree × List Tree)

namespace Cursor

/-! ## Moves -/

def root (t : Tree) : Cursor := ⟨t, [], []⟩

def firstChild? (c : Cursor) : Option Cursor :=
  match c.tree.children with
  | [] => none
  | t :: ts => some ⟨t, ts, (c.tree, c.behind) :: c.around⟩

def nextSibling? (c : Cursor) : Option Cursor :=
  match c.behind with
  | [] => none
  | t :: ts => some ⟨t, ts, c.around⟩

def parent? (c : Cursor) : Option Cursor :=
  match c.around with
  | [] => none
  | (t, ts) :: outer => some ⟨t, ts, outer⟩

theorem around_of_parent? {c p : Cursor} (h : c.parent? = some p) :
    c.around = (p.tree, p.behind) :: p.around := by
  unfold parent? at h
  split at h
  · contradiction
  · next t ts outer haround =>
    obtain rfl := Option.some.inj h
    exact haround

/-- Goes to the next sibling, and where there is none climbs until a tree has one. -/
def onward? (c : Cursor) : Option Cursor :=
  match c.nextSibling? with
  | some next => some next
  | none =>
    match _h : c.parent? with
    | some p => p.onward?
    | none => none
termination_by c.around.length
decreasing_by simp [around_of_parent? _h]

/-! ## What is ahead -/

/-- The trees behind the one at the cursor, and those inside them. -/
def after (c : Cursor) : List Tree :=
  preorderAll c.behind ++ c.around.flatMap fun outer => preorderAll outer.2

/-- The tree at the cursor with the trees inside it, and what is behind them. -/
def ahead (c : Cursor) : List Tree := c.tree.preorder ++ c.after

theorem ahead_root (t : Tree) : (root t).ahead = t.preorder := by
  simp [ahead, after, root, preorderAll]

theorem ahead_eq_cons (c : Cursor) :
    c.ahead = c.tree :: (preorderAll c.tree.children ++ c.after) := by
  rw [ahead, Tree.preorder_eq, List.cons_append]

variable {c d : Cursor}

theorem ahead_of_firstChild? (h : c.firstChild? = some d) : c.ahead = c.tree :: d.ahead := by
  unfold firstChild? at h
  split at h
  · contradiction
  · next t ts hchildren =>
    obtain rfl := Option.some.inj h
    rw [ahead_eq_cons, hchildren, preorderAll]
    simp [ahead, after]

theorem children_of_firstChild?_none (h : c.firstChild? = none) : c.tree.children = [] := by
  unfold firstChild? at h
  split at h
  · next hchildren => exact hchildren
  · contradiction

theorem ahead_of_nextSibling? (h : c.nextSibling? = some d) : d.ahead = c.after := by
  unfold nextSibling? at h
  split at h
  · contradiction
  · next t ts hbehind =>
    obtain rfl := Option.some.inj h
    simp [ahead, after, hbehind, preorderAll]

/-- Without a next sibling only the trees around have something behind them. -/
theorem after_of_nextSibling?_none (h : c.nextSibling? = none) :
    c.after = ((c.parent?).map after).getD [] := by
  unfold nextSibling? at h
  split at h
  · next hbehind =>
    cases hparent : c.parent? with
    | none =>
      have haround : c.around = [] := by
        unfold parent? at hparent
        split at hparent
        · next haround => exact haround
        · contradiction
      simp [after, hbehind, haround, preorderAll]
    | some p => simp [after, hbehind, around_of_parent? hparent, preorderAll]
  · contradiction

theorem onward?_of_some (h : c.nextSibling? = some d) : c.onward? = some d := by
  rw [onward?, h]

theorem onward?_of_none (h : c.nextSibling? = none) : c.onward? = c.parent?.bind onward? := by
  rw [onward?, h]
  dsimp only
  split
  · next p hparent => rw [hparent, Option.bind_some]
  · next hparent => rw [hparent, Option.bind_none]

/-- Going on leads to the first tree behind the one at the cursor, if there is any. -/
theorem after_eq (c : Cursor) : c.after = (c.onward?.map ahead).getD [] := by
  induction c using onward?.induct with
  | case1 c next hnext =>
    rw [onward?_of_some hnext, Option.map_some, Option.getD_some, ahead_of_nextSibling? hnext]
  | case2 c hnone p hparent ih =>
    rw [after_of_nextSibling?_none hnone, onward?_of_none hnone, hparent, Option.bind_some,
      Option.map_some, Option.getD_some, ih]
  | case3 c hnone hparent =>
    rw [after_of_nextSibling?_none hnone, onward?_of_none hnone, hparent]
    rfl

theorem ahead_of_onward? (h : c.onward? = some d) : c.ahead = c.tree.preorder ++ d.ahead := by
  rw [ahead, after_eq, h, Option.map_some, Option.getD_some]

theorem ahead_of_onward?_none (h : c.onward? = none) : c.ahead = c.tree.preorder := by
  rw [ahead, after_eq, h, Option.map_none, Option.getD_none, List.append_nil]

end Cursor

end Attest.Syntax
