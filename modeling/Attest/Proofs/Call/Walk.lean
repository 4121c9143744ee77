/-
  The walk that collects the trees on a line. It goes from tree to tree, notes those that lie in the
  span of the line, and enters only trees that touch it. One turn keeps what will have been noted in
  the end (`turn_total`) and leaves fewer trees ahead (`turn_remaining`). Main statement
  (`treesOnLine_walked`): after as many turns as the tree has trees the walk has ended, and it has
  noted all trees of the pre-order that lie on the line, in their order.
-/
import Attest.Proofs.Call.Search
import Attest.Proofs.Syntax.Cursor
import Mathlib.Logic.Function.Iterate

namespace Attest.Call

open Syntax
open Syntax.Tree (preorderAll)
open Text (Span lineSpan)

/-! ## The walk -/

/-- A walk through a tree, under way at a place of it or ended, with the trees noted so far. -/
inductive Walk where
  | going (place : Cursor) (noted : List Tree)
  | ended (noted : List Tree)

namespace Walk

def start (root : Tree) : Walk := going (.root root) []

/-- Where the walk goes on: inside the tree if it touches the span and has children, or else behind
it. -/
def next? (span : Span) (place : Cursor) : Option Cursor :=
  match if place.tree.span.touches span then place.firstChild? else none with
  | some child => some child
  | none => place.onward?

def turn (span : Span) : Walk → Walk
  | going place noted =>
    let noted := if liesIn span place.tree then noted ++ [place.tree] else noted
    match next? span place with
    | some place => going place noted
    | none => ended noted
  | ended noted => ended noted

/-! ## One turn -/

/-- What is still ahead lies within the trees around it. -/
def Nested : Walk → Prop
  | going place _ => ∀ t ∈ place.ahead, ∀ c ∈ t.children, t.span.contains c.span = true
  | ended _ => True

/-- The trees that are ahead. -/
def remaining : Walk → Nat
  | going place _ => place.ahead.length
  | ended _ => 0

/-- The trees that have been noted and those ahead that lie in the span. -/
def total (span : Span) : Walk → List Tree
  | going place noted => noted ++ place.ahead.filter (liesIn span)
  | ended noted => noted

variable {span : Span} {w : Walk} {place next : Cursor}

/-- The walk does not look into trees that do not touch the span, and leaves hold nothing. -/
def Passes (span : Span) (t : Tree) : Prop := t.span.touches span = false ∨ t.children = []

theorem passes_of_not_entered
    (h : (if place.tree.span.touches span then place.firstChild? else none) = none) :
    Passes span place.tree := by
  split at h
  · exact Or.inr (Cursor.children_of_firstChild?_none h)
  · next htouches => exact Or.inl (Bool.eq_false_iff.mpr htouches)

/-- The walk goes on inside the tree, or behind it if it passes it. -/
theorem ahead_of_next? (h : next? span place = some next) :
    place.ahead = place.tree :: next.ahead ∨
      Passes span place.tree ∧ place.ahead = place.tree.preorder ++ next.ahead := by
  unfold next? at h
  split at h
  · next child hchild =>
    obtain rfl := Option.some.inj h
    split at hchild
    · exact Or.inl (Cursor.ahead_of_firstChild? hchild)
    · contradiction
  · next hchild => exact Or.inr ⟨passes_of_not_entered hchild, Cursor.ahead_of_onward? h⟩

theorem ahead_of_next?_none (h : next? span place = none) :
    Passes span place.tree ∧ place.ahead = place.tree.preorder := by
  unfold next? at h
  split at h
  · contradiction
  · next hchild => exact ⟨passes_of_not_entered hchild, Cursor.ahead_of_onward?_none h⟩

/-- Nothing that lies in the span is inside a tree that is passed. -/
theorem filter_preorder_of_passes {t : Tree} (hnested : t.WellNested) (h : Passes span t) :
    t.preorder.filter (liesIn span) = if liesIn span t then [t] else [] := by
  have hinside : (preorderAll t.children).filter (liesIn span) = [] := by
    rw [List.filter_eq_nil_iff]
    intro u hu hlies
    rcases h with htouches | hchildren
    · have hmem : u ∈ t.preorder := by
        rw [Tree.preorder_eq]
        exact List.mem_cons_of_mem _ hu
      rw [touches_of_liesIn (hnested.contains hmem) hlies] at htouches
      contradiction
    · rw [hchildren, preorderAll] at hu
      contradiction
  rw [Tree.preorder_eq, List.filter_cons, hinside]

theorem nested_suffix {noted noted' : List Tree} (h : (going place noted).Nested)
    (hahead : next.ahead <:+ place.ahead) : (going next noted').Nested :=
  fun t ht => h t (hahead.subset ht)

theorem ahead_suffix (h : next? span place = some next) : next.ahead <:+ place.ahead := by
  rcases ahead_of_next? h with hahead | ⟨-, hahead⟩
  · rw [hahead]
    exact List.suffix_cons _ _
  · rw [hahead]
    exact List.suffix_append _ _

theorem turn_nested (h : w.Nested) : (w.turn span).Nested := by
  cases w with
  | ended => exact h
  | going place noted =>
    unfold turn
    dsimp only
    split
    · next next hnext => exact nested_suffix h (ahead_suffix hnext)
    · trivial

theorem wellNested_tree {noted : List Tree} (h : (going place noted).Nested) :
    place.tree.WellNested :=
  fun t ht => h t (List.mem_append_left _ ht)

/-- A turn notes what is to be noted of what it leaves behind. -/
theorem turn_total (h : w.Nested) : (w.turn span).total span = w.total span := by
  cases w with
  | ended => rfl
  | going place noted =>
    have hhere : (if liesIn span place.tree then noted ++ [place.tree] else noted) =
        noted ++ if liesIn span place.tree then [place.tree] else [] := by
      split
      · rfl
      · rw [List.append_nil]
    unfold turn
    dsimp only
    rw [hhere]
    split
    · next next hnext =>
      rw [total, total, List.append_assoc]
      rcases ahead_of_next? hnext with hahead | ⟨hpasses, hahead⟩
      · rw [hahead, List.filter_cons]
        split <;> rfl
      · rw [hahead, List.filter_append, filter_preorder_of_passes (wellNested_tree h) hpasses]
    · next hnext =>
      obtain ⟨hpasses, hahead⟩ := ahead_of_next?_none hnext
      rw [total, total, hahead, filter_preorder_of_passes (wellNested_tree h) hpasses]

theorem turn_remaining (span : Span) (w : Walk) : (w.turn span).remaining ≤ w.remaining - 1 := by
  cases w with
  | ended => exact Nat.le_refl _
  | going place noted =>
    unfold turn
    dsimp only
    split
    · next next hnext =>
      have hsize := place.tree.preorder_eq
      rw [remaining, remaining]
      rcases ahead_of_next? hnext with hahead | ⟨-, hahead⟩
      · rw [hahead, List.length_cons]
        omega
      · rw [hahead, List.length_append, hsize, List.length_cons]
        omega
    · exact Nat.zero_le _

/-! ## The whole walk -/

/-- While a walk is under way, at least the tree at its place is ahead. -/
theorem eq_ended_of_remaining (span : Span) (h : w.remaining = 0) : w = ended (w.total span) := by
  cases w with
  | ended => rfl
  | going place noted =>
    rw [remaining, Cursor.ahead_eq_cons] at h
    contradiction

theorem iterate_turn (span : Span) (h : w.Nested) (turns : Nat) :
    ((turn span)^[turns] w).Nested ∧ ((turn span)^[turns] w).total span = w.total span ∧
      ((turn span)^[turns] w).remaining ≤ w.remaining - turns := by
  induction turns with
  | zero => exact ⟨h, rfl, Nat.le_refl _⟩
  | succ turns ih =>
    obtain ⟨hnested, htotal, hremaining⟩ := ih
    have hturn := turn_remaining span ((turn span)^[turns] w)
    rw [Function.iterate_succ_apply']
    exact ⟨turn_nested hnested, (turn_total hnested).trans htotal, by omega⟩

/-- A walk through a tree ends, and has then noted all trees in it that lie in the span. -/
theorem iterate_turn_start {root : Tree} (h : root.WellNested) :
    (turn span)^[root.preorder.length] (start root) = ended (root.preorder.filter (liesIn span)) := by
  have hstart : (start root).Nested := by
    intro t ht
    rw [Cursor.ahead_root] at ht
    exact h t ht
  obtain ⟨-, htotal, hremaining⟩ := iterate_turn span hstart root.preorder.length
  have hsize : (start root).remaining = root.preorder.length := by
    rw [start, remaining, Cursor.ahead_root]
  have hended := eq_ended_of_remaining span (w := (turn span)^[root.preorder.length] (start root))
    (by omega)
  rw [hended, htotal, start, total, Cursor.ahead_root, List.nil_append]

end Walk

/-- The trees on a line are those of the pre-order that are not empty and lie in the span of the
line, in this order, and none if there is no such line. The walk comes to its end, after no more
turns than there are trees, and finds them. -/
theorem treesOnLine_walked {s : Source} (hnested : s.root.WellNested) (line : Nat) :
    (lineSpan s.text line = none → treesOnLine s line = []) ∧
    ∀ span, lineSpan s.text line = some span →
      treesOnLine s line = s.root.preorder.filter (liesIn span) ∧
      (Walk.turn span)^[s.root.preorder.length] (.start s.root) = .ended (treesOnLine s line) := by
  refine ⟨fun h => by rw [treesOnLine, h], fun span h => ?_⟩
  have htrees : treesOnLine s line = s.root.preorder.filter (liesIn span) := by
    rw [treesOnLine, h]
    exact treesIn_eq_filter hnested
  exact ⟨htrees, by rw [htrees, Walk.iterate_turn_start hnested]⟩

/-- On the second line of this source there are trees, and the walk finds them. -/
theorem treesOnLine_walked_second :
    let s := Source.parse "fn t() \x7b\n  x.should().be(1); \x7d"
    s.root.WellNested ∧ lineSpan s.text 2 = some ⟨9, 30⟩ ∧ treesOnLine s 2 ≠ [] ∧
      (Walk.turn ⟨9, 30⟩)^[s.root.preorder.length] (.start s.root) = .ended (treesOnLine s 2) := by
  have hnested := (Source.parse_wellFormed "fn t() \x7b\n  x.should().be(1); \x7d").nested
  have hspan : lineSpan "fn t() \x7b\n  x.should().be(1); \x7d" 2 = some ⟨9, 30⟩ := by decide
  exact ⟨hnested, hspan, by decide +kernel, ((treesOnLine_walked hnested 2).2 _ hspan).2⟩

end Attest.Call
