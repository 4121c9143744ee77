/-
  The search for calls. A call is named on a line if the name of its method stands there. Main
  statements: the candidates are calls named on the line (`namedOn_of_mem_candidates`), there is
  none only if no call is named there (`candidates_eq_nil_iff`), and a context that is found is
  the chain of such a call (`resolve_names_call_on_line`).
-/
import Attest.Call.Resolve
import Attest.Proofs.Syntax.Source

namespace Attest.Call

open Syntax
open Text (Span rowOf lineSpan)

/-! ## Order -/

theorem insertByStart_perm (c : Candidate) (ds : List Candidate) :
    (insertByStart c ds).Perm (c :: ds) := by
  induction ds with
  | nil => exact List.Perm.refl _
  | cons d ds ih =>
    unfold insertByStart
    split
    · exact List.Perm.refl _
    · exact (ih.cons d).trans (List.Perm.swap c d ds)

/-- Sorting loses and adds no candidate. -/
theorem sortByStart_perm (cs : List Candidate) : (sortByStart cs).Perm cs := by
  have hfold (ds : List Candidate) :
      (cs.foldl (fun ds c => insertByStart c ds) ds).Perm (ds ++ cs) := by
    induction cs generalizing ds with
    | nil => simp
    | cons c cs ih =>
      rw [List.foldl_cons]
      refine (ih (insertByStart c ds)).trans ?_
      exact ((insertByStart_perm c ds).append_right cs).trans List.perm_middle.symm
  exact hfold []

theorem mem_sortByStart {c : Candidate} {cs : List Candidate} : c ∈ sortByStart cs ↔ c ∈ cs :=
  (sortByStart_perm cs).mem_iff

/-! ## Trees in a span -/

/-- A tree around one that lies in the span touches the span. -/
theorem touches_of_liesIn {span : Span} {t u : Tree} (ht : t.span.contains u.span = true)
    (hu : liesIn span u = true) : t.span.touches span = true := by
  rw [liesIn, Bool.and_eq_true, Span.contains_iff, Span.isEmpty] at hu
  rw [Span.contains_iff] at ht
  simp only [Bool.not_eq_true', decide_eq_false_iff_not] at hu
  simp only [Span.touches, Bool.and_eq_true, decide_eq_true_eq]
  omega

theorem treesInAll_eq_filter {span : Span} {cs : List Tree}
    (h : ∀ c ∈ cs, treesIn span c = c.preorder.filter (liesIn span)) :
    treesInAll span cs = (Tree.preorderAll cs).filter (liesIn span) := by
  induction cs with
  | nil => rfl
  | cons c cs ih =>
    rw [List.forall_mem_cons] at h
    rw [treesInAll, Tree.preorderAll, List.filter_append, h.1, ih h.2]

/-- Looking only into trees that touch the span misses no tree that lies in it. -/
theorem treesIn_eq_filter {span : Span} {t : Tree} (ht : t.WellNested) :
    treesIn span t = t.preorder.filter (liesIn span) := by
  induction t using Tree.induct with
  | leaf r k tok =>
    rw [treesIn, Tree.preorder]
    by_cases h : liesIn span (.leaf r k tok) = true <;> simp [h]
  | node r k s cs ih =>
    have hcs : treesInAll span cs = (Tree.preorderAll cs).filter (liesIn span) :=
      treesInAll_eq_filter fun c hc =>
        ih c hc (ht.of_mem (Tree.mem_preorder_node hc))
    rw [treesIn, Tree.preorder, List.filter_cons, hcs]
    by_cases htouch : s.touches span = true
    · rw [if_pos htouch]
      split <;> rfl
    · -- Nothing inside lies in the span, or the tree itself would touch it.
      have hnone : (Tree.preorderAll cs).filter (liesIn span) = [] := by
        rw [List.filter_eq_nil_iff]
        intro u hu hlies
        have hin : u ∈ (Syntax.Tree.node r k s cs).preorder := by
          rw [Tree.preorder_eq]
          exact List.mem_cons_of_mem _ hu
        exact htouch (touches_of_liesIn (ht.contains hin) hlies)
      rw [if_neg htouch, hnone, List.append_nil]

theorem mem_postorderAll {u : Tree} {ts : List Tree} :
    u ∈ postorderAll ts ↔ ∃ t ∈ ts, u ∈ postorder t := by
  induction ts with
  | nil => simp [postorderAll]
  | cons t ts ih => simp [postorderAll, ih]

/-- Both orders run through the same trees. -/
theorem mem_postorder {u t : Tree} : u ∈ postorder t ↔ u ∈ t.preorder := by
  induction t using Tree.induct with
  | leaf r k tok => rw [postorder, Tree.preorder]
  | node r k s cs ih =>
    rw [postorder, List.mem_append, mem_postorderAll, Tree.mem_preorder, List.mem_singleton,
      or_comm]
    refine or_congr Iff.rfl ⟨?_, ?_⟩
    · rintro ⟨c, hc, hu⟩
      exact ⟨c, hc, (ih c hc).mp hu⟩
    · rintro ⟨c, hc, hu⟩
      exact ⟨c, hc, (ih c hc).mpr hu⟩

/-! ## Calls of a method -/

/-- The candidate is a call of a member, or of a member with type arguments, and `name` is the
token that names the member. -/
structure Candidate.Calls (c : Candidate) (method : String) (name : Token) : Prop where
  call : c.call.kind = .call
  callee : c.call.child? .function = some c.member ∨
    ∃ g, c.call.child? .function = some g ∧ g.kind = .generic ∧ g.child? .function = some c.member
  member : c.member.kind = .member
  named : ∃ f, c.member.child? .field = some f ∧ f.kind = .fieldName ∧ f.token? = some name
  text : name.text = method

/-- The call stands in the source, and the name of its method begins on the line. -/
def NamedOn (s : Source) (method : String) (line : Nat) (c : Candidate) : Prop :=
  c.call ∈ s.root.preorder ∧ ∃ name, c.Calls method name ∧ name.row + 1 = line

/-- Names of methods do not begin with a digit, unlike those of tuple members. -/
def IsMethodName (method : String) : Prop :=
  ∀ c ∈ method.toList.head?, isDecimal c = false

instance (method : String) : Decidable (IsMethodName method) :=
  decidable_of_iff ((method.toList.head?.all fun c => !isDecimal c) = true) (by
    simp [IsMethodName, Option.all_eq_true])

namespace Candidate

theorem memberOf?_eq_some {t m : Tree} (h : memberOf? t = some m) :
    t.kind = .call ∧ m.kind = .member ∧
      (t.child? .function = some m ∨
        ∃ g, t.child? .function = some g ∧ g.kind = .generic ∧ g.child? .function = some m) := by
  unfold memberOf? at h
  split at h
  · next hcall =>
    split at h
    · next f hf =>
      split at h
      · next m' hm' =>
        split at h
        · next hmember =>
          obtain rfl := Option.some.inj h
          refine ⟨hcall, hmember, ?_⟩
          split at hm'
          · next hgeneric => exact Or.inr ⟨f, hf, hgeneric, hm'⟩
          · exact Or.inl (hf.trans hm')
        · contradiction
      · contradiction
    · contradiction
  · contradiction

theorem ofTree?_eq_some {method : String} {t : Tree} {c : Candidate}
    (h : ofTree? method t = some c) :
    c.call = t ∧ memberOf? t = some c.member ∧ fieldText? c.member = some method := by
  unfold ofTree? at h
  split at h
  · next m hm =>
    split at h
    · next hfield =>
      obtain rfl := Option.some.inj h
      exact ⟨rfl, hm, hfield⟩
    · contradiction
  · contradiction

variable {c : Candidate} {method : String} {name : Token}

theorem Calls.memberOf?_eq (h : c.Calls method name) : memberOf? c.call = some c.member := by
  have hne : c.member.kind ≠ .generic := by rw [h.member]; decide
  unfold memberOf?
  rw [if_pos h.call]
  rcases h.callee with hf | ⟨g, hg, hkind, hf⟩
  · simp only [hf, if_neg hne, if_pos h.member]
  · simp only [hg, if_pos hkind, hf, if_pos h.member]

theorem Calls.ofTree?_eq (h : c.Calls method name) : ofTree? method c.call = some c := by
  obtain ⟨f, hf, -, htok⟩ := h.named
  have htext : fieldText? c.member = some method := by
    simp [fieldText?, hf, Tree.text, htok, h.text]
  unfold ofTree?
  simp only [h.memberOf?_eq, if_pos htext]

theorem Calls.nameRow?_eq (h : c.Calls method name) : c.nameRow? = some name.row := by
  obtain ⟨f, hf, hkind, htok⟩ := h.named
  simp [nameRow?, hf, hkind, htok]

/-- The member that a call in a source calls is in the source, too. -/
theorem member_mem {root t m : Tree} (ht : t ∈ root.preorder) (h : memberOf? t = some m) :
    m ∈ root.preorder := by
  rcases (memberOf?_eq_some h).2.2 with hf | ⟨g, hg, -, hm⟩
  · exact Tree.mem_preorder_of_mem_children (Tree.mem_children_of_child? hf) ht
  · have hgm := Tree.mem_preorder_of_mem_children (Tree.mem_children_of_child? hg) ht
    exact Tree.mem_preorder_of_mem_children (Tree.mem_children_of_child? hm) hgm

end Candidate

/-- Candidates in a well-formed source call a method by a name that stands inside the call. -/
theorem calls_of_ofTree? {s : Source} (hs : s.WellFormed) {method : String}
    (hmethod : IsMethodName method) {t : Tree} (ht : t ∈ s.root.preorder) {c : Candidate}
    (h : Candidate.ofTree? method t = some c) : ∃ name, c.Calls method name := by
  obtain ⟨rfl, hmember, htext⟩ := Candidate.ofTree?_eq_some h
  obtain ⟨hcall, hkind, hcallee⟩ := Candidate.memberOf?_eq_some hmember
  obtain ⟨f, hf, hftext⟩ := Option.map_eq_some_iff.mp htext
  have hfroot : f ∈ s.root.preorder :=
    Tree.mem_preorder_of_mem_children (Tree.mem_children_of_child? hf)
      (Candidate.member_mem ht hmember)
  obtain ⟨htok, hfkind⟩ := (hs.lawful f hfroot).field (Tree.role_of_child? hf)
  obtain ⟨name, hname⟩ := Option.isSome_iff_exists.mp htok
  have hnametext : name.text = method := by
    rw [← hftext, Tree.text, hname]
    rfl
  have hfieldName : f.kind = .fieldName := by
    rcases hfkind with hk | hk
    · exact hk
    · -- A number begins with a digit, so it is no method name.
      have hint := (hs.lawful f hfroot).fits name hname .integer (by rw [hk]; rfl)
      obtain ⟨d, rest, hd, hdec⟩ := ((hs.placed f hfroot name hname).spelt.integer hint).head
      have := hmethod d (by rw [← hnametext, hd]; rfl)
      rw [hdec] at this
      contradiction
  exact ⟨name, hcall, hcallee, hkind, ⟨f, hf, hfieldName, hname⟩, hnametext⟩

namespace Candidate.Calls

variable {s : Source} {c : Candidate} {method : String} {name : Token}

/-- The name of the method is a word of the source, and it stands inside the call. -/
theorem name_spec (h : c.Calls method name) (hs : s.WellFormed) (hc : c.call ∈ s.root.preorder) :
    name.Placed s.text.toList ∧ name.kind = .word ∧
      c.call.span.contains ⟨name.start, name.stop⟩ = true := by
  obtain ⟨f, hf, hkind, hname⟩ := h.named
  have hfcall : f ∈ c.call.preorder :=
    Tree.mem_preorder_of_mem_children (Tree.mem_children_of_child? hf)
      (member_mem (Tree.mem_preorder_self _) h.memberOf?_eq)
  have hfroot := Tree.mem_preorder_trans hfcall hc
  have hin := (hs.nested.of_mem hc).contains hfcall
  rw [Tree.eq_leaf_of_token? hname] at hin
  exact ⟨hs.placed f hfroot name hname,
    (hs.lawful f hfroot).fits name hname .word (by rw [hkind]; rfl), hin⟩

theorem isMethodName (h : c.Calls method name) (hs : s.WellFormed)
    (hc : c.call ∈ s.root.preorder) : IsMethodName method := by
  obtain ⟨hplaced, hword, -⟩ := h.name_spec hs hc
  obtain ⟨d, rest, hd, hdec⟩ := hplaced.spelt.word hword
  intro e he
  rw [← h.text, hd] at he
  rwa [← Option.some.inj he]

/-- A call is not empty, as its name is not. -/
theorem start_lt_stop (h : c.Calls method name) (hs : s.WellFormed)
    (hc : c.call ∈ s.root.preorder) : c.call.span.start < c.call.span.stop := by
  obtain ⟨hplaced, hword, hin⟩ := h.name_spec hs hc
  obtain ⟨d, rest, hd, -⟩ := hplaced.spelt.word hword
  have hsize : name.start < name.stop := by
    rw [name.stop_eq, hd, Text.byteLength_cons]
    have := d.utf8Size_pos
    omega
  rw [Span.contains_iff] at hin
  dsimp only at hin
  omega

end Candidate.Calls

/-! ## Calls on a line -/

/-- The whole call stands on the line. -/
def LiesOn (s : Source) (line : Nat) (c : Candidate) : Prop :=
  ∃ span, lineSpan s.text line = some span ∧ span.contains c.call.span = true

theorem treesOnLine_eq_filter {s : Source} (hs : s.WellFormed) {line : Nat} {span : Span}
    (h : lineSpan s.text line = some span) :
    treesOnLine s line = s.root.preorder.filter (liesIn span) := by
  unfold treesOnLine
  rw [h]
  exact treesIn_eq_filter hs.nested

theorem mem_onLine {s : Source} (hs : s.WellFormed) {method : String} {line : Nat} {c : Candidate} :
    c ∈ onLine s method line ↔ ∃ span, lineSpan s.text line = some span ∧
      c.call ∈ s.root.preorder ∧ liesIn span c.call = true ∧
      Candidate.ofTree? method c.call = some c := by
  rw [onLine, mem_sortByStart, List.mem_filterMap]
  constructor
  · rintro ⟨t, ht, hc⟩
    obtain ⟨rfl, -⟩ := Candidate.ofTree?_eq_some hc
    cases hspan : lineSpan s.text line with
    | none => simp [treesOnLine, hspan] at ht
    | some span =>
      rw [treesOnLine_eq_filter hs hspan, List.mem_filter] at ht
      exact ⟨span, rfl, ht.1, ht.2, hc⟩
  · rintro ⟨span, hspan, hmem, hlies, hc⟩
    refine ⟨c.call, ?_, hc⟩
    rw [treesOnLine_eq_filter hs hspan, List.mem_filter]
    exact ⟨hmem, hlies⟩

/-- The first search finds exactly the calls that are named on the line and lie on it. -/
theorem mem_onLine_iff_namedOn {s : Source} (hs : s.WellFormed) {method : String}
    (hmethod : IsMethodName method) {line : Nat} {c : Candidate} :
    c ∈ onLine s method line ↔ NamedOn s method line c ∧ LiesOn s line c := by
  rw [mem_onLine hs]
  constructor
  · rintro ⟨span, hspan, hmem, hlies, hc⟩
    obtain ⟨name, hcalls⟩ := calls_of_ofTree? hs hmethod hmem hc
    obtain ⟨hplaced, -, hin⟩ := hcalls.name_spec hs hmem
    rw [liesIn, Bool.and_eq_true] at hlies
    refine ⟨⟨hmem, name, hcalls, ?_⟩, span, hspan, hlies.1⟩
    -- The name is inside the call and the call on the line, so the row of the name is the line's.
    have hname := Span.contains_iff.mp (Span.contains_trans hlies.1 hin)
    have hstop : name.start ≤ name.stop := Nat.le_add_right _ _
    rw [← hplaced.rowOf_start]
    exact Text.rowOf_of_mem_lineSpan hspan hname.1 (Nat.le_trans hstop hname.2)
  · rintro ⟨⟨hmem, name, hcalls, -⟩, span, hspan, hlies⟩
    have hpos := hcalls.start_lt_stop hs hmem
    refine ⟨span, hspan, hmem, ?_, hcalls.ofTree?_eq⟩
    rw [liesIn, Bool.and_eq_true, Span.isEmpty]
    exact ⟨hlies, by simp; omega⟩

/-! ## Calls named on a row -/

theorem mem_anchored {s : Source} {method : String} {row : Nat} {c : Candidate} :
    c ∈ anchored s method row ↔ c.call ∈ s.root.preorder ∧
      Candidate.ofTree? method c.call = some c ∧ c.nameRow? = some row := by
  rw [anchored, mem_sortByStart, List.mem_filter, List.mem_filterMap, beq_iff_eq]
  constructor
  · rintro ⟨⟨t, ht, hc⟩, hrow⟩
    obtain ⟨rfl, -⟩ := Candidate.ofTree?_eq_some hc
    exact ⟨mem_postorder.mp ht, hc, hrow⟩
  · rintro ⟨hmem, hc, hrow⟩
    exact ⟨⟨c.call, mem_postorder.mpr hmem, hc⟩, hrow⟩

/-- The second search finds exactly the calls named on the line. -/
theorem mem_anchored_iff_namedOn {s : Source} (hs : s.WellFormed) {method : String}
    (hmethod : IsMethodName method) {row : Nat} {c : Candidate} :
    c ∈ anchored s method row ↔ NamedOn s method (row + 1) c := by
  rw [mem_anchored]
  constructor
  · rintro ⟨hmem, hc, hrow⟩
    obtain ⟨name, hcalls⟩ := calls_of_ofTree? hs hmethod hmem hc
    rw [hcalls.nameRow?_eq] at hrow
    exact ⟨hmem, name, hcalls, by rw [Option.some.inj hrow]⟩
  · rintro ⟨hmem, name, hcalls, hrow⟩
    refine ⟨hmem, hcalls.ofTree?_eq, ?_⟩
    rw [hcalls.nameRow?_eq, Nat.succ.inj hrow]

/-! ## Candidates -/

theorem candidates_of_onLine_ne_nil {s : Source} {method : String} {line : Nat}
    (h : onLine s method line ≠ []) : candidates s method line = onLine s method line := by
  unfold candidates
  split
  · contradiction
  · rfl

theorem candidates_of_onLine_eq_nil {s : Source} {method : String} {row : Nat}
    (h : onLine s method (row + 1) = []) :
    candidates s method (row + 1) = anchored s method row := by
  unfold candidates
  rw [h]

/-- There is no line 0. -/
theorem candidates_zero (s : Source) (method : String) : candidates s method 0 = [] := rfl

theorem mem_preorder_of_mem_candidates {s : Source} (hs : s.WellFormed) {method : String}
    {line : Nat} {c : Candidate} (h : c ∈ candidates s method line) :
    c.call ∈ s.root.preorder := by
  by_cases hon : onLine s method line = []
  · cases line with
    | zero => simp [candidates_zero] at h
    | succ row =>
      rw [candidates_of_onLine_eq_nil hon] at h
      exact (mem_anchored.mp h).1
  · rw [candidates_of_onLine_ne_nil hon] at h
    obtain ⟨-, -, hmem, -⟩ := (mem_onLine hs).mp h
    exact hmem

theorem namedOn_of_mem_candidates {s : Source} (hs : s.WellFormed) {method : String}
    (hmethod : IsMethodName method) {line : Nat} {c : Candidate}
    (h : c ∈ candidates s method line) : NamedOn s method line c := by
  by_cases hon : onLine s method line = []
  · cases line with
    | zero => simp [candidates_zero] at h
    | succ row =>
      rw [candidates_of_onLine_eq_nil hon] at h
      exact (mem_anchored_iff_namedOn hs hmethod).mp h
  · rw [candidates_of_onLine_ne_nil hon] at h
    exact ((mem_onLine_iff_namedOn hs hmethod).mp h).1

/-- Every call named on a line is a candidate there, if no call of the method lies on the line. -/
theorem mem_candidates_of_namedOn {s : Source} (hs : s.WellFormed) {method : String}
    (hmethod : IsMethodName method) {line : Nat} {c : Candidate}
    (hon : onLine s method line = []) (h : NamedOn s method line c) :
    c ∈ candidates s method line := by
  cases line with
  | zero =>
    obtain ⟨-, name, -, hrow⟩ := h
    contradiction
  | succ row =>
    rw [candidates_of_onLine_eq_nil hon]
    exact (mem_anchored_iff_namedOn hs hmethod).mpr h

theorem candidates_eq_nil_iff {s : Source} (hs : s.WellFormed) {method : String}
    (hmethod : IsMethodName method) {line : Nat} :
    candidates s method line = [] ↔ ∀ c, ¬ NamedOn s method line c := by
  constructor
  · intro hnil c hnamed
    by_cases hon : onLine s method line = []
    · have := mem_candidates_of_namedOn hs hmethod hon hnamed
      rw [hnil] at this
      contradiction
    · rw [candidates_of_onLine_ne_nil hon] at hnil
      exact hon hnil
  · intro hnone
    rw [List.eq_nil_iff_forall_not_mem]
    exact fun c hc => hnone c (namedOn_of_mem_candidates hs hmethod hc)

/-! ## Arguments -/

theorem mem_preorder_of_mem_arguments {root t : Tree} {c : Candidate} (hc : c.call ∈ root.preorder)
    (ht : t ∈ c.arguments) : t ∈ root.preorder := by
  unfold Candidate.arguments at ht
  split at ht
  · next as has =>
    exact Tree.mem_preorder_of_mem_children (List.mem_filter.mp ht).1
      (Tree.mem_preorder_of_mem_children (Tree.mem_children_of_child? has) hc)
  · simp at ht

/-- Looking into an array adds only trees from inside it. -/
theorem mem_preorder_of_mem_sequenceArguments {root t : Tree} {ts : List Tree}
    (hts : ∀ u ∈ ts, u ∈ root.preorder) (ht : t ∈ sequenceArguments ts) : t ∈ root.preorder := by
  unfold sequenceArguments at ht
  split at ht
  · next u =>
    have hu := hts u List.mem_cons_self
    split at ht
    · next a ha =>
      have hroot : a ∈ root.preorder := by
        unfold dereferenced at ha
        split at ha
        · exact Tree.mem_preorder_of_mem_children (Tree.mem_children_of_child? ha) hu
        · rwa [← Option.some.inj ha]
      split at ht
      · exact Tree.mem_preorder_of_mem_children (List.mem_filter.mp ht).1 hroot
      · exact hts t ht
    · exact hts t ht
  · exact hts t ht

end Attest.Call
