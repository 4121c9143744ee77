/-
  Where calls stand. A call lies on a line if its first and last tokens are in the row of the line
  (`liesOn_iff`), so the places of calls matter only through the rows of tokens and their order.
  Main statement (`candidates_alike`): sources that are read from aligned tokens have alike
  candidates, if related tokens are in the same rows and in the same order.
-/
import Attest.Proofs.Call.Alike
import Attest.Proofs.Syntax.Aligned
import Attest.Proofs.Syntax.RustParts

namespace Attest.Call

open Syntax
open Syntax.Tree (preorderAll)
open Text (Span lineSpan byteLength)

variable {text : String} {t u : Tree} {R : Token → Token → Prop} {E : Token → Prop}

/-! ## Ends of calls -/

/-- A call ends with a closing parenthesis. -/
theorem closing_of_call (ht : t ∈ (Source.parse text).root.preorder) (hcall : t.kind = .call)
    (hnode : t.token? = none) :
    ∃ last, t.tokens.getLast? = some last ∧ last.isMark ")" = true := by
  have hended := Source.parse_ended text
  cases t with
  | leaf => contradiction
  | node r k s cs =>
    obtain rfl : k = .call := hcall
    obtain ⟨args, hargs, hkind, htoken⟩ := hended _ ht .arguments rfl
    have hchild : args ∈ cs := List.mem_of_getLast? hargs
    have hmem := Tree.mem_preorder_trans (Tree.mem_preorder_node hchild) ht
    cases args with
    | leaf => contradiction
    | node r' k' s' ds =>
      obtain rfl : k' = .arguments := hkind
      obtain ⟨mark, hmark, -, last, hlast, hclosing⟩ := hended _ hmem .closing rfl
      have hleaf : mark.tokens.getLast? = some last := by
        rw [Tree.eq_leaf_of_token? hlast, Tree.tokens_leaf, List.getLast?_singleton]
      refine ⟨last, ?_, hclosing⟩
      rw [Tree.tokens_node]
      refine Tree.tokensAll_getLast? hargs ?_
      rw [Tree.tokens_node]
      exact Tree.tokensAll_getLast? hmark hleaf

theorem token?_of_memberOf? {m : Tree} (h : Candidate.memberOf? t = some m) : t.token? = none := by
  cases t with
  | node => rfl
  | leaf r k tok =>
    rcases (Candidate.memberOf?_eq_some h).2.2 with hf | ⟨g, hg, -⟩
    · cases hf
    · cases hg

/-- The first and the last token of a call, which is a parenthesis. -/
structure Ends (text : String) (t : Tree) (a b : Token) : Prop where
  head : t.tokens.head? = some a
  getLast : t.tokens.getLast? = some b
  span : t.span = ⟨a.start, b.stop⟩
  scanned : a ∈ scan text ∧ b ∈ scan text
  closing : b.isMark ")" = true
  ordered : a.start ≤ b.start

theorem exists_ends (ht : t ∈ (Source.parse text).root.preorder) {m : Tree}
    (h : Candidate.memberOf? t = some m) : ∃ first last, Ends text t first last := by
  have hcall := (Candidate.memberOf?_eq_some h).1
  obtain ⟨first, last, hfirst, hlast, hspan⟩ :=
    (Source.parse_exact text).tight_of_mem ht (by rw [hcall]; decide)
  obtain ⟨last', hlast', hclosing⟩ := closing_of_call ht hcall (token?_of_memberOf? h)
  obtain rfl : last = last' := Option.some.inj (hlast.symm.trans hlast')
  have hsub : t.tokens.Sublist (scan text) := by
    have := Tree.tokens_sublist ht
    rwa [Source.parse, Tree.tokens_node, (parseTokens_spec (scan text)).1] at this
  have hmem := List.mem_of_getLast? hlast
  have hordered := List.Pairwise.sublist hsub (scan_ordered text)
  exact ⟨first, last, hfirst, hlast, hspan,
    ⟨hsub.subset (List.mem_of_mem_head? hfirst), hsub.subset hmem⟩, hclosing,
    (Ordered.bounds hordered hfirst hlast hmem).1⟩

/-! ## Calls on a line -/

/-- The first and the last token are in the row. -/
def standsIn (row : Nat) (t : Tree) : Bool :=
  t.tokens.head?.map Token.row == some row && t.tokens.getLast?.map Token.row == some row

theorem Ends.standsIn_iff {first last : Token} (h : Ends text t first last) {row : Nat} :
    standsIn row t = true ↔ first.row = row ∧ last.row = row := by
  rw [standsIn, h.head, h.getLast]
  simp

theorem toList_of_isMark {a : Token} {s : String} (h : a.isMark s = true) : a.text = s := by
  rw [Token.isMark, Bool.and_eq_true, beq_iff_eq, beq_iff_eq] at h
  exact h.2

/-- A call lies on a line if it begins and ends in its row. -/
theorem Ends.contains_iff {first last : Token} (h : Ends text t first last) {row : Nat} :
    (∃ span, lineSpan text (row + 1) = some span ∧ span.contains t.span = true) ↔
      first.row = row ∧ last.row = row := by
  have hfirst := scan_placed h.scanned.1
  have hlast := scan_placed h.scanned.2
  have hstop : last.start ≤ last.stop := Nat.le_add_right _ _
  constructor
  · rintro ⟨span, hspan, hcontains⟩
    rw [Span.contains_iff, h.span] at hcontains
    dsimp only at hcontains
    have hordered := h.ordered
    have hrow := Text.rowOf_of_mem_lineSpan hspan hcontains.1 (by omega)
    have hstart : span.start ≤ last.start := by omega
    have hrow' := Text.rowOf_of_mem_lineSpan hspan hstart (by omega)
    rw [hfirst.rowOf_start] at hrow
    rw [hlast.rowOf_start] at hrow'
    omega
  · rintro ⟨hrow, hrow'⟩
    obtain ⟨a, b, htext, hstart, hcount⟩ := hfirst.place
    obtain ⟨a', b', htext', hstart', hcount'⟩ := hlast.place
    rw [toList_of_isMark h.closing] at htext'
    obtain ⟨span, hspan, hle⟩ := Text.exists_lineSpan htext
    rw [← hcount, hrow] at hspan
    refine ⟨span, hspan, ?_⟩
    have hclose := Text.le_stop_of_lineSpan (c := ')') (b := b') htext' (by decide) (by decide)
      (by rw [← hcount', hrow', hspan])
    rw [Span.contains_iff, h.span, last.stop_eq, hstart, hstart', toList_of_isMark h.closing]
    exact ⟨hle, hclose⟩

theorem Ends.liesIn_iff {first last : Token} (h : Ends text t first last) {row : Nat} :
    (∃ span, lineSpan text (row + 1) = some span ∧ liesIn span t = true) ↔
      first.row = row ∧ last.row = row := by
  rw [← h.contains_iff]
  have hnonempty : t.span.isEmpty = false := by
    have hordered := h.ordered
    rw [Span.isEmpty, h.span, last.stop_eq, toList_of_isMark h.closing]
    have hsize : byteLength ")".toList = 1 := by decide
    simp only [decide_eq_false_iff_not]
    omega
  simp [liesIn, hnonempty]

/-- What a filter keeps may be sorted out before or after another choice. -/
theorem filterMap_filter_comm {α β : Type} {f : α → Option β} {p : α → Bool} {q : β → Bool}
    {as : List α} (h : ∀ a ∈ as, ∀ b, f a = some b → p a = q b) :
    (as.filter p).filterMap f = (as.filterMap f).filter q := by
  induction as with
  | nil => rfl
  | cons a as ih =>
    rw [List.forall_mem_cons] at h
    obtain ⟨ha, has⟩ := h
    cases hfa : f a with
    | none =>
      rw [List.filterMap_cons_none hfa, ← ih has, List.filter_cons]
      split
      · rw [List.filterMap_cons_none hfa]
      · rfl
    | some b =>
      rw [List.filterMap_cons_some hfa, List.filter_cons, List.filter_cons, ha b hfa]
      split
      · rw [List.filterMap_cons_some hfa, ih has]
      · exact ih has

theorem treesOnLine_calls (text method : String) (row : Nat) :
    (treesOnLine (.parse text) (row + 1)).filterMap (Candidate.ofTree? method) =
      ((Source.parse text).root.preorder.filterMap (Candidate.ofTree? method)).filter
        fun c => standsIn row c.call := by
  have hs := Source.parse_wellFormed text
  have hends {t c} (ht : t ∈ (Source.parse text).root.preorder)
      (hc : Candidate.ofTree? method t = some c) : ∃ a b, c.call = t ∧ Ends text t a b := by
    obtain ⟨rfl, hmember, -⟩ := Candidate.ofTree?_eq_some hc
    obtain ⟨a, b, h⟩ := exists_ends ht hmember
    exact ⟨a, b, rfl, h⟩
  cases hspan : lineSpan text (row + 1) with
  | none =>
    -- No line is there, so no call is in its row.
    have htrees : treesOnLine (.parse text) (row + 1) = [] := by
      rw [treesOnLine, Source.parse, hspan]
    rw [htrees, List.filterMap_nil, eq_comm, List.filter_eq_nil_iff]
    intro c hc hstands
    obtain ⟨t, ht, hc⟩ := List.mem_filterMap.mp hc
    obtain ⟨a, b, rfl, h⟩ := hends ht hc
    obtain ⟨span, hspan', -⟩ := h.liesIn_iff.mpr (h.standsIn_iff.mp hstands)
    rw [hspan] at hspan'
    contradiction
  | some span =>
    rw [treesOnLine_eq_filter hs hspan]
    refine filterMap_filter_comm fun t ht c hc => ?_
    obtain ⟨a, b, rfl, h⟩ := hends ht hc
    rw [Bool.eq_iff_iff, h.standsIn_iff, ← h.liesIn_iff, hspan]
    simp

/-! ## Alike candidates -/

/-- Related tokens are in the same rows and come in the same order. -/
structure KeepsPlaces (R : Token → Token → Prop) : Prop where
  row : ∀ t u, R t u → u.row = t.row
  order : ∀ t u t' u', R t u → R t' u' → (u.start < u'.start ↔ t.start < t'.start)

/-- Alike candidates that start with related tokens. -/
def StartAlike (R : Token → Token → Prop) (E : Token → Prop) (c d : Candidate) : Prop :=
  c.Alike R E d ∧ ∃ a b, R a b ∧ c.start = a.start ∧ d.start = b.start

theorem StartAlike.start_lt_iff (hplaces : KeepsPlaces R) {c d c' d' : Candidate}
    (h : StartAlike R E c d) (h' : StartAlike R E c' d') :
    d.start < d'.start ↔ c.start < c'.start := by
  obtain ⟨-, a, b, hab, hc, hd⟩ := h
  obtain ⟨-, a', b', hab', hc', hd'⟩ := h'
  rw [hc, hd, hc', hd']
  exact hplaces.order _ _ _ _ hab hab'

theorem insertByStart_alike (hplaces : KeepsPlaces R) {c d : Candidate} {cs ds : List Candidate}
    (hcd : StartAlike R E c d) (h : List.Forall₂ (StartAlike R E) cs ds) :
    List.Forall₂ (StartAlike R E) (insertByStart c cs) (insertByStart d ds) := by
  induction h with
  | nil => exact .cons hcd .nil
  | @cons c' d' _ _ hcd' hs ih =>
    rw [insertByStart, insertByStart]
    by_cases hlt : c.start < c'.start
    · rw [if_pos hlt, if_pos ((hcd.start_lt_iff hplaces hcd').mpr hlt)]
      exact .cons hcd (.cons hcd' hs)
    · rw [if_neg hlt, if_neg (mt (hcd.start_lt_iff hplaces hcd').mp hlt)]
      exact .cons hcd' ih

theorem sortByStart_alike (hplaces : KeepsPlaces R) {cs ds : List Candidate}
    (h : List.Forall₂ (StartAlike R E) cs ds) :
    List.Forall₂ (StartAlike R E) (sortByStart cs) (sortByStart ds) := by
  have hfold {as bs : List Candidate} (hab : List.Forall₂ (StartAlike R E) as bs) :
      List.Forall₂ (StartAlike R E) (cs.foldl (fun ds c => insertByStart c ds) as)
        (ds.foldl (fun ds c => insertByStart c ds) bs) := by
    induction h generalizing as bs with
    | nil => exact hab
    | cons hcd _ ih => exact ih (insertByStart_alike hplaces hcd hab)
  exact hfold .nil

theorem postorderAll_alike {ts us : List Tree} (h : Interleaved
      (fun c d => c.Alike R E d ∧ AllAlike R E (postorder c) (postorder d)) (IsExtra E) ts us) :
    AllAlike R E (postorderAll ts) (postorderAll us) := by
  induction h with
  | nil => exact .nil
  | cons hcd _ ih => exact hcd.2.append ih
  | @extra b as bs hb hne _ ih =>
    obtain ⟨e, he, rfl⟩ := hb
    refine .extra ⟨e, he, rfl⟩ ?_ ih
    obtain ⟨a, as, rfl⟩ := List.exists_cons_of_ne_nil hne
    cases a <;> simp [postorderAll, postorder]

/-- The same holds where each tree comes behind its children. -/
theorem postorder_alike (h : t.Alike R E u) : AllAlike R E (postorder t) (postorder u) := by
  induction h using Tree.Alike.induct with
  | leaf h hk =>
    rw [postorder, postorder]
    exact .singleton (.leaf h hk)
  | node h hs ih ihs =>
    rw [postorder, postorder, postorderAll, postorderAll]
    exact (ih.append (postorderAll_alike (ihs.imp fun c d hcd => ⟨hcd.1, hcd.2⟩))).append
      (.singleton (.node h hs))

theorem ofTree?_of_not_call (h : t.kind ≠ .call) (method : String) :
    Candidate.ofTree? method t = none := by
  cases hc : Candidate.ofTree? method t with
  | none => rfl
  | some c => exact absurd (Candidate.memberOf?_eq_some (Candidate.ofTree?_eq_some hc).2.1).1 h

theorem ofTree?_file (r : Role) (s : Span) (cs : List Tree) (method : String) :
    Candidate.ofTree? method (.node r .file s cs) = none :=
  ofTree?_of_not_call (by rw [Tree.kind]; decide) method

/-- The calls in alike forests are alike. -/
theorem filterMap_alike (hA : Alignment R E) (text text' : String) {method : String}
    {ts us : List Tree} (h : AllAlike R E ts us)
    (hts : ∀ t ∈ ts, t ∈ (Source.parse text).root.preorder)
    (hus : ∀ u ∈ us, u ∈ (Source.parse text').root.preorder) :
    List.Forall₂ (StartAlike R E) (ts.filterMap (Candidate.ofTree? method))
      (us.filterMap (Candidate.ofTree? method)) := by
  refine h.of_mem.filterMap (fun t u htu => ?_) fun u hu => ?_
  · obtain ⟨ht, hu, halike⟩ := htu
    have hlawful : ∀ p ∈ t.preorder, p.Lawful := fun p hp =>
      (Source.parse_wellFormed text).lawful p (Tree.mem_preorder_trans hp (hts t ht))
    have hcandidate := Candidate.ofTree?_alike hA.like halike hlawful method
    generalize hc : Candidate.ofTree? method t = c at hcandidate
    generalize hd : Candidate.ofTree? method u = d at hcandidate
    cases hcandidate with
    | none => exact .none
    | @some c d hcd =>
      obtain ⟨rfl, hmember, -⟩ := Candidate.ofTree?_eq_some hc
      obtain ⟨rfl, hmember', -⟩ := Candidate.ofTree?_eq_some hd
      obtain ⟨a, b, hab⟩ := exists_ends (hts _ ht) hmember
      obtain ⟨a', b', hab'⟩ := exists_ends (hus _ hu) hmember'
      obtain ⟨⟨x, y, hx, hy, hxy⟩, -⟩ := halike.ends
      rw [hab.head, Option.some.injEq] at hx
      rw [hab'.head, Option.some.injEq] at hy
      subst hx hy
      exact .some ⟨hcd, a, a', hxy, congrArg Span.start hab.span, congrArg Span.start hab'.span⟩
  · refine ofTree?_of_not_call (fun hcall => ?_) method
    have hcomment := hu.isComment
    rw [Tree.isComment, hcall] at hcomment
    contradiction

theorem Candidate.Alike.standsIn_eq (hplaces : KeepsPlaces R) {c d : Candidate}
    (h : c.Alike R E d) (row : Nat) : standsIn row d.call = standsIn row c.call := by
  obtain ⟨⟨x, y, hx, hy, hxy⟩, ⟨x', y', hx', hy', hxy'⟩⟩ := h.call.ends
  rw [standsIn, standsIn, hx, hy, hx', hy', Option.map_some, Option.map_some, Option.map_some,
    Option.map_some, hplaces.row _ _ hxy, hplaces.row _ _ hxy']

theorem filter_alike {cs ds : List Candidate} {p q : Candidate → Bool}
    (hpq : ∀ c d, StartAlike R E c d → q d = p c) (h : List.Forall₂ (StartAlike R E) cs ds) :
    List.Forall₂ (StartAlike R E) (cs.filter p) (ds.filter q) := by
  induction h with
  | nil => exact .nil
  | @cons c d _ _ hcd _ ih =>
    rw [List.filter_cons, List.filter_cons, hpq c d hcd]
    split
    · exact .cons hcd ih
    · exact ih

/-- Sources that are read from aligned tokens have alike candidates. -/
theorem candidates_alike (hA : Alignment R E) (hplaces : KeepsPlaces R) {text text' : String}
    (h : Aligned R E (scan text) (scan text')) (method : String) (line : Nat) :
    List.Forall₂ (StartAlike R E) (candidates (.parse text) method line)
      (candidates (.parse text') method line) := by
  cases line with
  | zero => exact .nil
  | succ row =>
    have htrees := parseTokens_alike hA h
    have honLine : List.Forall₂ (StartAlike R E) (onLine (.parse text) method (row + 1))
        (onLine (.parse text') method (row + 1)) := by
      rw [onLine, onLine, treesOnLine_calls, treesOnLine_calls]
      refine sortByStart_alike hplaces (filter_alike
        (fun c d hcd => hcd.1.standsIn_eq hplaces row) ?_)
      rw [Source.parse, Source.parse, Tree.preorder, Tree.preorder,
        List.filterMap_cons_none (ofTree?_file _ _ _ _),
        List.filterMap_cons_none (ofTree?_file _ _ _ _)]
      refine filterMap_alike hA text text' (Tree.Alike.preorderAll_alike htrees) (fun t ht => ?_)
        fun u hu => ?_
      · rw [Source.parse, Tree.preorder]
        exact List.mem_cons_of_mem _ ht
      · rw [Source.parse, Tree.preorder]
        exact List.mem_cons_of_mem _ hu
    have hanchored : List.Forall₂ (StartAlike R E) (anchored (.parse text) method row)
        (anchored (.parse text') method row) := by
      rw [anchored, anchored]
      refine sortByStart_alike hplaces (filter_alike (fun c d hcd => ?_) ?_)
      · rw [hcd.1.nameRow?_eq hplaces.row]
      · rw [Source.parse, Source.parse, postorder, postorder, List.filterMap_append,
          List.filterMap_append,
          List.filterMap_cons_none (ofTree?_file _ _ _ _),
          List.filterMap_cons_none (ofTree?_file _ _ _ _),
          List.filterMap_nil, List.append_nil, List.append_nil]
        refine filterMap_alike hA text text'
          (postorderAll_alike (htrees.imp fun _ _ h => ⟨h, postorder_alike h⟩)) (fun t ht => ?_)
          fun u hu => ?_
        · rw [← mem_postorder, Source.parse, postorder]
          exact List.mem_append_left _ ht
        · rw [← mem_postorder, Source.parse, postorder]
          exact List.mem_append_left _ hu
    by_cases hnil : onLine (.parse text) method (row + 1) = []
    · rw [hnil, List.forall₂_nil_left_iff] at honLine
      rwa [candidates_of_onLine_eq_nil hnil, candidates_of_onLine_eq_nil honLine]
    · have hnil' : onLine (.parse text') method (row + 1) ≠ [] := by
        intro hnil'
        rw [hnil', List.forall₂_nil_right_iff] at honLine
        exact hnil honLine
      rwa [candidates_of_onLine_ne_nil hnil, candidates_of_onLine_ne_nil hnil']

/-- So they give the same answer, if no comment hides a contradiction, and related literals denote
the same. -/
theorem resolve_eq_of_aligned (hA : Alignment R E) (hplaces : KeepsPlaces R) {text text' : String}
    (h : Aligned R E (scan text) (scan text')) {method : String} {line : Nat} {expected : Expected}
    (hidden : ∀ cd ∈ (candidates (.parse text) method line).zip
      (candidates (.parse text') method line), ¬ HidesContradiction E expected cd.1 cd.2)
    (hdenotes : ∀ c ∈ candidates (.parse text) method line, ∀ p ∈ c.compared expected, ∀ l m,
      Literal.ofTree? p.2 = some l → Literal.Alike R l m → m.denotes p.1 = l.denotes p.1)
    (entryPoint : String) :
    resolve (.parse text') entryPoint method line expected =
      resolve (.parse text) entryPoint method line expected := by
  refine resolve_eq_of_alike hA.like
    ((candidates_alike hA hplaces h method line).imp fun _ _ hcd => hcd.1)
    (fun c d hmem hcd => ?_) entryPoint
  have hc := (List.of_mem_zip hmem).1
  have hroot := mem_preorder_of_mem_candidates (Source.parse_wellFormed text) hc
  exact hcd.accepts_eq_of_denotes hA.like
    (fun p hp => Source.parse_ended text p (Tree.mem_preorder_trans hp hroot)) (hidden (c, d) hmem)
    (hdenotes c hc)

end Attest.Call
