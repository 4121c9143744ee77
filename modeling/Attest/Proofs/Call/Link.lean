/-
  Links of a chain. A link is what stands behind an expression or around it: a member, a call of one
  with or without type arguments, `?`, `.await`, parentheses. Members and calls in a source are such
  links (`link_of_operand`). A link adds at most its own name to those of the expression
  (`names_of_link`). Main statement (`chain_of_link`): so the chain grows link by link, up to the
  entry point, and only by names that stand outside arguments, type arguments, closures, blocks and
  token trees. It holds where names are words without points, as in every source that is read
  (`Source.parse_wellFormed`, `parse_plainWords`).
-/
import Attest.Call.Chain
import Attest.Proofs.Call.Chained
import Attest.Proofs.Syntax.Growth
import Attest.Proofs.Text.Split
import Mathlib.Data.List.TakeWhile

namespace Attest.Call

open Syntax
open Text (splitString)

/-! ## Names that are shown -/

/-- The name stands in the tree, outside the subtrees that are skipped. -/
inductive Shows (name : String) : Tree → Prop
  | here {r k t} (hk : isNameKind k = true) (ht : t.text = name) : Shows name (.leaf r k t)
  | inside {r k s cs c} (hk : isSkipped k = false) (hc : c ∈ cs) (h : Shows name c) :
      Shows name (.node r k s cs)

theorem mem_namesAll {name : String} {ts : List Tree} :
    name ∈ namesAll ts ↔ ∃ t ∈ ts, name ∈ names t := by
  induction ts with
  | nil => simp [namesAll]
  | cons t ts ih => simp only [namesAll, List.mem_append, ih, List.mem_cons, exists_eq_or_imp]

theorem mem_names {name : String} {t : Tree} : name ∈ names t ↔ Shows name t := by
  induction t using Tree.induct with
  | leaf r k t =>
    rw [names]
    constructor
    · intro h
      split at h
      · next hk => exact .here hk (List.mem_singleton.mp h).symm
      · exact absurd h List.not_mem_nil
    · rintro ⟨hk, rfl⟩
      rw [if_pos hk]
      exact List.mem_singleton.mpr rfl
  | node r k s cs ih =>
    rw [names]
    constructor
    · intro h
      split at h
      · exact absurd h List.not_mem_nil
      · next hk =>
        obtain ⟨c, hc, hname⟩ := mem_namesAll.mp h
        exact .inside (Bool.eq_false_iff.mpr hk) hc ((ih c hc).mp hname)
    · intro h
      cases h with
      | inside hk hc h =>
        rw [if_neg (Bool.eq_false_iff.mp hk)]
        exact mem_namesAll.mpr ⟨_, hc, (ih _ hc).mpr h⟩

theorem namesAll_append (ts us : List Tree) :
    namesAll (ts ++ us) = namesAll ts ++ namesAll us := by
  induction ts with
  | nil => rfl
  | cons t ts ih => rw [List.cons_append, namesAll, ih, namesAll, List.append_assoc]

theorem namesAll_eq_nil {ts : List Tree} (h : ∀ t ∈ ts, names t = []) : namesAll ts = [] := by
  induction ts with
  | nil => rfl
  | cons t ts ih =>
    rw [List.forall_mem_cons] at h
    rw [namesAll, h.1, ih h.2]
    rfl

theorem names_of_skipped {t : Tree} (h : isSkipped t.kind = true) : names t = [] := by
  cases t with
  | leaf r k t =>
    cases k with
    | name => contradiction
    | fieldName => contradiction
    | _ => rfl
  | node r k s cs =>
    rw [names]
    exact if_pos h

/-! ## Skeletons -/

mutual

/-- What is left of a tree without places and parts, and without what stands in the subtrees that
are skipped. -/
def skeleton : Tree → Tree
  | .leaf _ k t => .leaf .plain k ⟨t.kind, t.text, 0, 0⟩
  | .node _ k _ cs => .node .plain k ⟨0, 0⟩ (if isSkipped k then [] else skeletonAll cs)

def skeletonAll : List Tree → List Tree
  | [] => []
  | t :: ts => skeleton t :: skeletonAll ts

end

theorem namesAll_skeletonAll {ts : List Tree} (h : ∀ t ∈ ts, names (skeleton t) = names t) :
    namesAll (skeletonAll ts) = namesAll ts := by
  induction ts with
  | nil => rfl
  | cons t ts ih =>
    rw [List.forall_mem_cons] at h
    rw [skeletonAll, namesAll, namesAll, h.1, ih h.2]

/-- The names are all in the skeleton. -/
theorem names_skeleton (t : Tree) : names (skeleton t) = names t := by
  induction t using Tree.induct with
  | leaf r k t => rfl
  | node r k s cs ih =>
    rw [skeleton, names, names]
    by_cases hk : isSkipped k = true
    · rw [if_pos hk, if_pos hk]
    · rw [if_neg hk, if_neg hk, if_neg hk, namesAll_skeletonAll ih]

theorem names_eq_of_skeleton {t u : Tree} (h : skeleton t = skeleton u) : names t = names u := by
  rw [← names_skeleton t, h, names_skeleton u]

/-! ## Links -/

theorem names_of_isGap {t : Tree} (h : t.IsGap) : names t = [] := by
  cases t with
  | leaf r k t =>
    cases k with
    | name => simp [Tree.IsGap, Kind.isComment] at h
    | fieldName => simp [Tree.IsGap, Kind.isComment] at h
    | _ => rfl
  | node => exact h.elim

/-- The expression is one link on `base`, with the name that the link gives. The links are `.f` and
`.0`, and behind them `(…)` and `::<…>`; and `?`, `.await` and parentheses. -/
inductive Link (base : Tree) : Option String → Tree → Prop
  | field {r s gap r' token} (hgap : ∀ g ∈ gap, g.IsGap) :
      Link base (some token.text) (.node r .member s (base :: (gap ++ [.leaf r' .fieldName token])))
  | element {r s gap r' token} (hgap : ∀ g ∈ gap, g.IsGap) :
      Link base none (.node r .member s (base :: (gap ++ [.leaf r' .integer token])))
  | call {name callee r s gap arguments} (h : Link base name callee) (hgap : ∀ g ∈ gap, g.IsGap)
      (harguments : arguments.kind = .arguments) :
      Link base name (.node r .call s (callee :: (gap ++ [arguments])))
  | generic {name callee r s gap arguments} (h : Link base name callee)
      (hgap : ∀ g ∈ gap, g.IsGap) (harguments : arguments.kind = .typeArguments) :
      Link base name (.node r .generic s (callee :: (gap ++ [arguments])))
  | suffix {r k s gap} (hk : k = .try ∨ k = .await) (hgap : ∀ g ∈ gap, g.IsGap) :
      Link base none (.node r k s (base :: gap))
  | paren {r s before after} (hbefore : ∀ g ∈ before, g.IsGap) (hafter : ∀ g ∈ after, g.IsGap) :
      Link base none (.node r .paren s (before ++ base :: after))

theorem namesAll_gap {gap : List Tree} (h : ∀ g ∈ gap, g.IsGap) : namesAll gap = [] :=
  namesAll_eq_nil fun g hg => names_of_isGap (h g hg)

/-- A child in front of marks, comments and one more child. -/
theorem names_of_two {k : Kind} (hk : isSkipped k = false) (r : Role) (s : Text.Span)
    (first last : Tree) {gap : List Tree} (hgap : ∀ g ∈ gap, g.IsGap) :
    names (.node r k s (first :: (gap ++ [last]))) = names first ++ names last := by
  rw [names, if_neg (by simp [hk]), namesAll, namesAll_append, namesAll_gap hgap, namesAll,
    namesAll, List.append_nil, List.nil_append]

/-- A link adds its own name behind those of the expression. -/
theorem names_of_link {base t : Tree} {name : Option String} (h : Link base name t) :
    names t = names base ++ name.toList := by
  induction h with
  | field hgap =>
    rw [names_of_two rfl _ _ _ _ hgap]
    rfl
  | element hgap =>
    rw [names_of_two rfl _ _ _ _ hgap]
    rfl
  | @call _ _ _ _ _ arguments _ hgap harguments ih =>
    have hskipped : isSkipped arguments.kind = true := harguments ▸ rfl
    rw [names_of_two rfl _ _ _ _ hgap, ih, names_of_skipped hskipped, List.append_nil]
  | @generic _ _ _ _ _ arguments _ hgap harguments ih =>
    have hskipped : isSkipped arguments.kind = true := harguments ▸ rfl
    rw [names_of_two rfl _ _ _ _ hgap, ih, names_of_skipped hskipped, List.append_nil]
  | @suffix r k s gap hk hgap =>
    have hskipped : isSkipped k = false := by rcases hk with rfl | rfl <;> rfl
    rw [names, if_neg (by simp [hskipped]), namesAll, namesAll_gap hgap]
    rfl
  | paren hbefore hafter =>
    rw [names, if_neg (by decide), namesAll_append, namesAll_gap hbefore, namesAll,
      namesAll_gap hafter, List.nil_append]
    rfl

/-- Members, calls and turbofishes in a source are such links. -/
theorem link_of_operand {text : String} {base t : Tree}
    (ht : t ∈ (Source.parse text).root.preorder) (h : operand? t = some base) :
    (t.kind = .member → ∃ name, Link base name t) ∧
    (t.kind = .call ∨ t.kind = .generic → ∀ b name, Link b name base → Link b name t) := by
  have hgrown := Source.parse_grown text t ht
  have hparted := Source.parse_parted text t ht
  cases t with
  | leaf => exact absurd (mem_children_of_operand? h) List.not_mem_nil
  | node r k s cs =>
    have hfirst {role : Role} (hk : k.opening? = some (.role role))
        (hbase : (Syntax.Tree.node r k s cs).child? role = some base) :
        ∃ gap last, cs = base :: (gap ++ [last]) ∧ (∀ g ∈ gap, g.IsGap) ∧ k.Closes last := by
      obtain ⟨first, _, rfl, gap, last, rfl, hclosed⟩ := hgrown role hk
      obtain rfl := Option.some.inj (hparted.head?_eq_child? hk hbase)
      exact ⟨gap, last, rfl, hclosed⟩
    refine ⟨fun hk => ?_, fun hk b name hlink => ?_⟩
    · obtain rfl : k = .member := hk
      obtain ⟨gap, last, rfl, hgap, hlast⟩ := hfirst rfl h
      cases last with
      | leaf r' k' token =>
        rcases hlast with rfl | rfl
        · exact ⟨some token.text, .field hgap⟩
        · exact ⟨none, .element hgap⟩
      | node => exact hlast.elim
    · rcases hk with hk | hk
      · obtain rfl : k = .call := hk
        obtain ⟨gap, last, rfl, hgap, hlast⟩ := hfirst rfl h
        exact .call hlink hgap hlast
      · obtain rfl : k = .generic := hk
        obtain ⟨gap, last, rfl, hgap, hlast⟩ := hfirst rfl h
        exact .generic hlink hgap hlast

/-! ## Described names -/

variable {e m : String} {ns : List String}

theorem isEntryPoint_iff {n : String} : isEntryPoint e n = true ↔ n = e ∨ n = e ++ "_with" := by
  rw [isEntryPoint, Bool.or_eq_true, beq_iff_eq, beq_iff_eq]

theorem mem_describedNames {n : String} (h : n ∈ describedNames e m ns) :
    n ∈ ns ∧ n ≠ m ∧ isEntryPoint e n = false := by
  obtain ⟨hmem, hne⟩ := List.mem_filter.mp h
  have hentry := List.all_eq_true.mp List.all_takeWhile n hmem
  exact ⟨(List.takeWhile_sublist _).subset hmem, by simpa using hne, by simpa using hentry⟩

/-- Nothing counts behind an entry point. -/
theorem describedNames_append (h : ∃ n ∈ ns, isEntryPoint e n = true) (ms : List String) :
    describedNames e m (ns ++ ms) = describedNames e m ns := by
  have hstop : (ns.takeWhile fun n => !isEntryPoint e n).length ≠ ns.length := by
    intro hlength
    obtain ⟨n, hn, hentry⟩ := h
    rw [← List.IsPrefix.eq_of_length (List.takeWhile_prefix _) hlength] at hn
    have := List.all_eq_true.mp List.all_takeWhile n hn
    rw [hentry] at this
    contradiction
  rw [describedNames, List.takeWhile_append, if_neg hstop, describedNames]

/-- A name behind others counts if it is neither the method nor an entry point. -/
theorem describedNames_concat (h : ∀ n ∈ ns, isEntryPoint e n = false) (f : String) :
    describedNames e m (ns ++ [f]) =
      if f = m ∨ f = e ∨ f = e ++ "_with" then describedNames e m ns
      else describedNames e m ns ++ [f] := by
  have hall : ∀ n ∈ ns, (!isEntryPoint e n) = true := fun n hn => by rw [h n hn]; rfl
  have htake : ns.takeWhile (fun n => !isEntryPoint e n) = ns :=
    List.takeWhile_eq_self_iff.mpr hall
  rw [describedNames, List.takeWhile_append_of_pos hall, List.filter_append, describedNames, htake]
  by_cases hentry : isEntryPoint e f = true
  · rw [if_pos (Or.inr (isEntryPoint_iff.mp hentry)), List.takeWhile_cons_of_neg (by simp [hentry])]
    simp
  · have hnot := mt isEntryPoint_iff.mpr hentry
    rw [List.takeWhile_cons_of_pos (by simp [hentry])]
    by_cases hm : f = m
    · rw [if_pos (Or.inl hm)]
      simp [hm]
    · rw [if_neg (not_or.mpr ⟨hm, hnot⟩)]
      simp [hm]

/-! ## Chains -/

theorem intercalate_concat (ns : List String) (f : String) :
    ".".intercalate (ns ++ [f]) = if ns = [] then f else ".".intercalate ns ++ "." ++ f := by
  induction ns with
  | nil => rw [List.nil_append, String.intercalate_singleton, if_pos rfl]
  | cons n ns ih =>
    rw [if_neg (List.cons_ne_nil n ns)]
    cases ns with
    | nil => rw [List.singleton_append, String.intercalate_cons_cons, String.intercalate_singleton,
        String.intercalate_singleton]
    | cons n' ns =>
      rw [if_neg (List.cons_ne_nil n' ns)] at ih
      rw [List.cons_append, List.cons_append, String.intercalate_cons_cons, ← List.cons_append, ih,
        String.intercalate_cons_cons]
      simp only [String.append_assoc]

/-- The chain of an expression is empty only if no name in it counts. -/
theorem intercalate_eq_empty_iff (h : ∀ n ∈ ns, n ≠ "") : ".".intercalate ns = "" ↔ ns = [] := by
  cases ns with
  | nil => simp
  | cons n ns =>
    refine iff_of_false (fun hempty => ?_) (List.cons_ne_nil n ns)
    have hlist := congrArg String.toList hempty
    have hn : n.toList = [] := by
      cases ns with
      | nil => simpa using hlist
      | cons n' ns =>
        rw [String.intercalate_cons_cons, String.toList_append, String.toList_append] at hlist
        simp at hlist
    exact h n List.mem_cons_self (String.toList_inj.mp hn)

theorem chain_of_receiver? {c : Candidate} {t : Tree} (h : c.receiver? = some t) (e m : String) :
    c.chain e m = ".".intercalate (describedNames e m (names t)) := by
  rw [Candidate.chain, h]

/-- No point stands in a word of the source. -/
def PlainWords (s : Source) : Prop :=
  ∀ t ∈ s.root.tokens, t.kind = .word → '.' ∉ t.text.toList

theorem parse_plainWords (text : String) : PlainWords (.parse text) := by
  intro t ht hword
  rw [Source.parse_tokens] at ht
  exact not_mem_point_of_word ht hword

/-- Names in a source are words. -/
theorem Shows.word {s : Source} (hs : s.WellFormed) (hplain : PlainWords s) {n : String} {t : Tree}
    (h : Shows n t) (ht : t ∈ s.root.preorder) : n ≠ "" ∧ '.' ∉ n.toList := by
  induction h with
  | @here r k t hk hn =>
    have hword : t.kind = .word := by
      have hfits := (hs.lawful _ ht).fits t rfl
      rw [isNameKind, Bool.or_eq_true, beq_iff_eq, beq_iff_eq] at hk
      rcases hk with rfl | rfl
      · exact hfits .word rfl
      · exact hfits .word rfl
    have hroot : t ∈ s.root.tokens := by
      have hsub := Tree.tokens_sublist ht
      rw [Tree.tokens_leaf] at hsub
      exact hsub.subset List.mem_cons_self
    rw [← hn]
    refine ⟨fun hempty => (hs.placed _ ht t rfl).spelt.nonempty ?_, hplain t hroot hword⟩
    rw [hempty]
    rfl
  | @inside r k s cs c _ hc _ ih =>
    have hchild : c ∈ (Syntax.Tree.node r k s cs).children := hc
    exact ih (Tree.mem_preorder_of_mem_children hchild ht)

/-- The entry point, or its form that takes a context, stands in the tree. -/
def ShowsEntryPoint (e : String) (t : Tree) : Prop := ∃ n, Shows n t ∧ (n = e ∨ n = e ++ "_with")

/-- What a link with the name adds to a chain that no entry point has ended yet. -/
def extendChain (e m chain : String) : Option String → String
  | none => chain
  | some f =>
    if f = m ∨ f = e ∨ f = e ++ "_with" then chain
    else if chain = "" then f else chain ++ "." ++ f

/-- The chain grows link by link. Where the receiver shows an entry point, a link changes nothing;
otherwise it adds its name, unless that is the method or an entry point. Only names that the
receiver shows are in the chain, neither the method nor an entry point among them, and what stands
in skipped subtrees does not matter. -/
theorem chain_of_link {s : Source} (hs : s.WellFormed) (hplain : PlainWords s) {c : Candidate}
    {base : Tree} (hbase : base ∈ s.root.preorder) (hc : c.receiver? = some base) (e m : String) :
    (∀ base' name t, skeleton base' = skeleton base → Link base' name t →
      ∀ d : Candidate, d.receiver? = some t →
        (ShowsEntryPoint e base → d.chain e m = c.chain e m) ∧
        (¬ ShowsEntryPoint e base → d.chain e m = extendChain e m (c.chain e m) name)) ∧
    (∀ base', skeleton base' = skeleton base →
      ∀ d : Candidate, d.receiver? = some base' → d.chain e m = c.chain e m) ∧
    (c.chain e m ≠ "" → ∀ part ∈ splitString '.' (c.chain e m),
      Shows part base ∧ part ≠ m ∧ part ≠ e ∧ part ≠ e ++ "_with") := by
  have hchain := chain_of_receiver? hc e m
  have hwords : ∀ n ∈ names base, n ≠ "" ∧ '.' ∉ n.toList := fun n hn =>
    (mem_names.mp hn).word hs hplain hbase
  have hdescribed : ∀ n ∈ describedNames e m (names base), n ≠ "" ∧ '.' ∉ n.toList :=
    fun n hn => hwords n (mem_describedNames hn).1
  refine ⟨fun base' name t hbase' hlink d hd => ?_, fun base' hbase' d hd => ?_,
    fun hne part hpart => ?_⟩
  · have hnames : names t = names base ++ name.toList := by
      rw [names_of_link hlink, names_eq_of_skeleton hbase']
    rw [chain_of_receiver? hd, hnames, hchain]
    refine ⟨fun ⟨n, hn, hentry⟩ => ?_, fun hnone => ?_⟩
    · rw [describedNames_append ⟨n, mem_names.mpr hn, isEntryPoint_iff.mpr hentry⟩]
    · have hall : ∀ n ∈ names base, isEntryPoint e n = false := fun n hn =>
        Bool.eq_false_iff.mpr fun hentry =>
          hnone ⟨n, mem_names.mp hn, isEntryPoint_iff.mp hentry⟩
      cases name with
      | none => rw [Option.toList_none, List.append_nil, extendChain]
      | some f =>
        rw [Option.toList_some, describedNames_concat hall, extendChain]
        split
        · rfl
        · rw [intercalate_concat]
          exact if_congr (intercalate_eq_empty_iff fun n hn => (hdescribed n hn).1).symm rfl rfl
  · rw [chain_of_receiver? hd, names_eq_of_skeleton hbase', hchain]
  · have hlist : describedNames e m (names base) ≠ [] := by
      intro hnil
      rw [hchain, hnil] at hne
      exact hne rfl
    rw [hchain, Text.splitString_intercalate (by decide : ".".toList = ['.']) hlist
      fun n hn => (hdescribed n hn).2] at hpart
    obtain ⟨hmem, hmethod, hentry⟩ := mem_describedNames hpart
    have hnot := mt isEntryPoint_iff.mpr (Bool.eq_false_iff.mp hentry)
    rw [not_or] at hnot
    exact ⟨mem_names.mp hmem, hmethod, hnot⟩

theorem mem_preorder_of_receiver? {text method : String} {line : Nat} {c : Candidate} {t : Tree}
    (hc : c ∈ onLine (.parse text) method line) (ht : c.receiver? = some t) :
    t ∈ (Source.parse text).root.preorder := by
  obtain ⟨-, -, hroot, -, hcall⟩ := (mem_onLine (Source.parse_wellFormed text)).mp hc
  obtain ⟨_, -, hspine⟩ := spine_receiver hcall ht
  exact Tree.mem_preorder_trans hspine.mem hroot

/-- A check on a name, and one on a call with type arguments on the same name. -/
def nameAndCall : String := "fn t() \x7b a.be(1); a.b::<T>(x).be(2); \x7d"

theorem exists_link : ∃ (c d : Candidate) (base base' t : Tree),
    base ∈ (Source.parse nameAndCall).root.preorder ∧ c.receiver? = some base ∧
    d.receiver? = some t ∧ skeleton base' = skeleton base ∧ names base = ["a"] ∧
    Link base' (some "b") t := by
  have hcheck : ((onLine (.parse nameAndCall) "be" 1).head?.bind fun c =>
      (onLine (.parse nameAndCall) "be" 1).getLast?.bind fun d =>
      c.receiver?.bind fun base => d.receiver?.bind fun t => (operand? t).bind fun callee =>
      (operand? callee).bind fun member => (operand? member).bind fun base' =>
      base.token?.bind fun u => base'.token?.filter fun u' =>
        (t.kind == .call && callee.kind == .generic && member.kind == .member) &&
        (names base == ["a"] && names t == ["a", "b"]) &&
        (base'.kind == base.kind && u'.kind == u.kind && u'.text == u.text)).isSome = true := by
    decide +kernel
  obtain ⟨u', h⟩ := Option.isSome_iff_exists.mp hcheck
  simp only [Option.bind_eq_some_iff, Option.filter_eq_some_iff, Bool.and_eq_true, beq_iff_eq] at h
  obtain ⟨c, hc, d, hd, base, hbase, t, ht, callee, hcallee, member, hmember, base', hbase', u, hu,
    hu', ⟨⟨⟨htkind, hckind⟩, hmkind⟩, hnames, hnames'⟩, ⟨hkind, hukind⟩, hutext⟩ := h
  have hroot := mem_preorder_of_receiver? (List.mem_of_head? hc) hbase
  have htroot := mem_preorder_of_receiver? (List.mem_of_getLast? hd) ht
  have hcroot := Tree.mem_preorder_of_mem_children (mem_children_of_operand? hcallee) htroot
  have hmroot := Tree.mem_preorder_of_mem_children (mem_children_of_operand? hmember) hcroot
  have hskeleton : skeleton base' = skeleton base := by
    rw [Tree.eq_leaf_of_token? hu', Tree.eq_leaf_of_token? hu, skeleton, skeleton, hkind, hukind,
      hutext]
  obtain ⟨name, hlink⟩ := (link_of_operand hmroot hbase').1 hmkind
  have hlink := (link_of_operand hcroot hmember).2 (Or.inr hckind) _ _ hlink
  have hlink := (link_of_operand htroot hcallee).2 (Or.inl htkind) _ _ hlink
  have hname : name = some "b" := by
    have := names_of_link hlink
    rw [names_eq_of_skeleton hskeleton, hnames, hnames'] at this
    cases name with
    | none => simp at this
    | some f => simpa using this.symm
  exact ⟨c, d, base, base', t, hroot, hbase, ht, hskeleton, hnames, hname ▸ hlink⟩

theorem chain_of_link_nameAndCall : (Source.parse nameAndCall).WellFormed ∧
    PlainWords (.parse nameAndCall) ∧ ∃ (c d : Candidate) (base t : Tree),
    base ∈ (Source.parse nameAndCall).root.preorder ∧ c.receiver? = some base ∧
    d.receiver? = some t ∧ c.chain "should" "be" = "a" ∧ d.chain "should" "be" = "a.b" := by
  obtain ⟨c, d, base, base', t, hbase, hc, hd, hskeleton, hnames, hlink⟩ := exists_link
  have hchain : c.chain "should" "be" = "a" := by
    rw [chain_of_receiver? hc, hnames]
    decide +kernel
  have hnone : ¬ ShowsEntryPoint "should" base := by
    rintro ⟨n, hn, hentry⟩
    rw [← mem_names, hnames, List.mem_singleton] at hn
    subst hn
    revert hentry
    decide +kernel
  have hs := Source.parse_wellFormed nameAndCall
  have hplain := parse_plainWords nameAndCall
  have hlinks := (chain_of_link hs hplain hbase hc "should" "be").1
  refine ⟨hs, hplain, c, d, base, t, hbase, hc, hd, hchain, ?_⟩
  rw [(hlinks base' (some "b") t hskeleton hlink d hd).2 hnone, hchain]
  decide +kernel

end Attest.Call
