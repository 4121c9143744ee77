/-
  Layout. Trees hold the same code if they differ only in where they stand. What is read off a call,
  its arguments, its literals and its names, does not depend on the places in it
  (`Candidate.accepts_unplaced`, `Candidate.chain_unplaced`). Main statement (`resolve_same_code`):
  so if a call is the only one of its method that is named on its line, it gives the same answer in
  every layout of the code, on one line or over several. The sources are well-formed, as all that are
  read are (`Source.parse_wellFormed`).
-/
import Attest.Proofs.Call.Resolve
import Mathlib.Data.List.Forall2

namespace Attest.Syntax.Tree

mutual

/-- The same nodes and the same texts, wherever they stand. -/
def sameCode : Tree → Tree → Bool
  | .leaf r k t, .leaf r' k' u => r = r' && k = k' && t.text = u.text
  | .node r k _ cs, .node r' k' _ ds => r = r' && k = k' && sameCodeAll cs ds
  | _, _ => false

def sameCodeAll : List Tree → List Tree → Bool
  | [], [] => true
  | t :: ts, u :: us => sameCode t u && sameCodeAll ts us
  | _, _ => false

end

theorem sameCodeAll_iff {ts us : List Tree} :
    sameCodeAll ts us = true ↔ List.Forall₂ (fun t u => t.sameCode u = true) ts us := by
  induction ts generalizing us with
  | nil => cases us <;> simp [sameCodeAll]
  | cons t ts ih => cases us <;> simp [sameCodeAll, ih]

/-- Trees that hold the same code have the same code inside, in the same order. -/
theorem preorder_sameCode {t u : Tree} (h : t.sameCode u = true) :
    List.Forall₂ (fun t u => t.sameCode u = true) t.preorder u.preorder := by
  induction t using induct generalizing u with
  | leaf r k tok =>
    cases u with
    | leaf => exact .cons h .nil
    | node => simp [sameCode] at h
  | node r k s cs ih =>
    cases u with
    | leaf => simp [sameCode] at h
    | node r' k' s' ds =>
      have hall : sameCodeAll cs ds = true := by
        simp only [sameCode, Bool.and_eq_true] at h
        exact h.2
      rw [preorder, preorder]
      refine .cons h ?_
      rw [sameCodeAll_iff] at hall
      clear h
      induction hall with
      | nil => exact .nil
      | cons hcd _ ihs =>
        rw [List.forall_mem_cons] at ih
        exact List.rel_append (ih.1 hcd) (ihs ih.2)

/-! ## Trees without places -/

mutual

/-- The nodes and the texts of a tree, all in one place. -/
def unplaced : Tree → Tree
  | .leaf r k t => .leaf r k ⟨.mark, t.text, 0, 0⟩
  | .node r k _ cs => .node r k ⟨0, 0⟩ (unplacedAll cs)

def unplacedAll : List Tree → List Tree
  | [] => []
  | t :: ts => unplaced t :: unplacedAll ts

end

theorem unplacedAll_eq_map (ts : List Tree) : unplacedAll ts = ts.map unplaced := by
  induction ts with
  | nil => rfl
  | cons t ts ih => rw [unplacedAll, ih, List.map_cons]

/-- The same code is the same without its places. -/
theorem unplaced_eq_of_sameCode {t u : Tree} (h : t.sameCode u = true) :
    t.unplaced = u.unplaced := by
  induction t using induct generalizing u with
  | leaf r k tok =>
    cases u with
    | leaf r' k' tok' =>
      simp only [sameCode, Bool.and_eq_true, decide_eq_true_eq] at h
      obtain ⟨⟨rfl, rfl⟩, htext⟩ := h
      rw [unplaced, unplaced, htext]
    | node => simp [sameCode] at h
  | node r k s cs ih =>
    cases u with
    | leaf => simp [sameCode] at h
    | node r' k' s' ds =>
      simp only [sameCode, Bool.and_eq_true, decide_eq_true_eq] at h
      obtain ⟨⟨rfl, rfl⟩, hall⟩ := h
      have hchildren : cs.map unplaced = ds.map unplaced := by
        rw [sameCodeAll_iff] at hall
        induction hall with
        | nil => rfl
        | cons hcd _ ihs =>
          rw [List.forall_mem_cons] at ih
          rw [List.map_cons, List.map_cons, ih.1 hcd, ihs ih.2]
      rw [unplaced, unplaced, unplacedAll_eq_map, unplacedAll_eq_map, hchildren]

@[simp] theorem role_unplaced (t : Tree) : t.unplaced.role = t.role := by cases t <;> rfl

@[simp] theorem kind_unplaced (t : Tree) : t.unplaced.kind = t.kind := by cases t <;> rfl

@[simp] theorem text_unplaced (t : Tree) : t.unplaced.text = t.text := by cases t <;> rfl

@[simp] theorem isNamed_unplaced (t : Tree) : t.unplaced.isNamed = t.isNamed := by
  rw [isNamed, kind_unplaced, isNamed]

@[simp] theorem isComment_unplaced (t : Tree) : t.unplaced.isComment = t.isComment := by
  rw [isComment, kind_unplaced, isComment]

@[simp] theorem children_unplaced (t : Tree) :
    t.unplaced.children = t.children.map unplaced := by
  cases t with
  | leaf => rfl
  | node r k s cs => exact unplacedAll_eq_map cs

@[simp] theorem child?_unplaced (t : Tree) (r : Role) :
    t.unplaced.child? r = (t.child? r).map unplaced := by
  simp [child?, List.find?_map, Function.comp_def]

end Attest.Syntax.Tree

namespace Attest.Call

open Syntax
open Syntax.Tree (unplaced unplacedAll unplacedAll_eq_map)

/-! ## What does not depend on places -/

theorem namesAll_unplaced {ts : List Tree} (h : ∀ t ∈ ts, names t.unplaced = names t) :
    namesAll (ts.map unplaced) = namesAll ts := by
  induction ts with
  | nil => rfl
  | cons t ts ih =>
    rw [List.forall_mem_cons] at h
    rw [List.map_cons, namesAll, namesAll, h.1, ih h.2]

theorem names_unplaced (t : Tree) : names t.unplaced = names t := by
  induction t using Tree.induct with
  | leaf r k t => rfl
  | node r k s cs ih =>
    rw [unplaced, names, names, unplacedAll_eq_map, namesAll_unplaced ih]

namespace Literal

theorem isMinus_unplaced (ts : List Tree) : isMinus (ts.map unplaced) = isMinus ts := by
  cases ts with
  | nil => rfl
  | cons t ts => rw [List.map_cons, isMinus, isMinus, Tree.text_unplaced]

section

variable {ts : List Tree} (h : ∀ t ∈ ts, ofTree? t.unplaced = ofTree? t)
include h

theorem ofFirst?_unplaced : ofFirst? (ts.map unplaced) = ofFirst? ts := by
  induction ts with
  | nil => rfl
  | cons t ts ih =>
    rw [List.forall_mem_cons] at h
    rw [List.map_cons, ofFirst?, ofFirst?, Tree.isNamed_unplaced, h.1, ih h.2]

theorem ofLast?_unplaced : ofLast? (ts.map unplaced) = ofLast? ts := by
  induction ts with
  | nil => rfl
  | cons t ts ih =>
    rw [List.forall_mem_cons] at h
    have hany : (ts.map unplaced).any Tree.isNamed = ts.any Tree.isNamed := by
      simp [List.any_map, Function.comp_def]
    rw [List.map_cons, ofLast?, ofLast?, hany, Tree.isNamed_unplaced, h.1, ih h.2]

end

theorem ofTree?_unplaced (t : Tree) : ofTree? t.unplaced = ofTree? t := by
  induction t using Tree.induct with
  | leaf r k t => rfl
  | node r k s cs ih =>
    rw [unplaced, unplacedAll_eq_map]
    cases k with
    | unary => rw [ofTree?, ofTree?, isMinus_unplaced, ofLast?_unplaced ih]
    | paren => rw [ofTree?, ofTree?, ofFirst?_unplaced ih]
    | _ => rfl

end Literal

theorem argumentAccepts_unplaced (t : Tree) (v : Scalar) :
    argumentAccepts t.unplaced v = argumentAccepts t v := by
  have hcompare : compare t.unplaced v = compare t v := by
    rw [compare, compare, Literal.ofTree?_unplaced]
  unfold argumentAccepts
  split
  · rfl
  · rw [hcompare]

theorem dereferenced_unplaced (t : Tree) :
    dereferenced t.unplaced = (dereferenced t).map unplaced := by
  unfold dereferenced
  rw [Tree.kind_unplaced, Tree.child?_unplaced]
  split <;> rfl

theorem elements_unplaced (t : Tree) : elements t.unplaced = (elements t).map unplaced := by
  simp [elements, List.filter_map, Function.comp_def]

theorem sequenceArguments_unplaced (ts : List Tree) :
    sequenceArguments (ts.map unplaced) = (sequenceArguments ts).map unplaced := by
  cases ts with
  | nil => rfl
  | cons t ts =>
    cases ts with
    | cons => rfl
    | nil =>
      rw [List.map_cons, List.map_nil, sequenceArguments, sequenceArguments, dereferenced_unplaced]
      cases dereferenced t with
      | none => rfl
      | some a =>
        simp only [Option.map_some, Tree.kind_unplaced]
        split
        · exact elements_unplaced a
        · rfl

namespace Candidate

def unplaced (c : Candidate) : Candidate := ⟨c.call.unplaced, c.member.unplaced⟩

theorem memberOf?_unplaced (t : Tree) :
    memberOf? t.unplaced = (memberOf? t).map Tree.unplaced := by
  simp only [memberOf?, Tree.kind_unplaced, Tree.child?_unplaced]
  split
  · cases t.child? .function with
    | none => rfl
    | some f =>
      simp only [Option.map_some, Tree.kind_unplaced, Tree.child?_unplaced]
      by_cases hgeneric : f.kind = .generic
      · rw [if_pos hgeneric, if_pos hgeneric]
        cases f.child? .function with
        | none => rfl
        | some m =>
          simp only [Option.map_some, Tree.kind_unplaced]
          split <;> rfl
      · rw [if_neg hgeneric, if_neg hgeneric]
        simp only [Tree.kind_unplaced]
        split <;> rfl
  · rfl

theorem isArgument_unplaced (t : Tree) : isArgument t.unplaced = isArgument t := by
  simp [isArgument]

variable (c : Candidate)

theorem arguments_unplaced : c.unplaced.arguments = c.arguments.map Tree.unplaced := by
  rw [arguments, arguments, unplaced, Tree.child?_unplaced]
  cases c.call.child? .arguments with
  | none => rfl
  | some ts => simp [isArgument_unplaced, List.filter_map, Function.comp_def]

/-- Neither the check of a call nor the chain depends on where the call stands. -/
theorem accepts_unplaced (expected : Expected) :
    c.unplaced.accepts expected = c.accepts expected := by
  cases expected with
  | scalar v =>
    rw [accepts, accepts, arguments_unplaced]
    cases c.arguments with
    | nil => rfl
    | cons t ts => exact if_congr Iff.rfl rfl (argumentAccepts_unplaced t v)
  | sequence vs =>
    have hall (ps : List (Scalar × Tree)) :
        acceptsAll (ps.map (Prod.map id Tree.unplaced)) = acceptsAll ps := by
      induction ps with
      | nil => rfl
      | cons p ps ih =>
        have hhead := argumentAccepts_unplaced p.2 p.1
        rw [List.map_cons, Prod.map, acceptsAll, acceptsAll, id, hhead, ih]
    rw [accepts, accepts, arguments_unplaced, sequenceArguments_unplaced, List.zip_map_right, hall]

theorem chain_unplaced (entryPoint method : String) :
    c.unplaced.chain entryPoint method = c.chain entryPoint method := by
  have hreceiver : c.unplaced.receiver? = c.receiver?.map Tree.unplaced :=
    Tree.child?_unplaced c.member .value
  rw [chain, chain, hreceiver]
  cases c.receiver? with
  | none => rfl
  | some t =>
    dsimp only [Option.map_some]
    rw [names_unplaced]

end Candidate

/-! ## Layouts -/

variable {s s' : Source} {method : String} {line line' : Nat} {c c' : Candidate}

/-- Named calls that hold the same code are the same without their places. -/
theorem unplaced_eq_of_named (hc : NamedOn s method line c) (hc' : NamedOn s' method line' c')
    (h : c.call.sameCode c'.call = true) : c.unplaced = c'.unplaced := by
  obtain ⟨-, _, hcalls, -⟩ := hc
  obtain ⟨-, _, hcalls', -⟩ := hc'
  have hcall := Tree.unplaced_eq_of_sameCode h
  have hmember : c.member.unplaced = c'.member.unplaced := by
    have hmap := congrArg Candidate.memberOf? hcall
    rw [Candidate.memberOf?_unplaced, Candidate.memberOf?_unplaced, hcalls.memberOf?_eq,
      hcalls'.memberOf?_eq] at hmap
    exact Option.some.inj hmap
  rw [Candidate.unplaced, Candidate.unplaced, hcall, hmember]

/-- In two layouts of the same code a call gives the same answer, if in both it is the only one of
its method that is named on its line. -/
theorem resolve_same_code (hs : s.WellFormed) (hs' : s'.WellFormed)
    (hcode : s.root.sameCode s'.root = true) {i : Nat} (hi : s.root.preorder[i]? = some c.call)
    (hi' : s'.root.preorder[i]? = some c'.call) (hc : OnlyNamedOn s method line c)
    (hc' : OnlyNamedOn s' method line' c') (entryPoint : String) (expected : Expected) :
    resolve s entryPoint method line expected = resolve s' entryPoint method line' expected := by
  have hcall : c.call.sameCode c'.call = true := by
    obtain ⟨hlt, hget⟩ := List.getElem?_eq_some_iff.mp hi
    obtain ⟨hlt', hget'⟩ := List.getElem?_eq_some_iff.mp hi'
    rw [← hget, ← hget']
    exact (Tree.preorder_sameCode hcode).get hlt hlt'
  have hunplaced := unplaced_eq_of_named hc.1 hc'.1 hcall
  have haccepts : c.accepts expected = c'.accepts expected := by
    rw [← c.accepts_unplaced, hunplaced, c'.accepts_unplaced]
  have hchain : c.chain entryPoint method = c'.chain entryPoint method := by
    rw [← c.chain_unplaced, hunplaced, c'.chain_unplaced]
  rw [resolve_of_onlyNamedOn hs hc, resolve_of_onlyNamedOn hs' hc', haccepts, hchain]

/-- A fluent chain on one line. -/
def chainOnOneLine : String := "fn t() \x7b x.y().should().be(1); \x7d"

/-- The same chain over several lines. -/
def chainOverLines : String :=
  "fn t() \x7b\n    x\n        .y()\n        .should()\n        .be(1);\n\x7d\n"

/-- If one call is named on a row, and it is this one, it is the only one. -/
theorem exists_onlyNamedOn {s : Source} (hs : s.WellFormed) (hmethod : IsMethodName method)
    (i row : Nat) (hcall : ((s.root.preorder[i]?).bind (Candidate.ofTree? method)).bind
      Candidate.nameRow? = some row) (hlength : (anchored s method row).length = 1) :
    ∃ c, s.root.preorder[i]? = some c.call ∧ OnlyNamedOn s method (row + 1) c := by
  obtain ⟨c, hc, hrow⟩ := Option.bind_eq_some_iff.mp hcall
  obtain ⟨t, ht, hc⟩ := Option.bind_eq_some_iff.mp hc
  obtain ⟨rfl, -⟩ := Candidate.ofTree?_eq_some hc
  obtain ⟨d, hd⟩ := List.length_eq_one_iff.mp hlength
  have honly (e) (he : NamedOn s method (row + 1) e) : e = d := by
    have := (mem_anchored_iff_namedOn hs hmethod).mpr he
    rwa [hd, List.mem_singleton] at this
  have hnamed : NamedOn s method (row + 1) c :=
    (mem_anchored_iff_namedOn hs hmethod).mp (mem_anchored.mpr ⟨List.mem_of_getElem? ht, hc, hrow⟩)
  exact ⟨c, ht, hnamed, fun e he => (honly e he).trans (honly c hnamed).symm⟩

theorem resolve_same_code_wrapped : ∃ (c c' : Candidate) (i : Nat),
    (Source.parse chainOnOneLine).WellFormed ∧ (Source.parse chainOverLines).WellFormed ∧
    (Source.parse chainOnOneLine).root.sameCode (Source.parse chainOverLines).root = true ∧
    (Source.parse chainOnOneLine).root.preorder[i]? = some c.call ∧
    (Source.parse chainOverLines).root.preorder[i]? = some c'.call ∧
    OnlyNamedOn (.parse chainOnOneLine) "be" 1 c ∧ OnlyNamedOn (.parse chainOverLines) "be" 5 c' ∧
    resolve (.parse chainOnOneLine) "should" "be" 1 (.scalar (.int 1)) =
      resolve (.parse chainOverLines) "should" "be" 5 (.scalar (.int 1)) := by
  have hcode : (Source.parse chainOnOneLine).root.sameCode (Source.parse chainOverLines).root =
      true := by
    decide +kernel
  have hs := Source.parse_wellFormed chainOnOneLine
  have hs' := Source.parse_wellFormed chainOverLines
  have hmethod : IsMethodName "be" := by decide
  obtain ⟨c, hi, hc⟩ := exists_onlyNamedOn hs hmethod 10 0 (by decide +kernel) (by decide +kernel)
  obtain ⟨c', hi', hc'⟩ :=
    exists_onlyNamedOn hs' hmethod 10 4 (by decide +kernel) (by decide +kernel)
  exact ⟨c, c', 10, hs, hs', hcode, hi, hi', hc, hc',
    resolve_same_code hs hs' hcode hi hi' hc hc' "should" _⟩

end Attest.Call
