/-
  The search by a query. The calls named on a row can also be found by two patterns, one for calls
  with and one for calls without type arguments, that capture the name of the method. Whatever the
  order in which matches are found, they give the candidates of the second search
  (`ofMatches_perm`). Main statement (`searches_agree`): neither search finds a call twice, and the
  first one finds those calls of the second one that lie on the line.
-/
import Attest.Proofs.Call.Order
import Attest.Proofs.Syntax.RustParts

namespace Attest.Call

open Syntax

/-! ## The query -/

/-- The parts and kinds of the trees on the way down from a tree, child by child. -/
abbrev Pattern := List (Role × Kind)

/-- The trees that the pattern leads to, on all ways. -/
def Pattern.ends : Pattern → Tree → List Tree
  | [], t => [t]
  | (role, kind) :: steps, t =>
    (t.children.filter fun c => c.role == role && c.kind == kind).flatMap (ends steps)

/-- From a call to the name of the method, without and with type arguments. -/
def callPatterns : List Pattern :=
  [[(.function, .member), (.field, .fieldName)],
   [(.function, .generic), (.function, .member), (.field, .fieldName)]]

/-- A call that is matched, with the name that is captured. -/
structure Match where
  call : Tree
  name : Tree

def matchesAt (t : Tree) : List Match :=
  if t.kind = .call then callPatterns.flatMap fun p => (p.ends t).map (Match.mk t) else []

def allMatches (s : Source) : List Match := s.root.preorder.flatMap matchesAt

def Match.isNamedOn (row : Nat) (m : Match) : Bool := m.name.token?.map Token.row == some row

/-- The calls of a method among matches with names on a row, sorted by start. -/
def ofMatches (method : String) (row : Nat) (ms : List Match) : List Candidate :=
  sortByStart ((ms.filter (Match.isNamedOn row)).filterMap fun m => Candidate.ofTree? method m.call)

/-! ## One match for a call -/

/-- Only one child can play the part. -/
theorem ends_cons {t : Tree} (ht : t.Parted) {role : Role} (hrole : role ≠ .plain) (kind : Kind)
    (steps : Pattern) : Pattern.ends ((role, kind) :: steps) t =
      ((t.child? role).filter fun c => c.kind == kind).toList.flatMap steps.ends := by
  have hfilter : (t.children.filter fun c => c.role == role && c.kind == kind) =
      (t.children.filter fun c => c.role == role).filter fun c => c.kind == kind := by
    rw [List.filter_filter]
    simp only [Bool.and_comm]
  rw [Pattern.ends, hfilter, ht.filter_role hrole]
  cases t.child? role with
  | none => rfl
  | some c => by_cases hkind : c.kind = kind <;> simp [Option.filter, hkind]

/-- The name of a member, if it is a word. -/
def fieldName? (m : Tree) : Option Tree := (m.child? .field).filter fun f => f.kind == .fieldName

theorem ends_field {m : Tree} (hm : m.Parted) :
    Pattern.ends [(.field, .fieldName)] m = (fieldName? m).toList := by
  rw [ends_cons hm (by decide), fieldName?]
  cases (m.child? .field).filter fun f => f.kind == .fieldName <;> rfl

/-- The names that calls of the function are matched with. -/
theorem callPatterns_ends {t : Tree} (ht : ∀ u ∈ t.preorder, u.Parted) (hcall : t.kind = .call) :
    callPatterns.flatMap (fun p => p.ends t) =
      ((Candidate.memberOf? t).bind fieldName?).toList := by
  have hself := ht t (Tree.mem_preorder_self t)
  simp only [callPatterns, List.flatMap_cons, List.flatMap_nil, List.append_nil]
  rw [ends_cons hself (by decide), ends_cons hself (by decide), Candidate.memberOf?, if_pos hcall]
  cases hf : t.child? .function with
  | none => rfl
  | some f =>
    have hfin := Tree.mem_preorder_of_mem_children (Tree.mem_children_of_child? hf)
      (Tree.mem_preorder_self t)
    by_cases hgeneric : f.kind = .generic
    · cases hm : f.child? .function with
      | none => simp [Option.filter, hgeneric, ends_cons (ht f hfin), hm]
      | some m =>
        have hmin := Tree.mem_preorder_of_mem_children (Tree.mem_children_of_child? hm) hfin
        by_cases hmember : m.kind = .member
        · simp [Option.filter, hgeneric, ends_cons (ht f hfin), hm, hmember, ends_field (ht m hmin)]
        · simp [Option.filter, hgeneric, ends_cons (ht f hfin), hm, hmember]
    · by_cases hmember : f.kind = .member
      · simp [Option.filter, hmember, ends_field (ht f hfin)]
      · simp [Option.filter, hgeneric, hmember]

/-- A tree is matched as a call of the member that it calls, and in no other way. -/
theorem matchesAt_eq {t : Tree} (ht : ∀ u ∈ t.preorder, u.Parted) :
    matchesAt t =
      ((Candidate.memberOf? t).bind fieldName?).toList.map (Match.mk t) := by
  unfold matchesAt
  split
  · next hcall =>
    rw [← List.map_flatMap, callPatterns_ends ht hcall]
  · next hcall =>
    rw [Candidate.memberOf?, if_neg hcall]
    rfl

theorem candidatesAt_eq {t : Tree} (ht : ∀ u ∈ t.preorder, u.Parted) (method : String) (row : Nat) :
    ((matchesAt t).filter (Match.isNamedOn row)).filterMap
        (fun m => Candidate.ofTree? method m.call) =
      ((Candidate.ofTree? method t).filter fun c => c.nameRow? == some row).toList := by
  rw [matchesAt_eq ht]
  cases hc : Candidate.ofTree? method t with
  | none =>
    rw [List.filterMap_eq_nil_iff.mpr fun m hm => ?_]
    · rfl
    · obtain ⟨f, -, rfl⟩ := List.mem_map.mp (List.mem_filter.mp hm).1
      exact hc
  | some c =>
    obtain ⟨rfl, hmember, -⟩ := Candidate.ofTree?_eq_some hc
    rw [hmember]
    cases hf : c.member.child? .field with
    | none => simp [fieldName?, Candidate.nameRow?, hf, Option.filter]
    | some f =>
      by_cases hkind : f.kind = .fieldName
      · by_cases hrow : f.token?.map Token.row = some row
        · simp [fieldName?, Candidate.nameRow?, hf, Option.filter, hkind, Match.isNamedOn, hrow, hc]
        · simp [fieldName?, Candidate.nameRow?, hf, Option.filter, hkind, Match.isNamedOn, hrow]
      · simp [fieldName?, Candidate.nameRow?, hf, Option.filter, hkind]

/-- Matches in any order give the candidates of the second search, each once. -/
theorem ofMatches_perm {s : Source} (hs : ∀ t ∈ s.root.preorder, t.Parted) (method : String)
    (row : Nat) {ms : List Match} (hms : ms.Perm (allMatches s)) :
    (ofMatches method row ms).Perm (anchored s method row) := by
  have hmatches : ((allMatches s).filter (Match.isNamedOn row)).filterMap
      (fun m => Candidate.ofTree? method m.call) =
      (s.root.preorder.filterMap (Candidate.ofTree? method)).filter
        fun c => c.nameRow? == some row := by
    rw [allMatches, List.filter_flatMap, List.filterMap_flatMap, List.filter_filterMap,
      List.filterMap_eq_flatMap_toList]
    refine List.flatMap_congr fun t ht => ?_
    exact candidatesAt_eq (fun u hu => hs u (Tree.mem_preorder_trans hu ht)) method row
  have hcalls := ((postorder_perm s.root).filterMap (Candidate.ofTree? method)).filter
    fun c => c.nameRow? == some row
  have hfound := (hms.filter (Match.isNamedOn row)).filterMap
    fun m => Candidate.ofTree? method m.call
  rw [hmatches] at hfound
  exact ((sortByStart_perm _).trans (hfound.trans hcalls.symm)).trans (sortByStart_perm _).symm

/-- Neither search finds a call twice, and the first one finds those calls of the second one that lie
on the line. The second one finds what the query finds, in whatever order its matches come; as none
is found twice, it does not matter whether neighbours that are equal are left out. -/
theorem searches_agree {s : Source} (hs : s.Regular) {method : String}
    (hmethod : IsMethodName method) (row : Nat) :
    (onLine s method (row + 1)).Nodup ∧ (anchored s method row).Nodup ∧
    (∀ c, c ∈ onLine s method (row + 1) ↔ c ∈ anchored s method row ∧ LiesOn s (row + 1) c) ∧
    ∀ ms, ms.Perm (allMatches s) → (ofMatches method row ms).Perm (anchored s method row) := by
  have hwell := hs.wellFormed
  refine ⟨onLine_nodup hwell hs.once method _, anchored_nodup hwell hs.once method _,
    fun c => ?_, fun ms hms => ofMatches_perm hs.parted method row hms⟩
  rw [mem_onLine_iff_namedOn hwell hmethod, mem_anchored_iff_namedOn hwell hmethod]

/-- On the third line stands the end of one call and the whole of another one. -/
def endAndCall : String :=
  "fn t() \x7b\n    a.should()\n        .be(1); b.should().be::<u8>(2);\n\x7d\n"

theorem searches_agree_endAndCall : (Source.parse endAndCall).Regular ∧ IsMethodName "be" ∧
    (anchored (.parse endAndCall) "be" 2).length = 2 ∧
    (onLine (.parse endAndCall) "be" 3).length = 1 ∧
    (∀ c, c ∈ onLine (.parse endAndCall) "be" 3 ↔
      c ∈ anchored (.parse endAndCall) "be" 2 ∧ LiesOn (.parse endAndCall) 3 c) ∧
    (ofMatches "be" 2 (allMatches (.parse endAndCall))).Perm
      (anchored (.parse endAndCall) "be" 2) := by
  have hs := Source.parse_regular endAndCall
  have hmethod : IsMethodName "be" := by decide
  obtain ⟨-, -, hmem, hquery⟩ := searches_agree hs hmethod 2
  exact ⟨hs, hmethod, by decide +kernel, by decide +kernel, hmem, hquery _ (List.Perm.refl _)⟩

end Attest.Call
