/-
  Overflow. Naming what was checked overflows in one place only: where an argument that is compared
  with a number is exactly two minus signs in front of a decimal literal of 2 ^ 127. All offsets
  stay inside the text. Main statement: `ofSources_returns_iff`.
-/
import Attest.Context
import Attest.Proofs.Call.Literal
import Attest.Proofs.Call.Negation
import Attest.Proofs.Call.Resolve

namespace Attest.Call

open Syntax Number
open Literal (ofTree? ofToken? isMinus negate? integerValue bareDigits)

/-! ## Signed numbers -/

/-- An integer token behind `n` minus signs, in any parentheses. Of the children in parentheses the
first named one counts, comments included, and behind a minus sign the last one. -/
inductive Signed : Nat → List Char → Tree → Prop
  | token {r t} : Signed 0 t.text.toList (.leaf r .integer t)
  | paren {n cs r s children c} (hc : children.find? Tree.isNamed = some c) (h : Signed n cs c) :
      Signed n cs (.node r .paren s children)
  | minus {n cs r s children c} (hm : isMinus children = true)
      (hc : (children.filter Tree.isNamed).getLast? = some c) (h : Signed n cs c) :
      Signed (n + 1) cs (.node r .unary s children)

theorem ofTree?_of_signed {n : Nat} {cs : List Char} {t : Tree} (h : Signed n cs t) :
    ofTree? t = some (.integer (List.replicate n '-' ++ cs)) := by
  induction h with
  | token => rw [ofTree?]; rfl
  | paren hc _ ih => rw [ofTree?_paren, hc, Option.bind_some, ih]
  | minus hm hc _ ih =>
    rw [ofTree?_unary, if_pos hm, hc, Option.bind_some, ih, Option.bind_some, negate?,
      List.replicate_succ, List.cons_append]

/-- Only signed numbers are read as integer literals. -/
theorem signed_of_ofTree? {t : Tree} {ds : List Char} (h : ofTree? t = some (.integer ds)) :
    ∃ n cs, Signed n cs t ∧ ds = List.replicate n '-' ++ cs := by
  induction t using Tree.induct generalizing ds with
  | leaf r k tok =>
    rw [ofTree?] at h
    cases k <;> simp only [ofToken?, Option.some.injEq, reduceCtorEq, Literal.integer.injEq] at h
    exact ⟨0, _, .token, h.symm⟩
  | node r k s cs ih =>
    by_cases hunary : k = .unary
    · rw [hunary, ofTree?_unary] at h
      split at h
      · next hminus =>
        obtain ⟨operand, hlast, hneg⟩ := Option.bind_eq_some_iff.mp h
        obtain ⟨c, hc, hoperand⟩ := Option.bind_eq_some_iff.mp hlast
        have hmem := (List.mem_filter.mp (List.mem_of_getLast? hc)).1
        cases operand <;> simp only [negate?, Option.some.injEq, reduceCtorEq,
          Literal.integer.injEq] at hneg
        obtain ⟨n, digits, hsigned, rfl⟩ := ih c hmem hoperand
        rw [hunary]
        exact ⟨n + 1, digits, .minus hminus hc hsigned, hneg.symm⟩
      · contradiction
    · by_cases hparen : k = .paren
      · rw [hparen, ofTree?_paren] at h
        obtain ⟨c, hc, hinner⟩ := Option.bind_eq_some_iff.mp h
        obtain ⟨n, digits, hsigned, hds⟩ := ih c (List.mem_of_find?_eq_some hc) hinner
        rw [hparen]
        exact ⟨n, digits, .paren hc hsigned, hds⟩
      · rw [ofTree?_node hparen hunary] at h
        contradiction

/-- The digits of a signed number are the text of an integer token inside it. -/
theorem Signed.exists_leaf {n : Nat} {cs : List Char} {t : Tree} (h : Signed n cs t) :
    ∃ r tok, Tree.leaf r .integer tok ∈ t.preorder ∧ tok.text.toList = cs := by
  induction h with
  | @token r t => exact ⟨r, t, Tree.mem_preorder_self _, rfl⟩
  | paren hc _ ih =>
    obtain ⟨r, tok, hmem, htext⟩ := ih
    exact ⟨r, tok, Tree.mem_preorder.mpr (Or.inr ⟨_, List.mem_of_find?_eq_some hc, hmem⟩), htext⟩
  | minus _ hc _ ih =>
    obtain ⟨r, tok, hmem, htext⟩ := ih
    have hchild := (List.mem_filter.mp (List.mem_of_getLast? hc)).1
    exact ⟨r, tok, Tree.mem_preorder.mpr (Or.inr ⟨_, hchild, hmem⟩), htext⟩

theorem Signed.isInteger {s : Source} (hs : s.WellFormed) {n : Nat} {cs : List Char} {t : Tree}
    (ht : t ∈ s.root.preorder) (h : Signed n cs t) : IsInteger cs := by
  obtain ⟨r, tok, hmem, rfl⟩ := h.exists_leaf
  have hroot := Tree.mem_preorder_trans hmem ht
  exact (hs.placed _ hroot tok rfl).spelt.integer
    ((hs.lawful _ hroot).fits tok rfl .integer rfl)

/-! ## Checks that overflow -/

def IsNumeric (v : Scalar) : Prop := (∃ i, v = .int i) ∨ ∃ x, v = .float x

/-- The argument is exactly two minus signs in front of a decimal literal of 2 ^ 127, and it is
compared with a number. -/
def Overflows (t : Tree) (v : Scalar) : Prop :=
  IsNumeric v ∧ ∃ cs, Signed 2 cs t ∧ DecimalText cs (2 ^ 127)

/-- Some argument overflows before the check of the call is decided. -/
def Candidate.Overflows (c : Candidate) : Expected → Prop
  | .scalar v => v.isDefault = false ∧ ∃ t ∈ c.arguments.head?, Call.Overflows t v
  | .sequence vs => ∃ pre v t post, vs.zip (sequenceArguments c.arguments) = pre ++ (v, t) :: post ∧
      (∀ p ∈ pre, argumentAccepts p.2 p.1 = .ok true) ∧ Call.Overflows t v

theorem denotes_eq_error_iff {l : Literal} {v : Scalar} :
    l.denotes v = .error .negation ↔
      IsNumeric v ∧ ∃ ds, l = .integer ds ∧ integerValue ds = .error .negation := by
  unfold IsNumeric
  cases l <;> cases v <;> simp [Literal.denotes, map_eq_error_iff]

/-- A comparison overflows only if the argument does. -/
theorem compare_eq_error_iff {s : Source} (hs : s.WellFormed) {t : Tree}
    (ht : t ∈ s.root.preorder) {v : Scalar} :
    compare t v = .error .negation ↔ Overflows t v := by
  unfold compare
  constructor
  · intro h
    split at h
    · contradiction
    · next l hl =>
      obtain ⟨hv, ds, rfl, hvalue⟩ := denotes_eq_error_iff.mp (map_eq_error_iff.mp h)
      obtain ⟨n, cs, hsigned, rfl⟩ := signed_of_ofTree? hl
      obtain ⟨rfl, htext⟩ := (integerValue_overflows_iff (hsigned.isInteger hs ht) n).mp hvalue
      exact ⟨hv, cs, hsigned, htext⟩
  · rintro ⟨hv, cs, hsigned, htext⟩
    rw [ofTree?_of_signed hsigned]
    refine map_eq_error_iff.mpr (denotes_eq_error_iff.mpr ⟨hv, _, rfl, ?_⟩)
    exact (integerValue_overflows_iff (hsigned.isInteger hs ht) 2).mpr ⟨rfl, htext⟩

theorem argumentAccepts_eq_error_iff {s : Source} (hs : s.WellFormed) {t : Tree}
    (ht : t ∈ s.root.preorder) {v : Scalar} :
    argumentAccepts t v = .error .negation ↔ Overflows t v := by
  unfold argumentAccepts
  split
  · simp [Overflows, IsNumeric]
  · rw [map_eq_error_iff, compare_eq_error_iff hs ht]

theorem accepts_eq_error_iff {s : Source} (hs : s.WellFormed) {c : Candidate}
    (hc : c.call ∈ s.root.preorder) {expected : Expected} :
    c.accepts expected = .error .negation ↔ c.Overflows expected := by
  have hargument : ∀ t ∈ c.arguments, t ∈ s.root.preorder := fun t ht =>
    mem_preorder_of_mem_arguments hc ht
  cases expected with
  | scalar v =>
    rw [Candidate.Overflows, Candidate.accepts]
    by_cases hdefault : v.isDefault = true
    · simp [hdefault]
    · simp only [hdefault, if_false, Bool.false_eq_true, true_and]
      cases harguments : c.arguments with
      | nil => simp
      | cons t ts =>
        have ht := hargument t (by simp [harguments])
        simp [argumentAccepts_eq_error_iff hs ht]
  | sequence vs =>
    rw [Candidate.Overflows, Candidate.accepts, acceptsAll_eq_error_iff]
    refine exists_congr fun pre => exists_congr fun v => exists_congr fun t =>
      exists_congr fun post => and_congr_right fun hzip => and_congr_right fun _ => ?_
    have hpair : (v, t) ∈ vs.zip (sequenceArguments c.arguments) := by simp [hzip]
    exact argumentAccepts_eq_error_iff hs
      (mem_preorder_of_mem_sequenceArguments hargument (List.of_mem_zip hpair).2)

/-! ## Resolution -/

/-- A candidate overflows after all candidates before it have been rejected. -/
def ReachesOverflow (s : Source) (method : String) (line : Nat) (expected : Expected) : Prop :=
  ∃ pre c post, candidates s method line = pre ++ c :: post ∧
    (∀ d ∈ pre, d.accepts expected = .ok false) ∧ c.Overflows expected

theorem resolve_eq_error_iff {s : Source} (hs : s.WellFormed) (entryPoint method : String)
    (line : Nat) (expected : Expected) :
    resolve s entryPoint method line expected = .error .negation ↔
      ReachesOverflow s method line expected := by
  rw [resolve, map_eq_error_iff, select_eq_error_iff]
  refine exists_congr fun pre => exists_congr fun c => exists_congr fun post =>
    and_congr_right fun hcandidates => and_congr_right fun _ => ?_
  have hc : c ∈ candidates s method line := by simp [hcandidates]
  exact accepts_eq_error_iff hs (mem_preorder_of_mem_candidates hs hc)

/-- What is not an overflow is a result. -/
theorem exists_eq_ok_iff {α : Type} {x : Except Overflow α} :
    (∃ a, x = .ok a) ↔ x ≠ .error .negation := by
  match x with
  | .ok a => simp
  | .error .negation => simp

/-! ## Offsets -/

/-- All lines, slices and cuts by offset stay inside the text, between characters. -/
structure InBounds (s : Source) : Prop where
  lines : ∀ line, Text.lineSpanAt? s.text.toList line = some (Text.lineSpan s.text line)
  slices : ∀ t ∈ s.root.preorder, (Text.sliceAt? s.text.toList t.span).isSome = true
  leaves : ∀ t ∈ s.root.preorder, ∀ tok, t.token? = some tok →
    Text.sliceAt? s.text.toList t.span = some tok.text.toList
  suffixes : ∀ digits, bareDigitsAt? digits = some (bareDigits digits)
  hashes : ∀ quoted, rawValueAt? quoted = some (Literal.rawValue? quoted)

theorem inBounds_of_wellFormed {s : Source} (hs : s.WellFormed) : InBounds s where
  lines := Text.lineSpanAt?_eq s.text
  slices t ht := (hs.cuts t ht).sliceAt?_isSome
  leaves t ht tok htok := by
    obtain ⟨a, b, hcs, hstart, -⟩ := (hs.placed t ht tok htok).place
    have hspan : t.span = ⟨tok.start, tok.stop⟩ := by
      rw [Tree.eq_leaf_of_token? htok]
      rfl
    rw [hspan, tok.stop_eq, hstart, hcs, Text.sliceAt?_middle]
  suffixes := bareDigitsAt?_eq
  hashes := rawValueAt?_eq

/-! ## Naming what was checked -/

/-- A source that is found is always one that was read from a text. -/
theorem wellFormed_of_source? {e : Environment} {roots : List String} {site : CallSite} {s : Source}
    (h : Resolver.source? e roots site = some s) : s.WellFormed := by
  unfold Resolver.source? at h
  split at h
  · contradiction
  · obtain ⟨text, -, rfl⟩ := Option.map_eq_some_iff.mp h
    exact Source.parse_wellFormed text

/-- There is a result unless a candidate overflows, and no offset leaves the text. -/
theorem ofSources_returns_iff (e : Environment) (c : ResolverConfig) (expected : Expected)
    (site : CallSite) :
    ((∃ name, Resolver.ofSources e c expected site = .ok name) ↔
      ¬ (c.enabled = true ∧ ∃ s, Resolver.source? e c.sourceRoots site = some s ∧
        ReachesOverflow s site.method site.line expected)) ∧
    ∀ s, Resolver.source? e c.sourceRoots site = some s → InBounds s := by
  refine ⟨?_, fun s hs => inBounds_of_wellFormed (wellFormed_of_source? hs)⟩
  refine exists_eq_ok_iff.trans (not_congr ?_)
  unfold Resolver.ofSources
  by_cases henabled : c.enabled = true
  · rw [if_pos henabled]
    cases hsource : Resolver.source? e c.sourceRoots site with
    | none => simp
    | some s =>
      simp [henabled, resolve_eq_error_iff (wellFormed_of_source? hsource)]
  · simp [henabled]

/-- Two minus signs in front of the greatest number that may follow one. -/
def negatedTwice : String :=
  "fn t() \x7b x.should().be(--170141183460469231731687303715884105728); \x7d"

/-- A well-formed source need not have a result. -/
theorem resolve_may_overflow : ¬ ∀ (text entryPoint method : String) (line : Nat)
    (expected : Expected), ∃ name, resolve (.parse text) entryPoint method line expected =
      .ok name := by
  intro h
  have hoverflow : resolve (.parse negatedTwice) "should" "be" 1 (.scalar (.int 1)) =
      .error .negation := by
    decide +kernel
  obtain ⟨name, hname⟩ := h negatedTwice "should" "be" 1 (.scalar (.int 1))
  rw [hoverflow] at hname
  cases hname

end Attest.Call
