/-
  Resolution inside one source, for all well-formed ones; every text is read into such a source
  (`Source.parse_wellFormed`). Main statements: a context is never one of a call named on another
  line (`resolve_names_call_on_line`), and the only call on a line that is not rejected is found
  unless another call hides it (`resolve_only_accepted`). A call that lies on the line hides those
  that reach beyond it, accepted or not.
-/
import Attest.Proofs.Call.Search
import Attest.Proofs.Call.Selection
import Mathlib.Control.Monad.Basic

namespace Attest.Call

open Syntax

variable {s : Source} {entryPoint method : String} {line : Nat} {expected : Expected}

/-! ## No other call -/

theorem resolve_eq_some {context : String}
    (h : resolve s entryPoint method line expected = .ok (some context)) :
    ∃ c ∈ candidates s method line, c.accepts expected = .ok true ∧
      context = c.chain entryPoint method := by
  unfold resolve at h
  cases hsel : select expected (candidates s method line) with
  | error o => simp [hsel, Except.map] at h
  | ok c? =>
    cases c? with
    | none => simp [hsel, Except.map] at h
    | some c =>
      obtain ⟨-, -, -, -, hacc⟩ := select_eq_some_iff.mp hsel
      refine ⟨c, mem_of_select_eq_some hsel, hacc, ?_⟩
      simpa [hsel, Except.map] using h.symm

theorem resolve_of_select_eq_some {c : Candidate}
    (h : select expected (candidates s method line) = .ok (some c)) :
    resolve s entryPoint method line expected = .ok (some (c.chain entryPoint method)) := by
  rw [resolve, h]
  rfl

theorem resolve_of_select_eq_none (h : select expected (candidates s method line) = .ok none) :
    resolve s entryPoint method line expected = .ok none := by
  rw [resolve, h]
  rfl

theorem resolve_of_candidates_eq_nil (h : candidates s method line = []) :
    resolve s entryPoint method line expected = .ok none :=
  resolve_of_select_eq_none (by rw [h, select])

/-- A context is the chain of a call of the method that is named on the line: that of the first
candidate that is accepted. Only a line on which no call is named has no candidates, and it gives no
context. -/
theorem resolve_names_call_on_line (hs : s.WellFormed) (hmethod : IsMethodName method)
    (entryPoint : String) (line : Nat) (expected : Expected) :
    (∀ context, resolve s entryPoint method line expected = .ok (some context) →
      ∃ c, NamedOn s method line c ∧ context = c.chain entryPoint method) ∧
    resolve s entryPoint method line expected =
      (select expected (candidates s method line)).map (Option.map (·.chain entryPoint method)) ∧
    (candidates s method line = [] ↔ ∀ c, ¬ NamedOn s method line c) ∧
    ((∀ c, ¬ NamedOn s method line c) →
      resolve s entryPoint method line expected = .ok none) := by
  refine ⟨fun context h => ?_, rfl, candidates_eq_nil_iff hs hmethod, fun h => ?_⟩
  · obtain ⟨c, hc, -, hcontext⟩ := resolve_eq_some h
    exact ⟨c, namedOn_of_mem_candidates hs hmethod hc, hcontext⟩
  · exact resolve_of_candidates_eq_nil ((candidates_eq_nil_iff hs hmethod).mpr h)

/-- The second line of this source names one call. -/
theorem resolve_names_call_on_line_second :
    (Source.parse "fn t() \x7b\n  x.should().be(1); \x7d").WellFormed ∧ IsMethodName "be" ∧
    ∃ c, NamedOn (.parse "fn t() \x7b\n  x.should().be(1); \x7d") "be" 2 c ∧
      "x" = c.chain "should" "be" := by
  have hs := Source.parse_wellFormed "fn t() \x7b\n  x.should().be(1); \x7d"
  have hmethod : IsMethodName "be" := by decide
  exact ⟨hs, hmethod, (resolve_names_call_on_line hs hmethod "should" 2 (.scalar (.int 1))).1 "x"
    (by decide +kernel)⟩

/-! ## The only call -/

/-- If all calls but one are rejected, it is the selected one. -/
theorem select_of_only_accepted {cs : List Candidate} {c : Candidate} (hc : c ∈ cs)
    (hacc : c.accepts expected = .ok true)
    (honly : ∀ d ∈ cs, d ≠ c → d.accepts expected = .ok false) :
    select expected cs = .ok (some c) := by
  rcases select_cases expected cs with
    ⟨hall, -⟩ | ⟨pre, d, post, rfl, -, hd, hsome⟩ | ⟨pre, d, post, o, rfl, -, hd, -⟩
  · rw [hall c hc] at hacc
    contradiction
  · by_cases hdc : d = c
    · rw [hsome, hdc]
    · rw [honly d (by simp) hdc] at hd
      contradiction
  · by_cases hdc : d = c
    · rw [hdc, hacc] at hd
      contradiction
    · rw [honly d (by simp) hdc] at hd
      contradiction

/-- If all calls but one that are named on a line are rejected, that one is found if it lies on the
line or none does. -/
theorem resolve_only_accepted (hs : s.WellFormed) (entryPoint : String) {c : Candidate}
    (hc : NamedOn s method line c) (hacc : c.accepts expected = .ok true)
    (honly : ∀ d, NamedOn s method line d → d ≠ c → d.accepts expected = .ok false) :
    ((LiesOn s line c ∨ ∀ d, NamedOn s method line d → ¬ LiesOn s line d) →
      resolve s entryPoint method line expected = .ok (some (c.chain entryPoint method))) ∧
    (¬ LiesOn s line c → (∃ d, NamedOn s method line d ∧ LiesOn s line d) →
      resolve s entryPoint method line expected = .ok none) := by
  have hmethod : IsMethodName method := by
    obtain ⟨hmem, name, hcalls, -⟩ := hc
    exact hcalls.isMethodName hs hmem
  constructor
  · intro hcases
    -- Either way the call is one of the candidates, and all of them are named on the line.
    have hcand : c ∈ candidates s method line := by
      by_cases hon : onLine s method line = []
      · exact mem_candidates_of_namedOn hs hmethod hon hc
      · rw [candidates_of_onLine_ne_nil hon, mem_onLine_iff_namedOn hs hmethod]
        refine ⟨hc, hcases.resolve_right fun hnone => hon ?_⟩
        rw [List.eq_nil_iff_forall_not_mem]
        intro d hd
        obtain ⟨hnamed, hlies⟩ := (mem_onLine_iff_namedOn hs hmethod).mp hd
        exact hnone d hnamed hlies
    exact resolve_of_select_eq_some (select_of_only_accepted hcand hacc fun d hd =>
      honly d (namedOn_of_mem_candidates hs hmethod hd))
  · rintro hbeyond ⟨d, hd, hlies⟩
    -- The calls that lie on the line are the only candidates, and `c` is none of them.
    have hon : d ∈ onLine s method line := (mem_onLine_iff_namedOn hs hmethod).mpr ⟨hd, hlies⟩
    refine resolve_of_select_eq_none (select_of_rejects ?_)
    rw [candidates_of_onLine_ne_nil (List.ne_nil_of_mem hon)]
    intro e he
    obtain ⟨hnamed, hlies⟩ := (mem_onLine_iff_namedOn hs hmethod).mp he
    exact honly e hnamed fun hec => hbeyond (hec ▸ hlies)

/-- No other call of the method is named on the line. -/
def OnlyNamedOn (s : Source) (method : String) (line : Nat) (c : Candidate) : Prop :=
  NamedOn s method line c ∧ ∀ d, NamedOn s method line d → d = c

theorem select_of_forall_eq {cs : List Candidate} {c : Candidate} (hne : cs ≠ [])
    (h : ∀ d ∈ cs, d = c) :
    select expected cs = (c.accepts expected).map fun accepted =>
      if accepted then some c else none := by
  obtain ⟨d, rest, rfl⟩ := List.exists_cons_of_ne_nil hne
  rw [List.forall_mem_cons] at h
  obtain ⟨rfl, hrest⟩ := h
  cases hacc : d.accepts expected with
  | error o => rw [select, hacc]; rfl
  | ok b =>
    cases b with
    | true => rw [select, hacc]; rfl
    | false =>
      refine select_of_rejects fun e he => ?_
      rcases List.mem_cons.mp he with rfl | he
      · exact hacc
      · rw [hrest e he, hacc]

/-- The only call named on a line is the one that is looked at, wherever it begins and ends. -/
theorem resolve_of_onlyNamedOn (hs : s.WellFormed) {c : Candidate}
    (h : OnlyNamedOn s method line c) :
    resolve s entryPoint method line expected =
      (c.accepts expected).map fun accepted =>
        if accepted then some (c.chain entryPoint method) else none := by
  obtain ⟨hnamed, honly⟩ := h
  have hmethod : IsMethodName method := by
    obtain ⟨hmem, name, hcalls, -⟩ := hnamed
    exact hcalls.isMethodName hs hmem
  have hne : candidates s method line ≠ [] := by
    rw [Ne, candidates_eq_nil_iff hs hmethod]
    exact fun hnone => hnone c hnamed
  have hselect : select expected (candidates s method line) =
      (c.accepts expected).map fun accepted => if accepted then some c else none :=
    select_of_forall_eq hne fun d hd => honly d (namedOn_of_mem_candidates hs hmethod hd)
  rw [resolve, hselect]
  cases c.accepts expected with
  | error o => rfl
  | ok b => cases b <;> rfl

/-- If the first call named on a row is accepted and the others are not, it is the only one. -/
theorem exists_only_accepted (hs : s.WellFormed) (hmethod : IsMethodName method) {row n : Nat}
    (h : (anchored s method row).map (·.accepts expected) =
      .ok true :: List.replicate n (.ok false)) :
    ∃ c, NamedOn s method (row + 1) c ∧ c.accepts expected = .ok true ∧
      ∀ d, NamedOn s method (row + 1) d → d ≠ c → d.accepts expected = .ok false := by
  obtain ⟨c, rest, hanchored, hc, hrest⟩ := List.map_eq_cons_iff.mp h
  refine ⟨c, ?_, hc, fun d hd hdc => ?_⟩
  · rw [← mem_anchored_iff_namedOn hs hmethod, hanchored]
    exact List.mem_cons_self
  · rw [← mem_anchored_iff_namedOn hs hmethod, hanchored] at hd
    have hdrest := (List.mem_cons.mp hd).resolve_left hdc
    exact List.eq_of_mem_replicate (hrest ▸ List.mem_map_of_mem hdrest)

/-- On the third line stands the end of a call that begins on the second one. -/
def wrappedCall : String := "fn t() \x7b\n    x.should()\n        .be(1);\n\x7d\n"

theorem resolve_only_accepted_wrapped : (Source.parse wrappedCall).WellFormed ∧
    ∃ c, NamedOn (.parse wrappedCall) "be" 3 c ∧
    c.accepts (.scalar (.int 1)) = .ok true ∧
    (∀ d, NamedOn (.parse wrappedCall) "be" 3 d → d ≠ c →
      d.accepts (.scalar (.int 1)) = .ok false) ∧
    resolve (.parse wrappedCall) "should" "be" 3 (.scalar (.int 1)) =
      .ok (some (c.chain "should" "be")) := by
  have hs := Source.parse_wellFormed wrappedCall
  have hmethod : IsMethodName "be" := by decide
  have hchecks : (anchored (.parse wrappedCall) "be" 2).map (·.accepts (.scalar (.int 1))) =
      .ok true :: List.replicate 0 (.ok false) := by
    decide +kernel
  have hon : (onLine (.parse wrappedCall) "be" 3).isEmpty = true := by decide +kernel
  obtain ⟨c, hc, hacc, honly⟩ := exists_only_accepted hs hmethod hchecks
  refine ⟨hs, c, hc, hacc, honly,
    (resolve_only_accepted hs "should" hc hacc honly).1 (Or.inr fun d hd hlies => ?_)⟩
  have hmem := (mem_onLine_iff_namedOn hs hmethod).mpr ⟨hd, hlies⟩
  rw [List.isEmpty_iff.mp hon] at hmem
  exact List.not_mem_nil hmem

/-- On the third line a call that reaches beyond it is accepted, and one that lies on it is not. -/
def hiddenCall : String := "fn t() \x7b\n    x.should()\n        .be(1); y.should().be(2);\n\x7d\n"

/-- The only call that is accepted may be hidden, so it is not always found. -/
theorem only_accepted_may_be_hidden : ¬ ∀ (text entryPoint method : String) (line : Nat)
    (expected : Expected) (c : Candidate), NamedOn (.parse text) method line c →
      c.accepts expected = .ok true →
      (∀ d, NamedOn (.parse text) method line d → d ≠ c → d.accepts expected = .ok false) →
      resolve (.parse text) entryPoint method line expected =
        .ok (some (c.chain entryPoint method)) := by
  intro h
  have hchecks : (anchored (.parse hiddenCall) "be" 2).map (·.accepts (.scalar (.int 1))) =
      .ok true :: List.replicate 1 (.ok false) := by
    decide +kernel
  have hnone : resolve (.parse hiddenCall) "should" "be" 3 (.scalar (.int 1)) = .ok none := by
    decide +kernel
  obtain ⟨c, hc, hacc, honly⟩ :=
    exists_only_accepted (Source.parse_wellFormed hiddenCall) (by decide) hchecks
  have hfound := h hiddenCall "should" "be" 3 (.scalar (.int 1)) c hc hacc honly
  rw [hnone] at hfound
  cases Except.ok.inj hfound

end Attest.Call
