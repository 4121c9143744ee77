/-
  Selection among candidates. It takes the first one that accepts the expected values, and it
  breaks off where the check of a candidate before that one does. Main statements:
  `select_eq_some_iff`, `select_eq_none_iff` and `select_eq_error_iff`, and what they come to where
  a condition decides the check of each candidate (`select_of_decides`).
-/
import Attest.Call.Selection

namespace Attest.Call

open Syntax

/-! ## Checks that a condition decides -/

/-- The check does not fail, and it accepts exactly if the condition holds. -/
def Decides (check : Except Overflow Bool) (p : Prop) : Prop :=
  (check = .ok true ∧ p) ∨ (check = .ok false ∧ ¬ p)

namespace Decides

variable {check : Except Overflow Bool} {p q : Prop}

theorem of_iff {b : Bool} (h : b = true ↔ p) : Decides (.ok b) p := by
  cases b with
  | false => exact Or.inr ⟨rfl, mt h.mpr (by decide)⟩
  | true => exact Or.inl ⟨rfl, h.mp rfl⟩

theorem congr (h : Decides check p) (hpq : p ↔ q) : Decides check q :=
  h.imp (And.imp_right hpq.mp) (And.imp_right (mt hpq.mpr))

theorem eq_true_iff (h : Decides check p) : check = .ok true ↔ p := by
  rcases h with ⟨hacc, hp⟩ | ⟨hrej, hnot⟩
  · exact iff_of_true hacc hp
  · exact iff_of_false (by simp [hrej]) hnot

theorem eq_false_iff (h : Decides check p) : check = .ok false ↔ ¬ p := by
  rcases h with ⟨hacc, hp⟩ | ⟨hrej, hnot⟩
  · exact iff_of_false (by simp [hacc]) (not_not_intro hp)
  · exact iff_of_true hrej hnot

end Decides

/-! ## The first candidate that is not rejected -/

variable {expected : Expected} {cs : List Candidate} {c : Candidate} {o : Overflow}

theorem select_cons_of_rejects (h : c.accepts expected = .ok false) (cs : List Candidate) :
    select expected (c :: cs) = select expected cs := by
  rw [select, h]

/-- Candidates that are rejected may be left out in front. -/
theorem select_append_of_rejects {pre : List Candidate}
    (h : ∀ d ∈ pre, d.accepts expected = .ok false) (cs : List Candidate) :
    select expected (pre ++ cs) = select expected cs := by
  induction pre with
  | nil => rfl
  | cons d pre ih =>
    rw [List.forall_mem_cons] at h
    rw [List.cons_append, select_cons_of_rejects h.1, ih h.2]

/-- The candidates are all rejected, or one is the first that is not. -/
theorem rejects_or_first (expected : Expected) (cs : List Candidate) :
    (∀ d ∈ cs, d.accepts expected = .ok false) ∨
      ∃ pre d post, cs = pre ++ d :: post ∧ (∀ e ∈ pre, e.accepts expected = .ok false) ∧
        d.accepts expected ≠ .ok false := by
  induction cs with
  | nil => exact Or.inl (by simp)
  | cons c cs ih =>
    by_cases hc : c.accepts expected = .ok false
    · rcases ih with hall | ⟨pre, d, post, rfl, hpre, hd⟩
      · exact Or.inl (List.forall_mem_cons.mpr ⟨hc, hall⟩)
      · exact Or.inr ⟨c :: pre, d, post, rfl, List.forall_mem_cons.mpr ⟨hc, hpre⟩, hd⟩
    · exact Or.inr ⟨[], c, cs, rfl, by simp, hc⟩

theorem select_of_rejects (h : ∀ d ∈ cs, d.accepts expected = .ok false) :
    select expected cs = .ok none := by
  have := select_append_of_rejects h []
  rwa [List.append_nil] at this

theorem select_of_first_accepts {pre post : List Candidate}
    (hpre : ∀ d ∈ pre, d.accepts expected = .ok false) (hc : c.accepts expected = .ok true) :
    select expected (pre ++ c :: post) = .ok (some c) := by
  rw [select_append_of_rejects hpre, select, hc]

theorem select_of_first_overflows {pre post : List Candidate}
    (hpre : ∀ d ∈ pre, d.accepts expected = .ok false) (hc : c.accepts expected = .error o) :
    select expected (pre ++ c :: post) = .error o := by
  rw [select_append_of_rejects hpre, select, hc]

/-- Of several candidates the first one that is not rejected decides. -/
theorem select_cases (expected : Expected) (cs : List Candidate) :
    ((∀ d ∈ cs, d.accepts expected = .ok false) ∧ select expected cs = .ok none) ∨
    (∃ pre c post, cs = pre ++ c :: post ∧ (∀ d ∈ pre, d.accepts expected = .ok false) ∧
      c.accepts expected = .ok true ∧ select expected cs = .ok (some c)) ∨
    (∃ pre c post o, cs = pre ++ c :: post ∧ (∀ d ∈ pre, d.accepts expected = .ok false) ∧
      c.accepts expected = .error o ∧ select expected cs = .error o) := by
  rcases rejects_or_first expected cs with hall | ⟨pre, c, post, rfl, hpre, hc⟩
  · exact Or.inl ⟨hall, select_of_rejects hall⟩
  · cases hacc : c.accepts expected with
    | error o =>
      exact Or.inr (Or.inr ⟨pre, c, post, o, rfl, hpre, hacc, select_of_first_overflows hpre hacc⟩)
    | ok b =>
      cases b with
      | false => exact absurd hacc hc
      | true =>
        exact Or.inr (Or.inl ⟨pre, c, post, rfl, hpre, hacc, select_of_first_accepts hpre hacc⟩)

theorem select_eq_some_iff : select expected cs = .ok (some c) ↔ ∃ pre post, cs = pre ++ c :: post ∧
    (∀ d ∈ pre, d.accepts expected = .ok false) ∧ c.accepts expected = .ok true := by
  constructor
  · intro h
    rcases select_cases expected cs with
      ⟨-, hnone⟩ | ⟨pre, d, post, hcs, hpre, hd, hsome⟩ | ⟨-, -, -, o, -, -, -, herror⟩
    · simp [hnone] at h
    · rw [hsome] at h
      obtain rfl : d = c := by simpa using h
      exact ⟨pre, post, hcs, hpre, hd⟩
    · rw [herror] at h
      contradiction
  · rintro ⟨pre, post, rfl, hpre, hc⟩
    exact select_of_first_accepts hpre hc

theorem select_eq_none_iff :
    select expected cs = .ok none ↔ ∀ d ∈ cs, d.accepts expected = .ok false := by
  constructor
  · intro h
    rcases select_cases expected cs with
      ⟨hall, -⟩ | ⟨-, d, -, -, -, -, hsome⟩ | ⟨-, -, -, o, -, -, -, herror⟩
    · exact hall
    · simp [hsome] at h
    · rw [herror] at h
      contradiction
  · exact select_of_rejects

theorem select_eq_error_iff : select expected cs = .error o ↔ ∃ pre c post, cs = pre ++ c :: post ∧
    (∀ d ∈ pre, d.accepts expected = .ok false) ∧ c.accepts expected = .error o := by
  constructor
  · intro h
    rcases select_cases expected cs with
      ⟨-, hnone⟩ | ⟨-, d, -, -, -, -, hsome⟩ | ⟨pre, c, post, o', hcs, hpre, hc, herror⟩
    · rw [hnone] at h
      contradiction
    · rw [hsome] at h
      contradiction
    · rw [herror] at h
      obtain rfl := Except.error.inj h
      exact ⟨pre, c, post, hcs, hpre, hc⟩
  · rintro ⟨pre, c, post, rfl, hpre, hc⟩
    exact select_of_first_overflows hpre hc

theorem acceptsAll_eq_true_iff {pairs : List (Scalar × Tree)} :
    acceptsAll pairs = .ok true ↔ ∀ p ∈ pairs, argumentAccepts p.2 p.1 = .ok true := by
  induction pairs with
  | nil => simp [acceptsAll]
  | cons p pairs ih =>
    obtain ⟨v, t⟩ := p
    rw [acceptsAll, List.forall_mem_cons, ← ih]
    dsimp only
    split
    · next hacc => simp [hacc]
    · next hrej => simp [hrej]
    · next herror => simp [herror]

/-- The check of a sequence breaks off at the first pair that does not agree. -/
theorem acceptsAll_eq_error_iff {pairs : List (Scalar × Tree)} :
    acceptsAll pairs = .error o ↔ ∃ pre v t post, pairs = pre ++ (v, t) :: post ∧
      (∀ p ∈ pre, argumentAccepts p.2 p.1 = .ok true) ∧ argumentAccepts t v = .error o := by
  constructor
  · intro h
    induction pairs with
    | nil => simp [acceptsAll] at h
    | cons p pairs ih =>
      obtain ⟨v, t⟩ := p
      rw [acceptsAll] at h
      split at h
      · next hacc =>
        obtain ⟨pre, w, u, post, rfl, hpre, hw⟩ := ih h
        exact ⟨(v, t) :: pre, w, u, post, rfl, List.forall_mem_cons.mpr ⟨hacc, hpre⟩, hw⟩
      · contradiction
      · next e he =>
        obtain rfl := Except.error.inj h
        exact ⟨[], v, t, pairs, rfl, by simp, he⟩
  · rintro ⟨pre, v, t, post, rfl, hpre, ht⟩
    induction pre with
    | nil => rw [List.nil_append, acceptsAll, ht]
    | cons p pre ih =>
      obtain ⟨w, u⟩ := p
      rw [List.forall_mem_cons] at hpre
      rw [List.cons_append, acceptsAll, hpre.1]
      exact ih hpre.2

/-- All pairs are accepted exactly if all conditions hold. -/
theorem acceptsAll_decides {pairs : List (Scalar × Tree)} {P : Scalar × Tree → Prop}
    (h : ∀ p ∈ pairs, Decides (argumentAccepts p.2 p.1) (P p)) :
    Decides (acceptsAll pairs) (∀ p ∈ pairs, P p) := by
  induction pairs with
  | nil => exact Or.inl ⟨rfl, by simp⟩
  | cons p pairs ih =>
    obtain ⟨v, t⟩ := p
    rw [List.forall_mem_cons] at h
    rw [List.forall_mem_cons, acceptsAll]
    rcases h.1 with ⟨hacc, hp⟩ | ⟨hrej, hnot⟩
    · rw [hacc]
      exact (ih h.2).congr (and_iff_right hp).symm
    · rw [hrej]
      exact Or.inr ⟨rfl, fun hboth => hnot hboth.1⟩

/-- The first candidate that meets the condition is selected. -/
theorem select_of_decides {P : Candidate → Prop}
    (h : ∀ c ∈ cs, Decides (c.accepts expected) (P c)) :
    (∀ c, select expected cs = .ok (some c) ↔
      ∃ pre post, cs = pre ++ c :: post ∧ (∀ d ∈ pre, ¬ P d) ∧ P c) ∧
    (select expected cs = .ok none ↔ ∀ c ∈ cs, ¬ P c) := by
  constructor
  · intro c
    rw [select_eq_some_iff]
    apply exists_congr
    intro pre
    apply exists_congr
    intro post
    apply and_congr_right
    intro hsplit
    subst hsplit
    apply and_congr
    · apply forall_congr'
      intro d
      apply forall_congr'
      intro hd
      exact (h d (List.mem_append_left _ hd)).eq_false_iff
    · exact (h c (by simp)).eq_true_iff
  · rw [select_eq_none_iff]
    apply forall_congr'
    intro c
    apply forall_congr'
    intro hc
    exact (h c hc).eq_false_iff

theorem mem_of_select_eq_some (h : select expected cs = .ok (some c)) : c ∈ cs := by
  obtain ⟨pre, post, rfl, -, -⟩ := select_eq_some_iff.mp h
  simp

end Attest.Call
