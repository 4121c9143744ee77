/-
  Selection by a scalar. Where the first arguments are missing, no literals, or literals of a known
  value, the first call that may have expected the scalar is selected (`select_scalar_exact`).
-/
import Attest.Proofs.Call.Literal
import Attest.Proofs.Call.Selection

namespace Attest.Call

open Syntax
open Number (Digits)

namespace Candidate

/-- If there is a first argument, it is no literal or one whose value is known. -/
def Readable (c : Candidate) : Prop :=
  ∀ t ∈ c.arguments.head?, ¬ IsLiteral t ∨ ∃ v, Denotes t v

/-- There is no first argument, or it is no literal, or it denotes the scalar. -/
def MayExpect (c : Candidate) (v : Scalar) : Prop :=
  ∀ t ∈ c.arguments.head?, ¬ IsLiteral t ∨ Denotes t v

/-- The first argument is a literal of another scalar. -/
def Contradicts (c : Candidate) (v : Scalar) : Prop :=
  ∃ t ∈ c.arguments.head?, ∃ w, Denotes t w ∧ w ≠ v

end Candidate

theorem argumentAccepts_of_not_read {t : Tree} (h : Literal.ofTree? t = none) (v : Scalar) :
    argumentAccepts t v = .ok true := by
  unfold argumentAccepts
  split
  · rfl
  · rw [compare, h]
    rfl

theorem argumentAccepts_of_not_isLiteral {t : Tree} (h : ¬ IsLiteral t) (v : Scalar) :
    argumentAccepts t v = .ok true :=
  argumentAccepts_of_not_read (ofTree?_of_not_isLiteral h) v

/-- A literal is accepted exactly for what it denotes. -/
theorem argumentAccepts_of_literal {t : Tree} {l : Literal} {v : Scalar} {b : Bool}
    (hl : Literal.ofTree? t = some l) (hdenotes : l.denotes v = .ok b) (hnull : v ≠ .null) :
    argumentAccepts t v = .ok b := by
  unfold argumentAccepts
  split
  · contradiction
  · rw [compare, hl]
    dsimp only
    rw [hdenotes]
    cases b <;> rfl

theorem argumentAccepts_of_denotes {t : Tree} {v w : Scalar} (h : Denotes t v)
    (hw : ∀ x, w ≠ .float x) (hnull : w ≠ .null) :
    argumentAccepts t w = .ok (v == w) := by
  obtain ⟨l, hl, hdenotes⟩ := ofTree?_of_denotes h
  exact argumentAccepts_of_literal hl (hdenotes w hw) hnull

/-- A value that is not the default of its type is compared with the first argument. -/
theorem accepts_scalar_of_not_default {v : Scalar} (h : v.isDefault = false) (c : Candidate) :
    c.accepts (.scalar v) = (c.arguments.head?.map (argumentAccepts · v)).getD (.ok true) := by
  rw [Candidate.accepts, h]
  cases c.arguments with
  | nil => rfl
  | cons t ts => rfl

variable {v : Scalar} {c : Candidate} {cs : List Candidate}

/-- A first argument is compared with all but a default value. -/
theorem accepts_scalar_decides {t : Tree} {p : Prop} (hc : c.arguments.head? = some t)
    (h : Decides (argumentAccepts t v) p) :
    Decides (c.accepts (.scalar v)) (v.isDefault = true ∨ p) := by
  by_cases hdefault : v.isDefault = true
  · rw [Candidate.accepts, if_pos hdefault]
    exact .of_iff (iff_of_true rfl (Or.inl hdefault))
  · rw [accepts_scalar_of_not_default (Bool.eq_false_iff.mpr hdefault), hc]
    exact h.congr (or_iff_right hdefault).symm

/-- The check of a readable first argument is exact. -/
theorem accepts_scalar_cases (hv : ∀ x, v ≠ .float x) (hdefault : v.isDefault = false)
    (hc : c.Readable) :
    (c.MayExpect v ∧ ¬ c.Contradicts v ∧ c.accepts (.scalar v) = .ok true) ∨
      (¬ c.MayExpect v ∧ c.Contradicts v ∧ c.accepts (.scalar v) = .ok false) := by
  have hnull : v ≠ .null := by
    rintro rfl
    contradiction
  rw [accepts_scalar_of_not_default hdefault]
  unfold Candidate.MayExpect Candidate.Contradicts
  unfold Candidate.Readable at hc
  generalize c.arguments.head? = first at hc ⊢
  cases first with
  | none => exact Or.inl ⟨by simp, by simp, rfl⟩
  | some t =>
    simp only [Option.mem_some_iff, forall_eq', exists_eq_left', Option.map_some,
      Option.getD_some] at hc ⊢
    rcases hc with hnot | ⟨w, hw⟩
    · refine Or.inl ⟨Or.inl hnot, ?_, argumentAccepts_of_not_isLiteral hnot v⟩
      rintro ⟨w, hw, -⟩
      exact hnot hw.isLiteral
    · rw [argumentAccepts_of_denotes hw hv hnull]
      by_cases hwv : w = v
      · subst hwv
        refine Or.inl ⟨Or.inr hw, ?_, by simp⟩
        rintro ⟨x, hx, hne⟩
        exact hne (hx.unique hw hv)
      · refine Or.inr ⟨?_, ⟨w, hw, hwv⟩, by simp [hwv]⟩
        rintro (hnot | hv')
        · exact hnot hw.isLiteral
        · exact hwv (hw.unique hv' hv)

theorem accepts_scalar_eq_true_iff (hv : ∀ x, v ≠ .float x) (hdefault : v.isDefault = false)
    (hc : c.Readable) : c.accepts (.scalar v) = .ok true ↔ c.MayExpect v := by
  rcases accepts_scalar_cases hv hdefault hc with ⟨hmay, -, h⟩ | ⟨hnot, -, h⟩
  · simp [h, hmay]
  · simp [h, hnot]

theorem accepts_scalar_eq_false_iff (hv : ∀ x, v ≠ .float x) (hdefault : v.isDefault = false)
    (hc : c.Readable) : c.accepts (.scalar v) = .ok false ↔ ¬ c.MayExpect v := by
  rcases accepts_scalar_cases hv hdefault hc with ⟨hmay, -, h⟩ | ⟨hnot, -, h⟩
  · simp [h, hmay]
  · simp [h, hnot]

/-- The first call that may have expected the scalar is selected, and none only if the first
argument of every call is a literal of another scalar. -/
theorem select_scalar_exact (hv : ∀ x, v ≠ .float x) (hdefault : v.isDefault = false)
    (hcs : ∀ c ∈ cs, c.Readable) :
    (∀ c, select (.scalar v) cs = .ok (some c) ↔
      ∃ pre post, cs = pre ++ c :: post ∧ (∀ d ∈ pre, ¬ d.MayExpect v) ∧ c.MayExpect v) ∧
    (select (.scalar v) cs = .ok none ↔ ∀ c ∈ cs, c.Contradicts v) := by
  constructor
  · intro c
    rw [select_eq_some_iff]
    refine exists_congr fun pre => exists_congr fun post => and_congr_right fun hsplit => ?_
    subst hsplit
    refine and_congr ?_ (accepts_scalar_eq_true_iff hv hdefault (hcs c (by simp)))
    refine forall_congr' fun d => forall_congr' fun hd => ?_
    exact accepts_scalar_eq_false_iff hv hdefault (hcs d (List.mem_append_left _ hd))
  · rw [select_eq_none_iff]
    refine forall_congr' fun c => forall_congr' fun hc => ?_
    rcases accepts_scalar_cases hv hdefault (hcs c hc) with ⟨-, hnot, h⟩ | ⟨-, hcon, h⟩
    · simp [h, hnot]
    · simp [h, hcon]

/-- A call with one argument. -/
def callWith (argument : Tree) : Candidate :=
  ⟨.node .plain .call ⟨0, 0⟩ [.node .arguments .arguments ⟨0, 0⟩ [argument]],
    .node .function .member ⟨0, 0⟩ []⟩

/-- The argument `7`. -/
def seven : Tree := .leaf .plain .integer ⟨.integer, "7", 0, 0⟩

/-- The literal `-0x2A_i64`. -/
def negativeHex : Tree :=
  .node .plain .unary ⟨0, 0⟩ [.leaf .plain .mark ⟨.mark, "-", 0, 0⟩,
    .leaf .plain .integer ⟨.integer, "0x2A_i64", 0, 0⟩]

/-- The same literal in parentheses. -/
def negativeInParens : Tree :=
  .node .plain .paren ⟨0, 0⟩ [.leaf .plain .mark ⟨.mark, "(", 0, 0⟩, negativeHex,
    .leaf .plain .mark ⟨.mark, ")", 0, 0⟩]

theorem denotes_seven : Denotes seven (.int 7) := by
  have hdigits : Digits 10 ['7'] 7 := .digit (d := 7) (Or.inl rfl) (by decide) .nil
  have hmark : ([], 10) ∈ radixMarks := by decide
  have htext : IntegerText ([] ++ (['7'] ++ [])) 7 :=
    .intro hmark hdigits (by decide) (by decide) (by decide)
  exact ⟨seven, .token (.integer htext (by decide)), .refl⟩

theorem integerText_hex : IntegerText "0x2A_i64".toList 42 := by
  have hdigits : Digits 16 ['2', 'A', '_'] 42 :=
    .digit (d := 2) (Or.inl rfl) (by decide)
      (.digit (d := 10) (Or.inr rfl) (by decide) (.underscore .nil))
  have hmark : (['0', 'x'], 16) ∈ radixMarks := by decide
  have htext : IntegerText (['0', 'x'] ++ (['2', 'A', '_'] ++ ['i', '6', '4'])) 42 :=
    .intro hmark hdigits (by decide) (by decide) (by decide)
  exact htext

theorem coreDenotes_negativeHex : CoreDenotes negativeHex (.int (-42)) := by
  have hnone : ∀ c ∈ ([] : List Tree), c.isComment = true := by simp
  exact .negative rfl rfl hnone .refl integerText_hex (by decide)

theorem denotes_negativeInParens : Denotes negativeInParens (.int (-42)) :=
  ⟨negativeHex, coreDenotes_negativeHex, .paren .refl rfl rfl⟩

theorem select_scalar_exact_hex :
    (∀ x, Scalar.int (-42) ≠ .float x) ∧ (Scalar.int (-42)).isDefault = false ∧
    (∀ c ∈ [callWith seven, callWith negativeInParens], c.Readable) ∧
    select (.scalar (.int (-42))) [callWith seven, callWith negativeInParens] =
      .ok (some (callWith negativeInParens)) := by
  have hfloat : ∀ x, Scalar.int (-42) ≠ .float x := by simp
  have hreadable : ∀ c ∈ [callWith seven, callWith negativeInParens], c.Readable := by
    intro c hc t ht
    simp only [List.mem_cons, List.not_mem_nil, or_false] at hc
    rcases hc with rfl | rfl
    · obtain rfl : seven = t := Option.some.inj ht
      exact Or.inr ⟨_, denotes_seven⟩
    · obtain rfl : negativeInParens = t := Option.some.inj ht
      exact Or.inr ⟨_, denotes_negativeInParens⟩
  refine ⟨hfloat, rfl, hreadable, ((select_scalar_exact hfloat rfl hreadable).1 _).mpr
    ⟨[callWith seven], [], rfl, ?_, ?_⟩⟩
  · intro c hc hmay
    obtain rfl := List.mem_singleton.mp hc
    rcases hmay seven rfl with hnot | hdenotes
    · exact hnot denotes_seven.isLiteral
    · have := hdenotes.unique denotes_seven (by simp)
      contradiction
  · intro t ht
    obtain rfl : negativeInParens = t := Option.some.inj ht
    exact Or.inr denotes_negativeInParens

end Attest.Call
