/-
  Agreement of source and values. `MayHave` says which value an expression may have had at run time,
  `Agrees` which values it does not contradict. Main statements: an argument is accepted exactly for
  the values that it agrees with (`argumentAccepts_decides`), pairs are accepted exactly if all of
  them agree (`acceptsAll_decides_agreement`), and values that the expressions may have had are
  accepted (`acceptsAll_own`).
-/
import Attest.Proofs.Call.Scalar
import Mathlib.Data.List.Forall2

namespace Attest.Call

open Syntax
open Literal (ofTree? integerValue)

/-! ## Values of expressions -/

/-- The expression is a literal that denotes the scalar; a text may continue over several lines. -/
inductive Spells : Tree → Scalar → Prop
  | literal {t v} (h : Denotes t v) : Spells t v
  | longText {t r token body s} (htext : token.text.toList = '"' :: (body ++ ['"']))
      (hbody : LongBody body s) (h : Parenthesized (.leaf r .text token) t) :
      Spells t (.text (String.ofList s))

/-- The expression may have the value: it is not read as a literal, or it is one of the value. -/
def MayHave (t : Tree) (v : Scalar) : Prop := ofTree? t = none ∨ Spells t v

theorem mayHave_of_not_isLiteral {t : Tree} (h : ¬ IsLiteral t) (v : Scalar) : MayHave t v :=
  Or.inl (ofTree?_of_not_isLiteral h)

theorem ofTree?_of_spells {t : Tree} {v : Scalar} (h : Spells t v) :
    ∃ l, ofTree? t = some l ∧ l.DenotesOnly v := by
  cases h with
  | literal h => exact ofTree?_of_denotes h
  | @longText r token body s htext hbody h =>
    refine ⟨.text token.text.toList, ?_, Literal.denotesOnly_text ?_⟩
    · rw [ofTree?_of_parenthesized h rfl]
      rfl
    · rw [htext, textValue?_of_longBody hbody]

/-- Literals spell no floats. -/
theorem Spells.ne_float {t : Tree} {v : Scalar} (h : Spells t v) (x : Number.Floating) :
    v ≠ .float x := by
  rintro rfl
  cases h with
  | literal h =>
    obtain ⟨core, hcore, -⟩ := h
    cases hcore with
    | @token r k tok v h =>
      generalize tok.text.toList = cs at h
      cases h

theorem Spells.unique {t : Tree} {v w : Scalar} (hv : Spells t v) (hw : Spells t w) : v = w := by
  obtain ⟨l, hl, hdenotes⟩ := ofTree?_of_spells hv
  obtain ⟨l', hl', hdenotes'⟩ := ofTree?_of_spells hw
  obtain rfl := Option.some.inj (hl.symm.trans hl')
  have heq := (hdenotes w hw.ne_float).symm.trans (hdenotes' w hw.ne_float)
  rw [beq_self_eq_true] at heq
  exact eq_of_beq (Except.ok.inj heq)

/-- Does the value stand for the float? Only an integer does, if it is the same number. -/
def standsFor (v : Scalar) (x : Number.Floating) : Bool :=
  match v with
  | .int i => (Number.ofInt i).beq x
  | _ => false

theorem Literal.denotes_float {l : Literal} {v : Scalar} (h : l.DenotesOnly v)
    (hv : ∀ x, v ≠ .float x) (x : Number.Floating) :
    l.denotes (.float x) = .ok (standsFor v x) := by
  have hself : l.denotes v = .ok true := by rw [h v hv, beq_self_eq_true]
  cases l with
  | integer ds =>
    cases v with
    | int i =>
      have hmap : (integerValue ds).map (· == some i) = .ok true := hself
      have hvalue : integerValue ds = .ok (some i) := by
        cases hread : integerValue ds with
        | error e =>
          rw [hread] at hmap
          cases hmap
        | ok j =>
          rw [hread] at hmap
          rw [eq_of_beq (Except.ok.inj hmap)]
      show (integerValue ds).map _ = _
      rw [hvalue]
      rfl
    | float y => exact absurd rfl (hv y)
    | _ => cases hself
  | float ds =>
    cases v with
    | float y => exact absurd rfl (hv y)
    | _ => cases hself
  | _ =>
    cases v with
    | int i => cases hself
    | _ => rfl

/-! ## Agreement -/

/-- A literal of the value passes for the other one: it is the same, or the float that an integer
is. -/
def PassesFor (v w : Scalar) : Prop := v = w ∨ ∃ x, w = .float x ∧ standsFor v x = true

/-- The expression does not contradict the value: there is nothing to compare, or it is a literal
that passes for the value. -/
def Agrees (t : Tree) (w : Scalar) : Prop :=
  w = .null ∨ ofTree? t = none ∨ ∃ v, Spells t v ∧ PassesFor v w

/-- What a value may have been agrees with it. -/
theorem MayHave.agrees {t : Tree} {v : Scalar} (h : MayHave t v) : Agrees t v :=
  Or.inr (h.imp id fun hv => ⟨v, hv, Or.inl rfl⟩)

theorem Spells.agrees_iff {t : Tree} {v w : Scalar} (h : Spells t v) (hw : w ≠ .null) :
    Agrees t w ↔ PassesFor v w := by
  constructor
  · rintro (hnull | hnone | ⟨v', hv', hpasses⟩)
    · contradiction
    · obtain ⟨l, hl, -⟩ := ofTree?_of_spells h
      rw [hnone] at hl
      contradiction
    · rwa [h.unique hv']
  · intro hpasses
    exact Or.inr (Or.inr ⟨v, h, hpasses⟩)

/-- A literal is compared with a float as a float, and with all else as it is. -/
theorem Literal.denotes_decides {l : Literal} {v : Scalar} (h : l.DenotesOnly v)
    (hv : ∀ x, v ≠ .float x) (w : Scalar) : Decides (l.denotes w) (PassesFor v w) := by
  by_cases hfloat : ∃ x, w = .float x
  · obtain ⟨x, rfl⟩ := hfloat
    rw [Literal.denotes_float h hv x]
    refine .of_iff ⟨fun htrue => Or.inr ⟨x, rfl, htrue⟩, ?_⟩
    rintro (heq | ⟨y, hy, htrue⟩)
    · exact absurd heq (hv x)
    · rwa [Scalar.float.inj hy]
  · have hw : ∀ x, w ≠ .float x := fun x hx => hfloat ⟨x, hx⟩
    rw [h w hw]
    refine .of_iff ⟨fun htrue => Or.inl (eq_of_beq htrue), ?_⟩
    rintro (heq | ⟨x, hx, -⟩)
    · exact beq_iff_eq.mpr heq
    · exact absurd hx (hw x)

/-- An argument is accepted exactly for what it agrees with. -/
theorem argumentAccepts_decides {t : Tree} (h : ∃ v, MayHave t v) (w : Scalar) :
    Decides (argumentAccepts t w) (Agrees t w) := by
  by_cases hnull : w = .null
  · rw [hnull]
    exact Or.inl ⟨rfl, Or.inl rfl⟩
  · obtain ⟨v, hnone | hv⟩ := h
    · exact Or.inl ⟨argumentAccepts_of_not_read hnone w, Or.inr (Or.inl hnone)⟩
    · obtain ⟨l, hl, hdenotes⟩ := ofTree?_of_spells hv
      refine Decides.congr ?_ (hv.agrees_iff hnull).symm
      rcases Literal.denotes_decides hdenotes hv.ne_float w with ⟨hb, hpasses⟩ | ⟨hb, hnot⟩
      · exact Or.inl ⟨argumentAccepts_of_literal hl hb hnull, hpasses⟩
      · exact Or.inr ⟨argumentAccepts_of_literal hl hb hnull, hnot⟩

/-- Pairs of values and expressions are accepted exactly if all of them agree. -/
theorem acceptsAll_decides_agreement {es : List Tree} (h : ∀ e ∈ es, ∃ v, MayHave e v)
    (ws : List Scalar) :
    Decides (acceptsAll (ws.zip es)) (∀ p ∈ ws.zip es, Agrees p.2 p.1) :=
  acceptsAll_decides fun p hp => argumentAccepts_decides (h p.2 (List.of_mem_zip hp).2) p.1

/-- Values that the expressions may have had are accepted. -/
theorem acceptsAll_own {es : List Tree} {ws : List Scalar} (h : List.Forall₂ MayHave es ws) :
    acceptsAll (ws.zip es) = .ok true := by
  induction h with
  | nil => rfl
  | @cons e w es ws he _ ih =>
    have hacc := (argumentAccepts_decides ⟨w, he⟩ w).eq_true_iff.mpr he.agrees
    rw [List.zip_cons_cons, acceptsAll, hacc]
    exact ih

end Attest.Call
