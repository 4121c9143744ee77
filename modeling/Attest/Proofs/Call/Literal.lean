/-
  Literals in source and what they denote. `Denotes` gives integer, boolean, character and text
  literals their values, and `IsLiteral` tells which expressions are literals at all. Main
  statements: comparing a literal with a scalar tells whether it denotes the scalar
  (`compare_of_denotes`), and an expression that is no literal is never compared
  (`compare_of_not_isLiteral`).
-/
import Attest.Proofs.Call.Integer
import Attest.Proofs.Call.Quoted
import Attest.Proofs.Syntax.Tree

namespace Attest.Call

open Syntax
open Literal (ofTree? ofFirst? ofLast? ofToken? isMinus negate? integerValue charValue? textValue?
  rawValue?)

/-! ## Children that are looked at -/

theorem ofFirst?_eq (cs : List Tree) : ofFirst? cs = (cs.find? Tree.isNamed).bind ofTree? := by
  induction cs with
  | nil => rfl
  | cons c cs ih =>
    rw [ofFirst?, List.find?_cons]
    by_cases h : c.isNamed = true
    · simp [h]
    · simp [h, ih]

theorem ofLast?_eq (cs : List Tree) :
    ofLast? cs = (cs.filter Tree.isNamed).getLast?.bind ofTree? := by
  induction cs with
  | nil => rfl
  | cons c cs ih =>
    rw [ofLast?, ih]
    by_cases hany : cs.any Tree.isNamed = true
    · obtain ⟨d, hd, hnamed⟩ := List.any_eq_true.mp hany
      have hne : cs.filter Tree.isNamed ≠ [] :=
        List.ne_nil_of_mem (List.mem_filter.mpr ⟨hd, hnamed⟩)
      rw [if_pos hany, List.filter_cons]
      split
      · obtain ⟨e, es, he⟩ := List.exists_cons_of_ne_nil hne
        rw [he, List.getLast?_cons_cons]
      · rfl
    · have hnil : cs.filter Tree.isNamed = [] := by
        simpa using hany
      rw [if_neg hany, List.filter_cons, hnil]
      split <;> rfl

theorem ofTree?_paren (r : Role) (s : Text.Span) (cs : List Tree) :
    ofTree? (.node r .paren s cs) = (cs.find? Tree.isNamed).bind ofTree? := by
  rw [ofTree?, ofFirst?_eq]

theorem ofTree?_unary (r : Role) (s : Text.Span) (cs : List Tree) :
    ofTree? (.node r .unary s cs) =
      if isMinus cs then ((cs.filter Tree.isNamed).getLast?.bind ofTree?).bind negate?
      else none := by
  rw [ofTree?, ofLast?_eq]

/-- No other nodes are literals. -/
theorem ofTree?_node {k : Kind} (hparen : k ≠ .paren) (hunary : k ≠ .unary) (r : Role)
    (s : Text.Span) (cs : List Tree) : ofTree? (.node r k s cs) = none := by
  cases k <;> first | rfl | contradiction

/-! ## Literals -/

/-- A number, in any parentheses and behind any minus signs. -/
inductive IsNumber : Tree → Prop
  | token {r k t} (h : k = .integer ∨ k = .float) : IsNumber (.leaf r k t)
  | minus {r s cs c} (hm : cs.head?.map Tree.text = some "-") (hc : c ∈ cs) (h : IsNumber c) :
      IsNumber (.node r .unary s cs)
  | paren {r s cs c} (hc : c ∈ cs) (h : IsNumber c) : IsNumber (.node r .paren s cs)

/-- A literal, in any parentheses. -/
inductive IsLiteral : Tree → Prop
  | number {t} (h : IsNumber t) : IsLiteral t
  | token {r k t} (h : k = .boolean ∨ k = .char ∨ k = .text ∨ k = .rawText) :
      IsLiteral (.leaf r k t)
  | paren {r s cs c} (hc : c ∈ cs) (h : IsLiteral c) : IsLiteral (.node r .paren s cs)

theorem isMinus_iff (cs : List Tree) : isMinus cs = true ↔ cs.head?.map Tree.text = some "-" := by
  cases cs with
  | nil => simp [isMinus]
  | cons c cs => simp [isMinus]

/-- Only literals are read as literals, and only numbers as ones that a minus sign may precede. -/
theorem isLiteral_of_ofTree? {t : Tree} {l : Literal} (h : ofTree? t = some l) :
    IsLiteral t ∧ ((negate? l).isSome = true → IsNumber t) := by
  induction t using Tree.induct generalizing l with
  | leaf r k tok =>
    rw [ofTree?] at h
    cases k <;> simp only [ofToken?, Option.some.injEq, reduceCtorEq] at h <;> subst h
    · exact ⟨.number (.token (Or.inl rfl)), fun _ => .token (Or.inl rfl)⟩
    · exact ⟨.number (.token (Or.inr rfl)), fun _ => .token (Or.inr rfl)⟩
    · exact ⟨.token (by simp), by simp [negate?]⟩
    · exact ⟨.token (by simp), by simp [negate?]⟩
    · exact ⟨.token (by simp), by simp [negate?]⟩
    · exact ⟨.token (by simp), by simp [negate?]⟩
  | node r k s cs ih =>
    by_cases hunary : k = .unary
    · rw [hunary, ofTree?_unary] at h
      split at h
      · next hminus =>
        obtain ⟨operand, hlast, hneg⟩ := Option.bind_eq_some_iff.mp h
        obtain ⟨c, hc, hoperand⟩ := Option.bind_eq_some_iff.mp hlast
        have hmem := (List.mem_filter.mp (List.mem_of_getLast? hc)).1
        have hnumber := (ih c hmem hoperand).2 (by rw [hneg]; rfl)
        have := IsNumber.minus (r := r) (s := s) ((isMinus_iff cs).mp hminus) hmem hnumber
        rw [hunary]
        exact ⟨.number this, fun _ => this⟩
      · contradiction
    · by_cases hparen : k = .paren
      · rw [hparen, ofTree?_paren] at h
        obtain ⟨c, hc, hinner⟩ := Option.bind_eq_some_iff.mp h
        have hmem := List.mem_of_find?_eq_some hc
        obtain ⟨hlit, hnumber⟩ := ih c hmem hinner
        rw [hparen]
        exact ⟨.paren hmem hlit, fun hneg => .paren hmem (hnumber hneg)⟩
      · rw [ofTree?_node hparen hunary] at h
        contradiction

theorem ofTree?_of_not_isLiteral {t : Tree} (h : ¬ IsLiteral t) : ofTree? t = none :=
  Option.eq_none_iff_forall_ne_some.mpr fun _ hl => h (isLiteral_of_ofTree? hl).1

/-- What is no literal is never compared. -/
theorem compare_of_not_isLiteral {t : Tree} (h : ¬ IsLiteral t) (v : Scalar) :
    compare t v = .ok .notLiteral := by
  rw [compare, ofTree?_of_not_isLiteral h]

/-- A literal is compared equal exactly if it denotes the scalar. -/
theorem compare_of_ofTree? {t : Tree} {l : Literal} {v : Scalar} {b : Bool} {p : Prop}
    [Decidable p] (hl : ofTree? t = some l) (hb : l.denotes v = .ok b) (hp : b = true ↔ p) :
    compare t v = .ok (if p then .equal else .notEqual) := by
  rw [compare, hl]
  dsimp only
  rw [hb]
  by_cases h : p
  · rw [if_pos h, hp.mpr h]
    rfl
  · rw [if_neg h, Bool.eq_false_iff.mpr (mt hp.mp h)]
    rfl

/-! ## What literals denote -/

/-- What a literal token denotes. Integers are those that a scalar can hold also with the other
sign; a raw text does not hold the delimiter that ends it. -/
inductive TokenDenotes : Kind → List Char → Scalar → Prop
  | integer {cs n} (h : IntegerText cs n) (hn : n < 2 ^ 127) : TokenDenotes .integer cs (.int n)
  | boolean (b : Bool) : TokenDenotes .boolean (if b then "true" else "false").toList (.bool b)
  | char {cs c} (h : Piece '\'' cs c) : TokenDenotes .char ('\'' :: (cs ++ ['\''])) (.char c)
  | text {cs s} (h : Body '"' cs s) :
      TokenDenotes .text ('"' :: (cs ++ ['"'])) (.text (String.ofList s))
  | rawText {n content} (hend : ¬ ('"' :: List.replicate n '#') <:+: content)
      (hreturn : '\r' ∉ content) :
      TokenDenotes .rawText ('r' :: (List.replicate n '#' ++
        '"' :: (content ++ '"' :: List.replicate n '#'))) (.text (String.ofList content))

/-- The tree is `core` in any number of parentheses with nothing else in them. -/
inductive Parenthesized (core : Tree) : Tree → Prop
  | refl : Parenthesized core core
  | paren {inner r s opening closing} (h : Parenthesized core inner) (ho : opening.kind = .mark)
      (hc : closing.kind = .mark) :
      Parenthesized core (.node r .paren s [opening, inner, closing])

/-- A literal token, or an integer behind one minus sign. -/
inductive CoreDenotes : Tree → Scalar → Prop
  | token {r k t v} (h : TokenDenotes k t.text.toList v) : CoreDenotes (.leaf r k t) v
  | negative {r s minus comments operand r' t n} (hm : minus.kind = .mark)
      (ht : minus.text = "-") (hc : ∀ c ∈ comments, c.isComment = true)
      (ho : Parenthesized (.leaf r' .integer t) operand) (h : IntegerText t.text.toList n)
      (hn : n < 2 ^ 127) :
      CoreDenotes (.node r .unary s (minus :: (comments ++ [operand]))) (.int (-n))

/-- The expression is a literal that denotes the scalar. -/
def Denotes (t : Tree) (v : Scalar) : Prop := ∃ core, CoreDenotes core v ∧ Parenthesized core t

/-! ## Reading -/

/-- The literal denotes this one of the scalars that are no floats. -/
def Literal.DenotesOnly (l : Literal) (v : Scalar) : Prop :=
  ∀ w : Scalar, (∀ x, w ≠ .float x) → l.denotes w = .ok (v == w)

namespace Literal

/-- Equal kinds are compared by value, and of all others none is denoted. -/
theorem denotesOnly_integer {cs : List Char} {i : Int} (h : integerValue cs = .ok (some i)) :
    (integer cs).DenotesOnly (.int i) := by
  intro w hw
  cases w with
  | int j =>
    rw [denotes, h]
    exact congrArg Except.ok (by rw [Bool.eq_iff_iff]; simp)
  | float x => exact absurd rfl (hw x)
  | _ => rfl

theorem denotesOnly_bool (b : Bool) : (Literal.bool b).DenotesOnly (.bool b) := by
  intro w hw
  cases w with
  | bool c => exact congrArg Except.ok (by rw [Bool.eq_iff_iff]; simp)
  | float x => exact absurd rfl (hw x)
  | _ => rfl

theorem denotesOnly_char {quoted : List Char} {c : Char} (h : charValue? quoted = some c) :
    (Literal.char quoted).DenotesOnly (.char c) := by
  intro w hw
  cases w with
  | char d =>
    rw [denotes, h]
    exact congrArg Except.ok (by rw [Bool.eq_iff_iff]; simp)
  | float x => exact absurd rfl (hw x)
  | _ => rfl

theorem denotesOnly_text {quoted s : List Char} (h : textValue? quoted = some s) :
    (Literal.text quoted).DenotesOnly (.text (String.ofList s)) := by
  intro w hw
  cases w with
  | text t =>
    rw [denotes, h]
    exact congrArg Except.ok (by rw [Bool.eq_iff_iff]; simp)
  | float x => exact absurd rfl (hw x)
  | _ => rfl

theorem denotesOnly_rawText {quoted s : List Char} (h : rawValue? quoted = some s) :
    (rawText quoted).DenotesOnly (.text (String.ofList s)) := by
  intro w hw
  cases w with
  | text t =>
    rw [denotes, h]
    exact congrArg Except.ok (by rw [Bool.eq_iff_iff]; simp)
  | float x => exact absurd rfl (hw x)
  | _ => rfl

theorem ofToken?_of_denotes {k : Kind} {text : String} {v : Scalar}
    (h : TokenDenotes k text.toList v) :
    ∃ l, ofToken? k text = some l ∧ l.DenotesOnly v := by
  generalize hcs : text.toList = cs at h
  cases h with
  | integer h hn =>
    refine ⟨_, rfl, denotesOnly_integer ?_⟩
    rw [hcs, integerValue_of_text h, if_pos hn]
  | boolean b =>
    rw [String.toList_inj] at hcs
    refine ⟨.bool b, ?_, denotesOnly_bool b⟩
    cases b <;> simp [ofToken?, hcs]
  | char h =>
    refine ⟨_, rfl, denotesOnly_char ?_⟩
    rw [hcs, charValue?_of_piece h]
  | text h =>
    refine ⟨_, rfl, denotesOnly_text ?_⟩
    rw [hcs, textValue?_of_body h]
  | rawText =>
    refine ⟨_, rfl, denotesOnly_rawText ?_⟩
    rw [hcs, rawValue?_of_content]

end Literal

theorem isNamed_of_coreDenotes {core : Tree} {v : Scalar} (h : CoreDenotes core v) :
    core.isNamed = true := by
  cases h with
  | @token r k t v h =>
    generalize t.text.toList = cs at h
    cases h <;> rfl
  | negative => rfl

theorem isNamed_of_parenthesized {core t : Tree} (h : Parenthesized core t)
    (hcore : core.isNamed = true) : t.isNamed = true := by
  cases h with
  | refl => exact hcore
  | paren => rfl

/-- Parentheses do not matter. -/
theorem ofTree?_of_parenthesized {core t : Tree} (h : Parenthesized core t)
    (hcore : core.isNamed = true) : ofTree? t = ofTree? core := by
  induction h with
  | refl => rfl
  | @paren inner r s opening closing hin ho _ ih =>
    have hopening : opening.isNamed = false := by simp [Tree.isNamed, ho, Kind.isNamed]
    rw [ofTree?_paren, List.find?_cons_of_neg (by simp [hopening]),
      List.find?_cons_of_pos (isNamed_of_parenthesized hin hcore), Option.bind_some, ih]

/-- Behind a minus sign stand comments and the operand. -/
theorem ofTree?_of_minus {r : Role} {s : Text.Span} {minus operand : Tree} (comments : List Tree)
    (hm : minus.kind = .mark) (ht : minus.text = "-") (ho : operand.isNamed = true) :
    ofTree? (.node r .unary s (minus :: (comments ++ [operand]))) =
      (ofTree? operand).bind negate? := by
  have hlast : ((minus :: (comments ++ [operand])).filter Tree.isNamed).getLast? =
      some operand := by
    rw [List.filter_cons_of_neg (by simp [Tree.isNamed, hm, Kind.isNamed]), List.filter_append,
      List.filter_cons_of_pos ho, List.filter_nil, List.getLast?_append,
      List.getLast?_singleton, Option.some_or]
  rw [ofTree?_unary, hlast, Option.bind_some, if_pos (by rw [isMinus, ht]; rfl)]

theorem ofTree?_of_coreDenotes {core : Tree} {v : Scalar} (h : CoreDenotes core v) :
    ∃ l, ofTree? core = some l ∧ l.DenotesOnly v := by
  cases h with
  | token h => rw [ofTree?]; exact Literal.ofToken?_of_denotes h
  | @negative r s minus comments operand r' t n hm ht hc ho h hn =>
    have hoperand : operand.isNamed = true := isNamed_of_parenthesized ho rfl
    refine ⟨.integer ('-' :: t.text.toList), ?_, Literal.denotesOnly_integer ?_⟩
    · rw [ofTree?_of_minus comments hm ht hoperand, ofTree?_of_parenthesized ho rfl]
      rfl
    · rw [integerValue_of_negative h, if_pos hn]

theorem ofTree?_of_denotes {t : Tree} {v : Scalar} (h : Denotes t v) :
    ∃ l, ofTree? t = some l ∧ l.DenotesOnly v := by
  obtain ⟨core, hcore, hparen⟩ := h
  rw [ofTree?_of_parenthesized hparen (isNamed_of_coreDenotes hcore)]
  exact ofTree?_of_coreDenotes hcore

/-- Comparing a literal with a scalar tells whether it denotes the scalar. -/
theorem compare_of_denotes {t : Tree} {v w : Scalar} (h : Denotes t v) (hw : ∀ x, w ≠ .float x) :
    compare t w = .ok (if v = w then .equal else .notEqual) := by
  obtain ⟨l, hl, hdenotes⟩ := ofTree?_of_denotes h
  exact compare_of_ofTree? hl (hdenotes w hw) beq_iff_eq

/-- A literal denotes one scalar only. -/
theorem Denotes.unique {t : Tree} {v w : Scalar} (hv : Denotes t v) (hw : Denotes t w)
    (hfloat : ∀ x, w ≠ .float x) : v = w := by
  have heq := (compare_of_denotes hv hfloat).symm.trans (compare_of_denotes hw hfloat)
  rw [if_pos rfl] at heq
  by_cases hvw : v = w
  · exact hvw
  · rw [if_neg hvw] at heq
    cases Except.ok.inj heq

theorem Denotes.isLiteral {t : Tree} {v : Scalar} (h : Denotes t v) : IsLiteral t := by
  obtain ⟨l, hl, -⟩ := ofTree?_of_denotes h
  exact (isLiteral_of_ofTree? hl).1

end Attest.Call
