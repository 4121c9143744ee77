/-
  Conditions on grammars. A condition on what a form says itself, about its tokens, nodes and links,
  is checked on all forms inside it (`Form.Every`); the small forms of the grammar of Rust add no
  conditions of their own (`every_seqs` and so on).
-/
import Attest.Syntax.Grammar

namespace Attest.Syntax

/-- What is asked of the tokens, nodes and links that a form describes. -/
structure Condition (ν : Type) where
  token : (Token → Bool) → (Token → Kind) → Prop
  node : (List Tree → Kind) → Form ν → Prop
  link : Kind → Role → Form ν → Prop

variable {ν : Type} {C : Condition ν}

mutual

/-- The condition holds of the form and of all forms inside it. -/
def Form.Every (C : Condition ν) : Form ν → Prop
  | .empty | .operator _ | .rule _ => True
  | .token accepts kind => C.token accepts kind
  | .seq first second => first.Every C ∧ second.Every C
  | .alt first second => first.Every C ∧ second.Every C
  | .many item => item.Every C
  | .unless absent => absent.Every C
  | .role _ form => form.Every C
  | .node kind form => C.node kind form ∧ form.Every C
  | .grow base links => base.Every C ∧ EveryLink C links

def EveryLink (C : Condition ν) : List ((Kind → Bool) × Kind × Role × Form ν) → Prop
  | [] => True
  | (_, kind, role, form) :: links => (C.link kind role form ∧ form.Every C) ∧ EveryLink C links

end

@[simp] theorem everyLink_iff {links : List ((Kind → Bool) × Kind × Role × Form ν)} :
    EveryLink C links ↔ ∀ l ∈ links, C.link l.2.1 l.2.2.1 l.2.2.2 ∧ l.2.2.2.Every C := by
  induction links with
  | nil => simp [EveryLink]
  | cons l links ih =>
    obtain ⟨behind, kind, role, form⟩ := l
    rw [EveryLink, ih, List.forall_mem_cons]

mutual

/-- A condition may be weakened. -/
theorem Form.Every.imp {C D : Condition ν} (htoken : ∀ a k, C.token a k → D.token a k)
    (hnode : ∀ k f, C.node k f → D.node k f) (hlink : ∀ k r f, C.link k r f → D.link k r f) :
    ∀ {form : Form ν}, form.Every C → form.Every D
  | .empty, _ | .operator _, _ | .rule _, _ => by rw [Form.Every]; trivial
  | .token _ _, h => by rw [Form.Every] at *; exact htoken _ _ h
  | .seq _ _, h => by
    rw [Form.Every] at *
    exact ⟨h.1.imp htoken hnode hlink, h.2.imp htoken hnode hlink⟩
  | .alt _ _, h => by
    rw [Form.Every] at *
    exact ⟨h.1.imp htoken hnode hlink, h.2.imp htoken hnode hlink⟩
  | .many _, h => by rw [Form.Every] at *; exact h.imp htoken hnode hlink
  | .unless _, h => by rw [Form.Every] at *; exact h.imp htoken hnode hlink
  | .role _ _, h => by rw [Form.Every] at *; exact h.imp htoken hnode hlink
  | .node _ _, h => by
    rw [Form.Every] at *
    exact ⟨hnode _ _ h.1, h.2.imp htoken hnode hlink⟩
  | .grow _ _, h => by
    rw [Form.Every] at *
    exact ⟨h.1.imp htoken hnode hlink, h.2.imp htoken hnode hlink⟩

theorem EveryLink.imp {C D : Condition ν} (htoken : ∀ a k, C.token a k → D.token a k)
    (hnode : ∀ k f, C.node k f → D.node k f) (hlink : ∀ k r f, C.link k r f → D.link k r f) :
    ∀ {links : List ((Kind → Bool) × Kind × Role × Form ν)}, EveryLink C links → EveryLink D links
  | [], _ => by rw [EveryLink]; trivial
  | (_, _, _, _) :: _, h => by
    rw [EveryLink] at *
    exact ⟨⟨hlink _ _ _ h.1.1, h.1.2.imp htoken hnode hlink⟩, h.2.imp htoken hnode hlink⟩

end

/-! ## Small forms -/

namespace Grammar

variable {C : Condition Rule} {P : F → Prop}

theorem seqs_cons (f : F) (fs : List F) : seqs (f :: fs) = .seq f (seqs fs) := rfl

/-- What a sequence of two forms has exactly if both have it, a longer one has exactly if all have
it. -/
theorem seqs_iff (hempty : P .empty) (hseq : ∀ f g, P (.seq f g) ↔ P f ∧ P g) (fs : List F) :
    P (seqs fs) ↔ ∀ f ∈ fs, P f := by
  induction fs with
  | nil => exact ⟨fun _ f hf => absurd hf List.not_mem_nil, fun _ => hempty⟩
  | cons f fs ih => rw [seqs_cons, hseq, ih, List.forall_mem_cons]

theorem alts_cons (f g : F) (fs : List F) : alts (f :: g :: fs) = .alt f (alts (g :: fs)) := rfl

/-- The same for a choice between forms. -/
theorem alts_iff (halt : ∀ f g, P (.alt f g) ↔ P f ∧ P g) (f : F) (fs : List F) :
    P (alts (f :: fs)) ↔ ∀ g ∈ f :: fs, P g := by
  induction fs generalizing f with
  | nil => rw [alts, List.forall_mem_singleton]
  | cons g gs ih => rw [alts_cons, halt, ih, List.forall_mem_cons (l := g :: gs)]

@[simp] theorem every_seqs (fs : List F) : (seqs fs).Every C ↔ ∀ f ∈ fs, f.Every C :=
  seqs_iff (by rw [Form.Every]; trivial) (fun _ _ => by rw [Form.Every]) fs

@[simp] theorem every_alts (f : F) (fs : List F) :
    (alts (f :: fs)).Every C ↔ ∀ g ∈ f :: fs, g.Every C :=
  alts_iff (fun _ _ => by rw [Form.Every]) f fs

theorem every_leaf (k : Kind) (accepts : Token → Bool) :
    (leaf k accepts).Every C ↔ C.token accepts fun _ => k := by
  rw [leaf, Form.Every]

@[simp] theorem every_as (k : Kind) (f : F) :
    (as k f).Every C ↔ C.node (fun _ => k) f ∧ f.Every C := by
  rw [as, Form.Every]

@[simp] theorem every_opt (f : F) : (opt f).Every C ↔ f.Every C := by simp [opt, Form.Every]

@[simp] theorem every_ahead (f : F) : (ahead f).Every C ↔ f.Every C := by simp [ahead, Form.Every]

@[simp] theorem every_rule (x : Rule) : (r x).Every C := by simp [r, Form.Every]

@[simp] theorem every_op (s : String) : (op s).Every C := by simp [op, Form.Every]

@[simp] theorem every_ops (o : String) (os : List String) : (ops (o :: os)).Every C := by
  simp [ops]

end Grammar

end Attest.Syntax
