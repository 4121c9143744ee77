/-
  Histories of overrides. Operations on a registry take effect one after the other, whoever asks
  for them, so what is bound in the end is settled by their list alone. Main statement
  (`contextFor_history`): for the resolver and the formatter each on its own, a test gets what was
  bound last for it and not reset since, else what was bound last for every test and not reset
  since, else the default; and no operation on one test changes the context of another.
-/
import Mathlib.Data.List.Basic
import Mathlib.Data.List.Induction
import Attest.Overrides

namespace Attest

/-! ## One operation in one scope -/

namespace Override

/-- What the operation applies to. -/
def scope : Override → Scope
  | resolver s _ => s
  | formatter s _ => s
  | reset s => s

/-- The resolver that the operation binds in a scope. -/
def resolverIn? (target : Scope) : Override → Option Resolver
  | resolver s r => if s = target then some r else none
  | _ => none

/-- The formatter that the operation binds in a scope. -/
def formatterIn? (target : Scope) : Override → Option Formatter
  | formatter s f => if s = target then some f else none
  | _ => none

/-- The operation drops what is bound in a scope. -/
def Resets (target : Scope) : Override → Prop
  | reset s => s = .every ∨ s = target
  | _ => False

instance (target : Scope) : DecidablePred (Resets target)
  | resolver _ _ => .isFalse id
  | formatter _ _ => .isFalse id
  | reset s => inferInstanceAs (Decidable (s = .every ∨ s = target))

/-- The bindings of a scope that the operation does not drop. -/
def kept (target : Scope) (op : Override) (b : Bindings) : Bindings :=
  if op.Resets target then {} else b

/-- What the operation makes of the bindings of a scope. -/
def change (target : Scope) (op : Override) (b : Bindings) : Bindings :=
  ⟨(op.resolverIn? target).or (op.kept target b).resolver,
    (op.formatterIn? target).or (op.kept target b).formatter⟩

/-- An operation on a test leaves every other scope as it is. -/
theorem change_of_scope_ne {op : Override} {test : String} {target : Scope}
    (hscope : op.scope = .test test) (hne : target ≠ .test test) (b : Bindings) :
    op.change target b = b := by
  cases op with
  | resolver s | formatter s | reset s =>
    obtain rfl : s = .test test := hscope
    simp [change, resolverIn?, formatterIn?, kept, Resets, hne.symm]

end Override

namespace Overrides

/-- The bindings of a scope. -/
def boundIn (o : Overrides) : Scope → Bindings
  | .every => o.global
  | .test name => o.bindingsOf name

theorem lookup_filter_self {β : Type} (name : String) (entries : List (String × β)) :
    (entries.filter fun e => e.1 != name).lookup name = none := by
  rw [List.lookup_eq_none_iff]
  intro e he
  have hne : (e.1 != name) = true := (List.mem_filter.mp he).2
  rw [bne_iff_ne] at hne
  exact bne_iff_ne.mpr hne.symm

theorem lookup_filter_ne {β : Type} {name other : String} (h : other ≠ name)
    (entries : List (String × β)) :
    (entries.filter fun e => e.1 != name).lookup other = entries.lookup other := by
  induction entries with
  | nil => rfl
  | cons e entries ih =>
    obtain ⟨key, value⟩ := e
    by_cases hkey : key = name
    · subst hkey
      simpa [List.lookup_cons, beq_false_of_ne h] using ih
    · simp [hkey, List.lookup_cons, ih]

theorem boundIn_update (o : Overrides) (s target : Scope) (f : Bindings → Bindings) :
    (o.update s f).boundIn target = if s = target then f (o.boundIn target) else o.boundIn target := by
  cases s with
  | every => cases target <;> simp [update, boundIn, bindingsOf]
  | test name =>
    cases target with
    | every => simp [update, boundIn]
    | test other =>
      by_cases h : other = name
      · subst h
        simp [update, boundIn, bindingsOf, lookup_assign_self]
      · simp [update, boundIn, bindingsOf, lookup_assign_ne h, Ne.symm h]

theorem boundIn_reset (o : Overrides) (s target : Scope) :
    (o.reset s).boundIn target = if s = .every ∨ s = target then {} else o.boundIn target := by
  cases s with
  | every => cases target <;> simp [reset, boundIn, bindingsOf]
  | test name =>
    cases target with
    | every => simp [reset, boundIn]
    | test other =>
      by_cases h : other = name
      · subst h
        simp [reset, boundIn, bindingsOf, lookup_filter_self]
      · simp [reset, boundIn, bindingsOf, lookup_filter_ne h, Ne.symm h]

/-- Each scope changes on its own. -/
theorem boundIn_apply (o : Overrides) (op : Override) (target : Scope) :
    (o.apply op).boundIn target = op.change target (o.boundIn target) := by
  cases op with
  | resolver s | formatter s =>
    rw [apply, boundIn_update]
    by_cases h : s = target <;>
      simp [Override.change, Override.resolverIn?, Override.formatterIn?, Override.kept,
        Override.Resets, h]
  | reset s => rw [apply, boundIn_reset]; rfl

theorem defaults_apply (o : Overrides) (op : Override) : (o.apply op).defaults = o.defaults := by
  rcases op with ⟨_ | _, _⟩ | ⟨_ | _, _⟩ | ⟨_ | _⟩ <;> rfl

/-- No operation on a test is seen by another one. -/
theorem contextFor_apply_of_ne (o : Overrides) {op : Override} {test other : String}
    (hscope : op.scope = .test test) (hne : other ≠ test) :
    (o.apply op).contextFor other = o.contextFor other := by
  have hown : (o.apply op).bindingsOf other = o.bindingsOf other :=
    (o.boundIn_apply op (.test other)).trans (op.change_of_scope_ne hscope (by simpa using hne) _)
  have hglobal : (o.apply op).global = o.global :=
    (o.boundIn_apply op .every).trans (op.change_of_scope_ne hscope (by simp) _)
  rw [contextFor, hown, hglobal, defaults_apply, contextFor]

/-! ## Whole histories -/

/-- A registry with nothing bound, and then the operations in their order. -/
def after (defaults : AssertionContext) (history : List Override) : Overrides :=
  history.foldl apply { defaults }

variable {β : Type} {bound? : Scope → Override → Option β} {target : Scope} {test : String}
  {defaults : AssertionContext} {history : List Override}

/-- `x` was bound last in the scope, and no reset of the scope follows. -/
def Stands (bound? : Scope → Override → Option β) (target : Scope) (history : List Override)
    (x : β) : Prop :=
  ∃ before op later, history = before ++ op :: later ∧ bound? target op = some x ∧
    ∀ op' ∈ later, bound? target op' = none ∧ ¬ op'.Resets target

/-- What a test gets: its own binding, else the one for every test, else the default. -/
inductive Prevails (bound? : Scope → Override → Option β) (test : String) (fallback : β)
    (history : List Override) : β → Prop
  | own {x : β} (h : Stands bound? (.test test) history x) : Prevails bound? test fallback history x
  | common {x : β} (hown : ∀ y, ¬ Stands bound? (.test test) history y)
      (h : Stands bound? .every history x) : Prevails bound? test fallback history x
  | fallback (hown : ∀ y, ¬ Stands bound? (.test test) history y)
      (hcommon : ∀ y, ¬ Stands bound? .every history y) :
      Prevails bound? test fallback history fallback

theorem after_concat (op : Override) :
    after defaults (history ++ [op]) = (after defaults history).apply op :=
  List.foldl_append

theorem defaults_after : (after defaults history).defaults = defaults := by
  induction history using List.reverseRecOn with
  | nil => rfl
  | append_singleton history op ih => rw [after_concat, defaults_apply, ih]

theorem not_stands_nil (x : β) : ¬ Stands bound? target [] x := by
  rintro ⟨before, op, later, h, -⟩
  simp at h

/-- The last operation binds, or it leaves what was bound before. -/
theorem stands_concat (op : Override) (x : β) :
    Stands bound? target (history ++ [op]) x ↔ bound? target op = some x ∨
      (bound? target op = none ∧ ¬ op.Resets target ∧ Stands bound? target history x) := by
  constructor
  · rintro ⟨before, op', later, heq, hbound, hlater⟩
    -- Either the binding is the last operation itself, or the last one is among the later ones.
    rcases List.eq_nil_or_concat' later with rfl | ⟨later, last, rfl⟩
    · obtain ⟨-, hop⟩ := List.append_inj' heq rfl
      obtain rfl : op = op' := by simpa using hop
      exact Or.inl hbound
    · rw [← List.cons_append, ← List.append_assoc] at heq
      obtain ⟨rfl, hop⟩ := List.append_inj' heq rfl
      obtain rfl : op = last := by simpa using hop
      have hlast := hlater op (by simp)
      exact Or.inr ⟨hlast.1, hlast.2, before, op', later, rfl, hbound,
        fun o ho => hlater o (List.mem_append_left _ ho)⟩
  · rintro (hbound | ⟨hnone, hkept, before, op', later, rfl, hbound, hlater⟩)
    · exact ⟨history, op, [], rfl, hbound, by simp⟩
    · refine ⟨before, op', later ++ [op], by simp, hbound, fun o ho => ?_⟩
      rcases List.mem_append.mp ho with ho | ho
      · exact hlater o ho
      · obtain rfl := List.mem_singleton.mp ho
        exact ⟨hnone, hkept⟩

/-- A part of the bindings that is empty at first and that every operation binds, drops or
leaves holds what stands. -/
theorem slot_eq_some_iff {slot : Bindings → Option β} (hempty : slot {} = none)
    (hchange : ∀ op b, slot (Override.change target op b) =
      (bound? target op).or (slot (op.kept target b))) (x : β) :
    slot ((after defaults history).boundIn target) = some x ↔ Stands bound? target history x := by
  induction history using List.reverseRecOn with
  | nil =>
    have hnone : slot ((after defaults []).boundIn target) = none := by
      cases target <;> exact hempty
    rw [hnone]
    exact iff_of_false (by simp) (not_stands_nil x)
  | append_singleton history op ih =>
    rw [after_concat, boundIn_apply, hchange, stands_concat, ← ih]
    by_cases hreset : op.Resets target
    · simp [Override.kept, hreset, hempty]
    · simp [Override.kept, hreset, Option.or_eq_some_iff]

theorem resolver_eq_some_iff (r : Resolver) :
    ((after defaults history).boundIn target).resolver = some r ↔
      Stands Override.resolverIn? target history r :=
  slot_eq_some_iff rfl (fun _ _ => rfl) r

theorem formatter_eq_some_iff (f : Formatter) :
    ((after defaults history).boundIn target).formatter = some f ↔
      Stands Override.formatterIn? target history f :=
  slot_eq_some_iff rfl (fun _ _ => rfl) f

theorem prevails_iff {own common : Option β} {fallback : β}
    (hown : ∀ x, own = some x ↔ Stands bound? (.test test) history x)
    (hcommon : ∀ x, common = some x ↔ Stands bound? .every history x) (x : β) :
    (own.or common).getD fallback = x ↔ Prevails bound? test fallback history x := by
  constructor
  · rintro rfl
    cases own with
    | some y => exact .own ((hown y).mp rfl)
    | none =>
      have hnone : ∀ y, ¬ Stands bound? (.test test) history y := fun y h => by
        simpa using (hown y).mpr h
      cases common with
      | some y => exact .common hnone ((hcommon y).mp rfl)
      | none => exact .fallback hnone fun y h => by simpa using (hcommon y).mpr h
  · have hnone : ∀ {o : Option β}, (∀ y, o ≠ some y) → o = none := fun h =>
      Option.eq_none_iff_forall_ne_some.mpr h
    rintro (h | ⟨hnot, h⟩ | ⟨hnot, hnot'⟩)
    · rw [(hown x).mpr h]
      rfl
    · rw [hnone fun y hy => hnot y ((hown y).mp hy), (hcommon x).mpr h]
      rfl
    · rw [hnone fun y hy => hnot y ((hown y).mp hy), hnone fun y hy => hnot' y ((hcommon y).mp hy)]
      rfl

/-- The history holds the operations of all threads, in the order in which they took effect. -/
theorem contextFor_history (defaults : AssertionContext) (history : List Override)
    (test : String) :
    (∀ r, ((after defaults history).contextFor test).resolver = r ↔
      Prevails Override.resolverIn? test defaults.resolver history r) ∧
    (∀ f, ((after defaults history).contextFor test).formatter = f ↔
      Prevails Override.formatterIn? test defaults.formatter history f) ∧
    ∀ op other, op.scope = .test test → other ≠ test →
      (after defaults (history ++ [op])).contextFor other =
        (after defaults history).contextFor other := by
  refine ⟨fun r => ?_, fun f => ?_, fun op other hscope hne => ?_⟩
  · rw [← prevails_iff resolver_eq_some_iff resolver_eq_some_iff, contextFor, defaults_after]
    rfl
  · rw [← prevails_iff formatter_eq_some_iff formatter_eq_some_iff, contextFor, defaults_after]
    rfl
  · rw [after_concat]
    exact contextFor_apply_of_ne _ hscope hne

/-- A test is bound, reset and bound again, and another resolver is bound for every test. -/
def reboundHistory : List Override :=
  [.resolver (.test "t") (.total fun _ _ => some "first"), .reset (.test "t"),
    .resolver (.test "t") (.total fun _ _ => some "own"),
    .resolver .every (.total fun _ _ => some "shared")]

theorem contextFor_history_rebound :
    (Override.reset (.test "t")).scope = .test "t" ∧ "u" ≠ "t" ∧
    ((after ⟨.null, standardFormatter 200⟩ reboundHistory).contextFor "t").resolver =
      .total (fun _ _ => some "own") ∧
    (after ⟨.null, standardFormatter 200⟩ (reboundHistory ++ [.reset (.test "t")])).contextFor "u" =
      (after ⟨.null, standardFormatter 200⟩ reboundHistory).contextFor "u" := by
  obtain ⟨hresolver, -, hother⟩ :=
    contextFor_history ⟨.null, standardFormatter 200⟩ reboundHistory "t"
  refine ⟨rfl, by decide, (hresolver _).mpr (.own ?_), hother _ "u" rfl (by decide)⟩
  refine ⟨reboundHistory.take 2, .resolver (.test "t") _, reboundHistory.drop 3, rfl, ?_, ?_⟩
  · simp [Override.resolverIn?]
  · simp [reboundHistory, Override.resolverIn?, Override.Resets]

end Overrides

end Attest
