/-
  What a layer of settings says about a path, and what becomes of the settings under it. Main
  statement: where a layer fits a path, the settings there are what the layer says, or else what
  they were before (`at?_layOver`).
-/
import Attest.Config.Layer

namespace Attest

/-! ## One datum over another -/

theorem getLast?_filterMap_cons {α β : Type} (f : α → Option β) (x : α) (xs : List α) :
    ((x :: xs).filterMap f).getLast? = ((xs.filterMap f).getLast?).or (f x) := by
  rw [List.filterMap_cons]
  cases f x with
  | none => rw [Option.or_none]
  | some y => rw [List.getLast?_cons]; cases (xs.filterMap f).getLast? <;> rfl

namespace Datum

/-- The datum at a path of keys. -/
def at? : List String → Datum → Option Datum
  | [], d => some d
  | key :: path, d => (d.entries.lookup key).bind (at? path)

/-- What a datum says about a path: the last entry that leads there counts, whatever the case of
its key. -/
def given? : List String → Datum → Option Datum
  | [], d => some d
  | key :: path, d =>
    (d.entries.filterMap fun e => if lower e.1 = key then given? path e.2 else none).getLast?

def isTable : Datum → Bool
  | .table _ => true
  | _ => false

/-- All that a datum has at a path are values that are no tables, and on the way there it has
tables only. -/
def Fits : List String → Datum → Prop
  | [], d => d.isTable = false
  | key :: path, d => d.isTable = true ∧ ∀ e ∈ d.entries, lower e.1 = key → Fits path e.2

instance decidableFits : (path : List String) → (d : Datum) → Decidable (d.Fits path)
  | [], d => inferInstanceAs (Decidable (d.isTable = false))
  | key :: path, d =>
    have := decidableFits path
    inferInstanceAs (Decidable (d.isTable = true ∧ ∀ e ∈ d.entries, lower e.1 = key → _))

theorem over_of_not_table {x : Datum} (h : x.isTable = false) (old : Datum) : x.over old = x := by
  cases x with
  | table entries => cases h
  | _ => rfl

/-- The entries are laid one after the other, so the last that leads to the path decides. -/
theorem at?_entriesOver {key : String} {path : List String}
    (hover : ∀ x old, Fits path x → at? path (x.over old) = (given? path x).or (at? path old))
    {entries : List (String × Datum)} (h : ∀ e ∈ entries, lower e.1 = key → Fits path e.2)
    (old : Datum) :
    at? (key :: path) (entriesOver entries old) =
      (given? (key :: path) (.table entries)).or (at? (key :: path) old) := by
  induction entries generalizing old with
  | nil => rfl
  | cons e rest ih =>
    obtain ⟨k, x⟩ := e
    have hrest := ih (fun e he => h e (List.mem_cons_of_mem _ he))
    rw [entriesOver, hrest]
    by_cases hk : lower k = key
    · have hbelow : (given? path x).or
          (at? path ((old.entries.lookup key).getD (.table []))) =
          (given? path x).or (at? (key :: path) old) := by
        cases hlookup : old.entries.lookup key with
        | some below => simp only [at?, hlookup, Option.getD_some, Option.bind_some]
        | none =>
          cases path with
          | nil => rfl
          | cons key' path => simp only [at?, hlookup, Option.bind_none]; rfl
      have hhere : at? (key :: path) (.table (assign (lower k)
          (x.over ((old.entries.lookup (lower k)).getD (.table []))) old.entries)) =
          (given? path x).or (at? (key :: path) old) := by
        rw [at?, entries, hk, lookup_assign_self, Option.bind_some,
          hover x _ (h (k, x) List.mem_cons_self hk), hbelow]
      rw [hhere, ← Option.or_assoc, given?, given?, entries, entries, getLast?_filterMap_cons,
        if_pos hk]
    · have hhere : at? (key :: path) (.table (assign (lower k)
          (x.over ((old.entries.lookup (lower k)).getD (.table []))) old.entries)) =
          at? (key :: path) old := by
        rw [at?, entries, lookup_assign_ne (Ne.symm hk), at?]
      rw [hhere, given?, given?, entries, entries, getLast?_filterMap_cons, if_neg hk,
        Option.or_none]

theorem at?_over {path : List String} {x : Datum} (h : x.Fits path) (old : Datum) :
    (x.over old).at? path = (x.given? path).or (old.at? path) := by
  induction path generalizing x old with
  | nil => rw [over_of_not_table h]; rfl
  | cons key path ih =>
    obtain ⟨htable, hentries⟩ := h
    cases x with
    | table entries => exact at?_entriesOver (fun x old hx => ih hx old) hentries old
    | _ => cases htable

/-! ## A datum at a path -/

/-- Tables around a datum, one for each key of a path. -/
def atPath : List String → Datum → Datum
  | [], x => x
  | key :: path, x => .table [(key, atPath path x)]

theorem overAt_eq (path : List String) (x old : Datum) :
    x.overAt path old = (x.atPath path).over old := by
  induction path generalizing old with
  | nil => rfl
  | cons key path ih => rw [overAt, ih]; rfl

/-- Neither path leads through the other. -/
def Apart (p q : List String) : Prop := ¬ p <+: q ∧ ¬ q <+: p

instance (p q : List String) : Decidable (Apart p q) :=
  inferInstanceAs (Decidable (_ ∧ _))

theorem Apart.tail {key : String} {p q : List String} (h : Apart (key :: p) (key :: q)) :
    Apart p q :=
  ⟨fun hp => h.1 (List.cons_prefix_cons.2 ⟨rfl, hp⟩),
    fun hq => h.2 (List.cons_prefix_cons.2 ⟨rfl, hq⟩)⟩

variable {path other : List String} {x : Datum}

theorem given?_atPath_self (path : List String) (x : Datum) :
    given? (path.map lower) (x.atPath path) = some x := by
  induction path with
  | nil => rfl
  | cons key path ih =>
    rw [List.map_cons, given?, atPath, entries, List.filterMap_cons, if_pos rfl, ih]
    rfl

theorem fits_atPath_self (h : x.isTable = false) :
    (x.atPath path).Fits (path.map lower) := by
  induction path with
  | nil => exact h
  | cons key path ih =>
    refine ⟨rfl, fun e he _ => ?_⟩
    rw [List.mem_singleton.1 he]
    exact ih

theorem given?_atPath_apart (h : Apart (path.map lower) other) :
    given? other (x.atPath path) = none := by
  induction path generalizing other with
  | nil => exact absurd List.nil_prefix h.1
  | cons key path ih =>
    cases other with
    | nil => exact absurd List.nil_prefix h.2
    | cons key' other =>
      rw [given?, atPath, entries, List.filterMap_cons]
      by_cases hkey : lower key = key'
      · subst hkey
        rw [if_pos rfl, ih h.tail]
        rfl
      · rw [if_neg hkey]
        rfl

theorem fits_atPath_apart (h : Apart (path.map lower) other) : (x.atPath path).Fits other := by
  induction path generalizing other with
  | nil => exact absurd List.nil_prefix h.1
  | cons key path ih =>
    cases other with
    | nil => exact absurd List.nil_prefix h.2
    | cons key' other =>
      refine ⟨rfl, fun e he hkey => ?_⟩
      rw [List.mem_singleton.1 he] at hkey ⊢
      subst hkey
      exact ih h.tail

end Datum

/-! ## A layer over the settings -/

/-- The entries of a layer, each as a datum from the top. -/
def fromTop (layer : List (String × Datum)) : List Datum :=
  layer.map fun e => e.2.atPath (keyPath e.1)

/-- What a layer says about a path. -/
def layerGiven? (path : List String) (layer : List (String × Datum)) : Option Datum :=
  ((fromTop layer).filterMap (Datum.given? path)).getLast?

def LayerFits (path : List String) (layer : List (String × Datum)) : Prop :=
  ∀ x ∈ fromTop layer, x.Fits path

instance (path : List String) (layer : List (String × Datum)) : Decidable (LayerFits path layer) :=
  inferInstanceAs (Decidable (∀ x ∈ fromTop layer, _))

theorem layOver_eq (layer : List (String × Datum)) (settings : Datum) :
    layOver layer settings = (fromTop layer).foldl (fun old x => x.over old) settings := by
  simp only [layOver, fromTop, List.foldl_map, Datum.overAt_eq]

theorem at?_layOver {path : List String} {layer : List (String × Datum)}
    (h : LayerFits path layer) (settings : Datum) :
    (layOver layer settings).at? path = (layerGiven? path layer).or (settings.at? path) := by
  rw [layOver_eq, layerGiven?]
  rw [LayerFits] at h
  generalize fromTop layer = xs at h ⊢
  induction xs generalizing settings with
  | nil => rfl
  | cons x rest ih =>
    rw [List.foldl_cons, ih _ (fun y hy => h y (List.mem_cons_of_mem _ hy)),
      Datum.at?_over (h x List.mem_cons_self), ← Option.or_assoc, getLast?_filterMap_cons]

end Attest
