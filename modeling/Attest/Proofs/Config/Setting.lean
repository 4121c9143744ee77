/-
  The four settings: where they stand in the data, what variables set them, and how data become a
  configuration. Main statements: data with a value for each setting are converted value by value
  (`config?_of_at?`), and the variables say about a setting what its own variable says
  (`layerGiven?_variableLayer`).
-/
import Mathlib.Data.List.Basic
import Attest.Config.Convert
import Attest.Proofs.Config.Layer

namespace Attest

inductive Setting where
  | enabled
  | entryPoint
  | sourceRoots
  | maxLength
deriving DecidableEq, Repr

namespace Setting

def path : Setting → List String
  | enabled => ["resolver", "enabled"]
  | entryPoint => ["resolver", "entry_point"]
  | sourceRoots => ["resolver", "source_roots"]
  | maxLength => ["formatter", "max_value_len"]

def variableName : Setting → String
  | enabled => "VERDICT_RESOLVER__ENABLED"
  | entryPoint => "VERDICT_RESOLVER__ENTRY_POINT"
  | sourceRoots => "VERDICT_RESOLVER__SOURCE_ROOTS"
  | maxLength => "VERDICT_FORMATTER__MAX_VALUE_LEN"

/-- The key of the variable. -/
def key (k : Setting) : String := ".".intercalate k.path

theorem keyOfVariable?_variableName (k : Setting) : keyOfVariable? k.variableName = some k.key := by
  cases k <;> decide

theorem variableName_injective {k other : Setting} (h : k.variableName = other.variableName) :
    k = other := by
  cases k <;> cases other <;> first | rfl | exact absurd h (by decide)

theorem keyPath_key (k : Setting) : keyPath k.key = k.path := by
  cases k <;> decide

theorem lower_path (k : Setting) : k.path.map lower = k.path := by
  cases k <;> decide

theorem apart_of_ne {k other : Setting} (h : k ≠ other) : Datum.Apart k.path other.path := by
  cases k <;> cases other <;> first | exact absurd rfl h | decide

end Setting

/-! ## Conversion -/

theorem setting?_of_lookup {d x : Datum} {name : String} (h : d.entries.lookup name = some x)
    (position : Nat) : d.setting? name position = some (some x) := by
  cases d with
  | table entries => exact congrArg some h
  | _ => simp [Datum.entries] at h

theorem readSetting_of_lookup {α : Type} {d x : Datum} {name : String}
    (h : d.entries.lookup name = some x) (read? : Datum → Option α) (default : α) (position : Nat) :
    readSetting read? default name position d = read? x := by
  rw [readSetting, setting?_of_lookup h]

theorem at?_pair {d x : Datum} {section' name : String} (h : d.at? [section', name] = some x) :
    ∃ y, d.entries.lookup section' = some y ∧ y.entries.lookup name = some x := by
  obtain ⟨y, hy, hx⟩ := Option.bind_eq_some_iff.1 h
  obtain ⟨x', hx', hsome⟩ := Option.bind_eq_some_iff.1 hx
  exact ⟨y, hy, Option.some.inj hsome ▸ hx'⟩

theorem config?_of_at? {d enabled entryPoint sourceRoots maxLength : Datum}
    (henabled : d.at? Setting.enabled.path = some enabled)
    (hentry : d.at? Setting.entryPoint.path = some entryPoint)
    (hroots : d.at? Setting.sourceRoots.path = some sourceRoots)
    (hlength : d.at? Setting.maxLength.path = some maxLength) (c : Conversions) :
    c.config? d = (do
      let enabled ← c.bool? enabled
      let entryPoint ← c.text? entryPoint
      let sourceRoots ← c.texts? sourceRoots
      let maxLength ← c.natural? maxLength
      return ⟨⟨enabled, entryPoint, sourceRoots⟩, ⟨maxLength⟩⟩) := by
  obtain ⟨resolver, hresolver, henabled⟩ := at?_pair henabled
  obtain ⟨_, hsame, hentry⟩ := at?_pair hentry
  obtain rfl := Option.some.inj (hresolver.symm.trans hsame)
  obtain ⟨_, hsame, hroots⟩ := at?_pair hroots
  obtain rfl := Option.some.inj (hresolver.symm.trans hsame)
  obtain ⟨formatter, hformatter, hlength⟩ := at?_pair hlength
  simp only [Conversions.config?, readSetting_of_lookup hresolver,
    readSetting_of_lookup hformatter, Conversions.resolver?, Conversions.formatter?,
    readSetting_of_lookup henabled, readSetting_of_lookup hentry, readSetting_of_lookup hroots,
    readSetting_of_lookup hlength, Option.bind_eq_bind, Option.pure_def, Option.bind_assoc,
    Option.bind_some]

/-- Each kind of value is taken for itself, whatever else it may be taken for. -/
structure Conversions.Faithful (c : Conversions) : Prop where
  bool (b : Bool) : c.bool? (.bool b) = some b
  text (s : String) : c.text? (.text s) = some s
  natural (n : Nat) : c.natural? (.int n) = some n

theorem strict_faithful : Conversions.strict.Faithful :=
  ⟨fun _ => rfl, fun _ => rfl, fun _ => rfl⟩

theorem loose_faithful : Conversions.loose.Faithful :=
  ⟨fun _ => rfl, fun _ => rfl, fun _ => rfl⟩

theorem Conversions.Faithful.texts {c : Conversions} (h : c.Faithful) (texts : List String) :
    c.texts? (.list (texts.map .text)) = some texts := by
  show (texts.map Datum.text).mapM c.text? = some texts
  induction texts with
  | nil => rfl
  | cons text texts ih =>
    rw [List.map_cons, List.mapM_cons, ih, h.text]
    rfl

/-- The value of a setting as data. -/
def Config.datum (c : Config) : Setting → Datum
  | .enabled => .bool c.resolver.enabled
  | .entryPoint => .text c.resolver.entryPoint
  | .sourceRoots => .list (c.resolver.sourceRoots.map .text)
  | .maxLength => .int c.formatter.maxLength

theorem Config.at?_data (c : Config) (k : Setting) : c.data.at? k.path = some (c.datum k) := by
  cases k <;> rfl

/-- Data with the settings of a configuration are converted to it. -/
theorem Conversions.Faithful.config {conversions : Conversions} (h : conversions.Faithful)
    {d : Datum} {c : Config} (hd : ∀ k : Setting, d.at? k.path = some (c.datum k)) :
    conversions.config? d = some c := by
  rw [config?_of_at? (hd .enabled) (hd .entryPoint) (hd .sourceRoots) (hd .maxLength)]
  simp only [Config.datum, h.bool, h.text, h.natural, h.texts, Option.bind_eq_bind,
    Option.bind_some, Option.pure_def]

/-! ## Variables -/

theorem isTable_datumOfVariable (key value : String) :
    (datumOfVariable key value).isTable = false := by
  unfold datumOfVariable
  dsimp only
  repeat' split
  all_goals rfl

/-- Variables other than those of the settings have nothing to do with the settings. -/
def OthersApart (settings : List (String × String)) : Prop :=
  ∀ v ∈ settings, (∀ k : Setting, v.1 ≠ k.variableName) →
    ∀ key, keyOfVariable? v.1 = some key → ∀ k : Setting, Datum.Apart ((keyPath key).map lower) k.path

variable {settings : List (String × String)}

/-- What one variable says about a setting. -/
theorem given?_variable (hothers : OthersApart settings) (k : Setting) {v : String × String}
    (hv : v ∈ settings) {key : String} (hkey : keyOfVariable? v.1 = some key) :
    ((datumOfVariable key v.2).atPath (keyPath key)).Fits k.path ∧
      ((datumOfVariable key v.2).atPath (keyPath key)).given? k.path =
        if v.1 = k.variableName then some (datumOfVariable k.key v.2) else none := by
  by_cases hsetting : ∃ other : Setting, v.1 = other.variableName
  · obtain ⟨other, hname⟩ := hsetting
    have hother : key = other.key := by
      rw [hname, other.keyOfVariable?_variableName] at hkey
      exact (Option.some.inj hkey).symm
    have hpath : (keyPath other.key).map lower = other.path := by
      rw [other.keyPath_key, other.lower_path]
    subst hother
    by_cases hk : k = other
    · subst hk
      have hfits : ((datumOfVariable k.key v.2).atPath (keyPath k.key)).Fits
          ((keyPath k.key).map lower) :=
        Datum.fits_atPath_self (isTable_datumOfVariable k.key v.2)
      have hgiven := Datum.given?_atPath_self (keyPath k.key) (datumOfVariable k.key v.2)
      rw [hpath] at hfits hgiven
      rw [if_pos hname]
      exact ⟨hfits, hgiven⟩
    · have hapart : Datum.Apart ((keyPath other.key).map lower) k.path := by
        rw [hpath]
        exact Setting.apart_of_ne (Ne.symm hk)
      have hne : v.1 ≠ k.variableName := by
        rw [hname]
        exact fun h => hk (Setting.variableName_injective h.symm)
      rw [if_neg hne]
      exact ⟨Datum.fits_atPath_apart hapart, Datum.given?_atPath_apart hapart⟩
  · have hne : ∀ other : Setting, v.1 ≠ other.variableName := fun other h => hsetting ⟨other, h⟩
    have hapart := hothers v hv hne key hkey k
    rw [if_neg (hne k)]
    exact ⟨Datum.fits_atPath_apart hapart, Datum.given?_atPath_apart hapart⟩

theorem fromTop_variableLayer (settings : List (String × String)) :
    fromTop (variableLayer settings) = settings.filterMap fun v =>
      (keyOfVariable? v.1).map fun key => (datumOfVariable key v.2).atPath (keyPath key) := by
  rw [fromTop, variableLayer, List.map_filterMap]
  simp only [Option.map_map]
  rfl

theorem layerFits_variableLayer (hothers : OthersApart settings) (k : Setting) :
    LayerFits k.path (variableLayer settings) := by
  rw [LayerFits, fromTop_variableLayer]
  intro x hx
  obtain ⟨v, hv, hsome⟩ := List.mem_filterMap.1 hx
  obtain ⟨key, hkey, rfl⟩ := Option.map_eq_some_iff.1 hsome
  exact (given?_variable hothers k hv hkey).1

/-- The last value of a name is its only one if the names are distinct. -/
theorem getLast?_filterMap_name {α : Type} {name : String} (f : String → α)
    (h : (settings.map Prod.fst).Nodup) :
    (settings.filterMap fun v => if v.1 = name then some (f v.2) else none).getLast? =
      (settings.lookup name).map f := by
  induction settings with
  | nil => rfl
  | cons v rest ih =>
    obtain ⟨n, value⟩ := v
    obtain ⟨hn, hrest⟩ := List.nodup_cons.1 h
    rw [getLast?_filterMap_cons, ih hrest, List.lookup_cons]
    by_cases hname : n = name
    · subst hname
      have hnone : rest.lookup n = none := by
        rw [List.lookup_eq_none_iff]
        intro p hp
        rw [bne_iff_ne]
        rintro rfl
        exact hn (List.mem_map.2 ⟨p, hp, rfl⟩)
      simp [hnone]
    · have hbeq : (name == n) = false := beq_false_of_ne (Ne.symm hname)
      simp [hname, hbeq]

/-- A setting is given by its variable alone. -/
theorem layerGiven?_variableLayer (hnames : (settings.map Prod.fst).Nodup)
    (hothers : OthersApart settings) (k : Setting) :
    layerGiven? k.path (variableLayer settings) =
      (settings.lookup k.variableName).map (datumOfVariable k.key) := by
  rw [← getLast?_filterMap_name (datumOfVariable k.key) hnames, layerGiven?,
    fromTop_variableLayer, List.filterMap_filterMap]
  congr 1
  refine List.filterMap_congr fun v hv => ?_
  cases hkey : keyOfVariable? v.1 with
  | some key => exact (given?_variable hothers k hv hkey).2
  | none =>
    have hne : v.1 ≠ k.variableName := by
      intro h
      rw [h, k.keyOfVariable?_variableName] at hkey
      cases hkey
    rw [if_neg hne]
    rfl

end Attest
