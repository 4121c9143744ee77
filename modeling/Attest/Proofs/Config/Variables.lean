/-
  Settings whose text is taken for something else first. Main statement: what an entry point and
  what source roots become that only their variables set (`Config.load_variable`). A name that
  spells a truth value or an infinite number is spelled anew, and a single source root that
  spells a truth value or a number is refused; all others are taken as they are.
-/
import Attest.Proofs.Config.Loading

namespace Attest

open Number

/-- How an entry point reads that a variable sets. -/
def respelt (name : String) : String :=
  if lower name = "true" then "true"
  else if lower name = "false" then "false"
  else if lower name = "inf" ∨ lower name = "infinity" then "inf"
  else if lower name = "nan" then "NaN"
  else name

/-- Of the variables for settings only one is set. -/
structure OnlySets (settings : List (String × String)) (k : Setting) (text : String) : Prop where
  distinct : (settings.map Prod.fst).Nodup
  others : OthersApart settings
  lookup (other : Setting) :
    settings.lookup other.variableName = if other = k then some text else none

/-! ## Conversion back to a text -/

/-- A name is a text again after what it was taken for, spelled anew if it was a word. -/
theorem looseText?_datumOfVariable {key name : String} (hkey : key ≠ sourceRootsKey)
    (h : isIdentifier name.toList = true) :
    looseText? (datumOfVariable key name) = some (respelt name) := by
  have hword : readWord? false name.toList =
      if (lower name == "inf" || lower name == "infinity") = true then some (.infinite false)
      else if (lower name == "nan") = true then some .nan else none := rfl
  rw [datumOfVariable, read?_of_isIdentifier _ h, format_read?_of_isIdentifier _ h, hword, respelt]
  dsimp only
  rw [if_neg hkey]
  by_cases htrue : lower name = "true"
  · rw [if_pos htrue, if_pos htrue]
    rfl
  by_cases hfalse : lower name = "false"
  · rw [if_neg htrue, if_neg htrue, if_pos hfalse, if_pos hfalse]
    rfl
  rw [if_neg htrue, if_neg htrue, if_neg hfalse, if_neg hfalse]
  by_cases hinf : lower name = "inf" ∨ lower name = "infinity"
  · rw [if_pos (by simpa using hinf), if_pos hinf]
    rfl
  by_cases hnan : lower name = "nan"
  · rw [if_neg (by simpa using hinf), if_neg hinf, if_pos (by simpa using hnan), if_pos hnan]
    rfl
  · rw [if_neg (by simpa using hinf), if_neg hinf, if_neg (by simpa using hnan), if_neg hnan]
    rfl

/-- What is taken for something else than a text is no list. -/
theorem texts?_datumOfVariable (text : String) :
    Conversions.loose.texts? (datumOfVariable sourceRootsKey text) =
      if IsPlain text then some (Text.splitString ',' text) else none := by
  by_cases hplain : IsPlain text
  · rw [datumOfVariable_of_plain hplain, if_pos rfl, loose_faithful.texts, if_pos hplain]
  rw [if_neg hplain, datumOfVariable]
  by_cases htrue : lower text = "true"
  · rw [if_pos htrue]
    rfl
  by_cases hfalse : lower text = "false"
  · rw [if_neg htrue, if_pos hfalse]
    rfl
  rw [if_neg htrue, if_neg hfalse]
  cases hinteger : (signed 64).read? 10 text.toList with
  | some i => rfl
  | none =>
    cases hnumber : double.read? text.toList with
    | some x => rfl
    | none => exact absurd ⟨htrue, hfalse, hinteger, hnumber⟩ hplain

theorem isPlain_of_several (first second : String) (rest : List String) :
    IsPlain (",".intercalate (first :: second :: rest)) := by
  refine isPlain_of_comma ?_
  rw [String.toList_intercalate, List.map_cons, List.map_cons, List.intercalate_cons_cons]
  simp

/-! ## Loading -/

variable {e : Environment} {asked : Option String} {path : String}

/-- The settings are the defaults but for the one that is set. -/
theorem load_of_onlySets (hpath : Chosen e asked path) (hfile : FileGives e path {}) {k : Setting}
    {text : String} (h : OnlySets e.settings k text) : ∃ d : Datum,
      (∀ other : Setting, d.at? other.path =
        some (if other = k then datumOfVariable k.key text else ({} : Config).datum other)) ∧
      Config.load e asked = match Conversions.loose.config? d with
        | none => .error .mistyped
        | some c => c.validate.map fun _ => c := by
  obtain ⟨layer, hlayer, hgives⟩ := hfile.layerAt hpath.extension
  refine ⟨layOver (variableLayer e.settings) (layOver layer (({} : Config).data)), ?_, ?_⟩
  · intro other
    rw [at?_layOver (layerFits_variableLayer h.others other), hgives.at?_layOver,
      layerGiven?_variableLayer h.distinct h.others, h.lookup, Config.at?_data,
      Settings.datum?_or_default]
    by_cases hother : other = k
    · subst hother
      rw [if_pos rfl, if_pos rfl]
      rfl
    · rw [if_neg hother, if_neg hother]
      rfl
  · rw [Config.load, hpath.eq, Config.fromFile, hlayer]
    exact ofLayers_eq_match _ _

theorem isIdentifier_respelt {name : String} (h : isIdentifier name.toList = true) :
    isIdentifier (respelt name).toList = true := by
  rw [respelt]
  repeat' split
  all_goals first | exact h | decide

namespace Config

theorem validate_resolver (r : ResolverConfig) :
    validate { resolver := r } = .ok () ↔ isIdentifier r.entryPoint.toList = true := by
  have hlimit : leastMaxLength ≤ ({} : FormatterConfig).maxLength := by decide
  rw [validate_iff, and_iff_left hlimit]

theorem load_entryPoint (hpath : Chosen e asked path) (hfile : FileGives e path {}) {name : String}
    (hname : isIdentifier name.toList = true) (h : OnlySets e.settings .entryPoint name) :
    load e asked = .ok { resolver := { entryPoint := respelt name } } := by
  obtain ⟨d, hd, hload⟩ := load_of_onlySets hpath hfile h
  have hconfig : Conversions.loose.config? d =
      some { resolver := { entryPoint := respelt name } } := by
    rw [config?_of_at? (hd .enabled) (hd .entryPoint) (hd .sourceRoots) (hd .maxLength)]
    rw [if_pos rfl]
    show (looseText? _).bind _ = _
    rw [looseText?_datumOfVariable (by decide) hname]
    rfl
  rw [hload, hconfig]
  dsimp only
  rw [(validate_resolver { entryPoint := respelt name }).2 (isIdentifier_respelt hname)]
  rfl

theorem load_sourceRoots (hpath : Chosen e asked path) (hfile : FileGives e path {})
    {text : String} (h : OnlySets e.settings .sourceRoots text) :
    load e asked = if IsPlain text
      then .ok { resolver := { sourceRoots := Text.splitString ',' text } }
      else .error .mistyped := by
  obtain ⟨d, hd, hload⟩ := load_of_onlySets hpath hfile h
  have hconfig : Conversions.loose.config? d = if IsPlain text
      then some { resolver := { sourceRoots := Text.splitString ',' text } } else none := by
    rw [config?_of_at? (hd .enabled) (hd .entryPoint) (hd .sourceRoots) (hd .maxLength)]
    show (Conversions.loose.texts? (datumOfVariable sourceRootsKey text)).bind _ = _
    rw [texts?_datumOfVariable]
    split <;> rfl
  have hdefault : isIdentifier ({} : ResolverConfig).entryPoint.toList = true := by decide
  rw [hload, hconfig]
  by_cases hplain : IsPlain text
  · rw [if_pos hplain, if_pos hplain]
    dsimp only
    rw [(validate_resolver { sourceRoots := Text.splitString ',' text }).2 hdefault]
    rfl
  · rw [if_neg hplain, if_neg hplain]

/-- Without a file, and with one variable: a name is taken as it is unless it is another spelling
of a truth value or of a number without digits, and source roots are taken as they are unless it
is only one that spells a truth value or a number. -/
theorem load_variable (hpath : Chosen e asked path) (hfile : FileGives e path {}) :
    (∀ name : String, validate { resolver := { entryPoint := name } } = .ok () →
      OnlySets e.settings .entryPoint name →
      load e asked = .ok { resolver := { entryPoint := respelt name } }) ∧
    ∀ roots : List String, roots ≠ [] → (∀ root ∈ roots, root ≠ "" ∧ ',' ∉ root.toList) →
      OnlySets e.settings .sourceRoots (",".intercalate roots) →
      load e asked =
        if roots.length = 1 ∧ ¬ IsPlain (",".intercalate roots) then .error .mistyped
        else .ok { resolver := { sourceRoots := roots } } := by
  refine ⟨fun name hname h => load_entryPoint hpath hfile ((validate_resolver _).1 hname) h,
    fun roots hne hroots h => ?_⟩
  rw [load_sourceRoots hpath hfile h,
    Text.splitString_intercalate (by decide : ",".toList = [',']) hne fun root hroot =>
      (hroots root hroot).2]
  by_cases hplain : IsPlain (",".intercalate roots)
  · rw [if_pos hplain, if_neg fun hnot => hnot.2 hplain]
  · have hone : roots.length = 1 := by
      match roots, hne with
      | [root], _ => rfl
      | root :: next :: rest, _ => exact absurd (isPlain_of_several root next rest) hplain
    rw [if_neg hplain, if_pos ⟨hone, hplain⟩]

/-- No file, and one variable. -/
def oneVariable (k : Setting) (text : String) : Environment where
  entry _ := .none .missing
  currentDirectory := none
  settings := [(k.variableName, text)]
  home := none

theorem onlySets_oneVariable (k : Setting) (text : String) :
    OnlySets (oneVariable k text).settings k text where
  distinct := List.nodup_singleton _
  others := by
    intro v hv hne
    rw [List.mem_singleton.1 hv] at hne
    exact absurd rfl (hne k)
  lookup := by
    intro other
    rw [oneVariable, List.lookup_cons]
    by_cases hother : other = k
    · subst hother
      simp
    · have hne : (other.variableName == k.variableName) = false :=
        beq_false_of_ne fun h => hother (Setting.variableName_injective h)
      rw [hne, if_neg hother]
      rfl

theorem load_variable_one :
    (validate { resolver := { entryPoint := "Infinity" } } = .ok () ∧
      OnlySets (oneVariable .entryPoint "Infinity").settings .entryPoint "Infinity" ∧
      load (oneVariable .entryPoint "Infinity") none =
        .ok { resolver := { entryPoint := "inf" } }) ∧
    OnlySets (oneVariable .sourceRoots "/lib,2024").settings .sourceRoots
        (",".intercalate ["/lib", "2024"]) ∧
      load (oneVariable .sourceRoots "/lib,2024") none =
        .ok { resolver := { sourceRoots := ["/lib", "2024"] } } := by
  have hpath (k : Setting) (text : String) : Chosen (oneVariable k text) none projectFile :=
    .homeless rfl rfl
  have hfile (k : Setting) (text : String) : FileGives (oneVariable k text) projectFile {} :=
    .absent rfl
  have hname : validate { resolver := { entryPoint := "Infinity" } } = .ok () := by decide
  have hroots : OnlySets (oneVariable .sourceRoots "/lib,2024").settings .sourceRoots
      (",".intercalate ["/lib", "2024"]) := onlySets_oneVariable _ _
  refine ⟨⟨hname, onlySets_oneVariable _ _, ?_⟩, hroots, ?_⟩
  · exact (load_variable (hpath _ _) (hfile _ _)).1 "Infinity" hname (onlySets_oneVariable _ _)
  · exact (load_variable (hpath _ _) (hfile _ _)).2 ["/lib", "2024"] (by decide) (by decide) hroots

/-- The word for the infinite number is shortened, and a directory named by a year is refused. -/
theorem variable_may_be_mistaken :
    (validate { resolver := { entryPoint := "Infinity" } } = .ok () ∧
      load (oneVariable .entryPoint "Infinity") none =
        .ok { resolver := { entryPoint := "inf" } }) ∧
    load (oneVariable .sourceRoots "2024") none = .error .mistyped := by
  decide +kernel

end Config

end Attest
