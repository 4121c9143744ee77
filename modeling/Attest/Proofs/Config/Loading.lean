/-
  Loading a configuration, setting by setting. Main statement: each setting comes from its
  variable, or else from the one file that is looked at, or else from the defaults, and only
  the check of the result can fail (`Config.load_eq`).
-/
import Attest.Config.Load
import Attest.Proofs.Config.Guess
import Attest.Proofs.Config.Written
import Attest.Proofs.Text.Split

namespace Attest

/-! ## Settings -/

/-- Some of the settings, each with a value of its own type. -/
structure Settings where
  enabled : Option Bool := none
  entryPoint : Option String := none
  sourceRoots : Option (List String) := none
  maxLength : Option Nat := none
deriving DecidableEq, Repr

/-- The new value of each setting, or else the old one. -/
def Settings.over (new old : Settings) : Settings where
  enabled := new.enabled.or old.enabled
  entryPoint := new.entryPoint.or old.entryPoint
  sourceRoots := new.sourceRoots.or old.sourceRoots
  maxLength := new.maxLength.or old.maxLength

namespace Settings

/-- The configuration that has its default for each setting without a value. -/
def config (s : Settings) : Config :=
  let defaults : Config := {}
  { resolver := {
      enabled := s.enabled.getD defaults.resolver.enabled
      entryPoint := s.entryPoint.getD defaults.resolver.entryPoint
      sourceRoots := s.sourceRoots.getD defaults.resolver.sourceRoots }
    formatter := { maxLength := s.maxLength.getD defaults.formatter.maxLength } }

/-- The value of a setting as data. -/
def datum? (s : Settings) : Setting → Option Datum
  | .enabled => s.enabled.map .bool
  | .entryPoint => s.entryPoint.map .text
  | .sourceRoots => s.sourceRoots.map fun roots => .list (roots.map .text)
  | .maxLength => s.maxLength.map fun n : Nat => .int n

theorem datum?_over (new old : Settings) (k : Setting) :
    (new.over old).datum? k = (new.datum? k).or (old.datum? k) := by
  cases k <;> simp only [datum?, Settings.over, Option.map_or]

theorem datum?_or_default (s : Settings) (k : Setting) :
    (s.datum? k).or (some (({} : Config).datum k)) = some (s.config.datum k) := by
  cases k with
  | enabled => cases h : s.enabled <;> simp [datum?, Config.datum, config, h]
  | entryPoint => cases h : s.entryPoint <;> simp [datum?, Config.datum, config, h]
  | sourceRoots => cases h : s.sourceRoots <;> simp [datum?, Config.datum, config, h]
  | maxLength => cases h : s.maxLength <;> simp [datum?, Config.datum, config, h]

end Settings

/-! ## Layers -/

/-- The layer says of each setting what `s` says, and nothing else that concerns it. -/
def LayerGives (layer : List (String × Datum)) (s : Settings) : Prop :=
  ∀ k : Setting, LayerFits k.path layer ∧ layerGiven? k.path layer = s.datum? k

theorem LayerGives.at?_layOver {layer : List (String × Datum)} {s : Settings}
    (h : LayerGives layer s) (d : Datum) (k : Setting) :
    (layOver layer d).at? k.path = (s.datum? k).or (d.at? k.path) := by
  rw [Attest.at?_layOver (h k).1, (h k).2]

/-- What the layers make together is converted and then checked. -/
theorem ofLayers_eq_match (file system : List (String × Datum)) :
    Config.ofLayers file system =
      match Conversions.loose.config? (layOver system (layOver file (({} : Config).data))) with
      | none => .error .mistyped
      | some c => c.validate.map fun _ => c := by
  rw [Config.ofLayers]
  cases Conversions.loose.config? _ with
  | none => rfl
  | some c =>
    dsimp only
    cases c.validate <;> rfl

/-- The layers are converted to the settings that they give, and these are checked. -/
theorem ofLayers_eq {file system : List (String × Datum)} {s t : Settings}
    (hfile : LayerGives file s) (hsystem : LayerGives system t) :
    Config.ofLayers file system = (t.over s).config.validate.map fun _ => (t.over s).config := by
  have hsettings : Conversions.loose.config? (layOver system (layOver file (({} : Config).data))) =
      some (t.over s).config := by
    refine loose_faithful.config fun k => ?_
    rw [hsystem.at?_layOver, hfile.at?_layOver, Config.at?_data, ← Option.or_assoc,
      ← Settings.datum?_over, Settings.datum?_or_default]
  rw [ofLayers_eq_match, hsettings]

theorem layerGives_nil : LayerGives [] {} := by
  intro k
  cases k <;> exact ⟨by decide, rfl⟩

/-! ## The file -/

/-- The file that is looked at: the one asked for, or else the project's if there is one, or else
the user's. A user without home has none, and the project's is looked for in vain. -/
inductive Chosen (e : Environment) : Option String → String → Prop where
  | asked {path : String} (h : Path.extension? path = some "toml") : Chosen e (some path) path
  | project (h : (e.entry projectFile).exists? = true) : Chosen e none projectFile
  | user {home : String} (h : (e.entry projectFile).exists? = false) (hhome : e.home = some home) :
      Chosen e none (userFile home)
  | homeless (h : (e.entry projectFile).exists? = false) (hhome : e.home = none) :
      Chosen e none projectFile

/-- What the file at a path gives: nothing if it is absent, and else what its document says. -/
inductive FileGives (e : Environment) (path : String) : Settings → Prop where
  | absent {fault : PathFault} (h : e.entry path = .none fault) : FileGives e path {}
  | present {text : String} {layer : List (String × Datum)} {s : Settings}
      (htext : (e.entry path).text = .ok text) (hlayer : readLayer? "toml" text = some layer)
      (h : LayerGives layer s) : FileGives e path s

theorem exists_join (home : String) : ∃ before, Path.join home ".verdict" = before ++ ".verdict" := by
  rw [Path.join, if_neg (by decide)]
  split
  · exact ⟨home, rfl⟩
  · exact ⟨home ++ "/", rfl⟩

theorem exists_directory (home : String) :
    ∃ directory, userFile home = directory ++ "/config.toml" := by
  obtain ⟨before, hbefore⟩ := exists_join home
  have hslash : (before ++ ".verdict").isEmpty = false ∧
      (before ++ ".verdict").toList.getLast? = some 't' := by
    constructor
    · simp
    · simp
  refine ⟨before ++ ".verdict", ?_⟩
  rw [userFile, hbefore, Path.join, if_neg (by decide), hslash.1, hslash.2, if_neg (by decide),
    String.append_assoc]
  rfl

/-- The user's file is named `config.toml`, wherever the home is. -/
theorem extension?_userFile (home : String) : Path.extension? (userFile home) = some "toml" := by
  obtain ⟨directory, hdirectory⟩ := exists_directory home
  obtain ⟨part, parts, hparts⟩ :=
    List.exists_cons_of_ne_nil (Text.split_ne_nil '/' directory.toList)
  have hsplit : Text.split '/' (directory ++ "/config.toml").toList =
      part :: (parts ++ ["config.toml".toList]) := by
    rw [String.toList_append]
    show Text.split '/' (directory.toList ++ '/' :: "config.toml".toList) = _
    rw [Text.split_append, hparts]
    rfl
  have hname : Path.isName false "config.toml".toList = true := by decide
  have hlast : (Path.names (directory ++ "/config.toml")).getLast? = some "config.toml".toList := by
    rw [Path.names, hsplit]
    simp only [List.filter_append, List.filter_cons_of_pos hname, List.filter_nil,
      ← List.append_assoc, List.getLast?_concat]
  rw [hdirectory, Path.extension?, hlast]
  decide

theorem Chosen.eq {e : Environment} {asked : Option String} {path : String}
    (h : Chosen e asked path) : asked.getD (Config.defaultFile e) = path := by
  cases h with
  | asked => rfl
  | project h => simp only [Option.getD_none, Config.defaultFile, h, if_true]
  | user h hhome => simp [Config.defaultFile, h, hhome]
  | homeless h hhome => simp [Config.defaultFile, h, hhome]

theorem Chosen.extension {e : Environment} {asked : Option String} {path : String}
    (h : Chosen e asked path) : Path.extension? path = some "toml" := by
  cases h with
  | asked h => exact h
  | project => decide
  | user => exact extension?_userFile _
  | homeless => decide

theorem FileGives.layerAt {e : Environment} {path : String} {s : Settings}
    (h : FileGives e path s) (hpath : Path.extension? path = some "toml") :
    ∃ layer, Attest.layerAt e path = .ok layer ∧ LayerGives layer s := by
  cases h with
  | absent h =>
    refine ⟨[], ?_, layerGives_nil⟩
    rw [Attest.layerAt, h]
  | @present text layer _ htext hlayer hgives =>
    refine ⟨layer, ?_, hgives⟩
    have hfile : fileLayer? e path = some layer := by
      rw [fileLayer?, hpath, htext]
      exact hlayer
    cases hentry : e.entry path with
    | none fault => simp [hentry, Entry.text] at htext
    | directory => simp [hentry, Entry.text] at htext
    | file bytes => rw [Attest.layerAt, hentry]; dsimp only; rw [hfile]

/-! ## The variables -/

/-- What the variables give. The text of each variable is well typed for its setting, and no other
variable concerns the settings. -/
structure VariablesGive (settings : List (String × String)) (s : Settings) : Prop where
  distinct : (settings.map Prod.fst).Nodup
  others : OthersApart settings
  enabled : Option.Rel (fun text b => lower text = if b then "true" else "false")
    (settings.lookup Setting.enabled.variableName) s.enabled
  entryPoint : Option.Rel (fun text name => IsPlain text ∧ name = text)
    (settings.lookup Setting.entryPoint.variableName) s.entryPoint
  sourceRoots : Option.Rel (fun text roots => IsPlain text ∧ roots = Text.splitString ',' text)
    (settings.lookup Setting.sourceRoots.variableName) s.sourceRoots
  maxLength : Option.Rel
    (fun text (n : Nat) => (Number.signed 64).read? 10 text.toList = some (n : Int))
    (settings.lookup Setting.maxLength.variableName) s.maxLength

theorem map_eq_of_rel {α β γ : Type} {r : α → β → Prop} {f : α → γ} {g : β → γ} {x : Option α}
    {y : Option β} (h : Option.Rel r x y) (hfg : ∀ a b, r a b → f a = g b) : x.map f = y.map g := by
  cases h with
  | some h => exact congrArg some (hfg _ _ h)
  | none => rfl

theorem VariablesGive.layerGives {settings : List (String × String)} {s : Settings}
    (h : VariablesGive settings s) : LayerGives (variableLayer settings) s := by
  intro k
  refine ⟨layerFits_variableLayer h.others k, ?_⟩
  rw [layerGiven?_variableLayer h.distinct h.others]
  cases k with
  | enabled => exact map_eq_of_rel h.enabled fun _ _ hb => datumOfVariable_of_bool hb
  | entryPoint =>
    refine map_eq_of_rel h.entryPoint fun text name ⟨hplain, hname⟩ => ?_
    rw [datumOfVariable_of_plain hplain, if_neg (by decide), hname]
  | sourceRoots =>
    refine map_eq_of_rel h.sourceRoots fun text roots ⟨hplain, hroots⟩ => ?_
    rw [datumOfVariable_of_plain hplain, if_pos (by decide), hroots]
  | maxLength => exact map_eq_of_rel h.maxLength fun _ _ hn => datumOfVariable_of_integer hn

/-! ## All of it -/

namespace Config

/-- Each setting has its variable's value, or else the file's, or else its default, and loading
fails exactly if the check of this configuration does. -/
theorem load_eq {e : Environment} {asked : Option String} {path : String} {file system : Settings}
    (hpath : Chosen e asked path) (hfile : FileGives e path file)
    (hsystem : VariablesGive e.settings system) :
    load e asked = (system.over file).config.validate.map fun _ => (system.over file).config := by
  obtain ⟨layer, hlayer, hgives⟩ := hfile.layerAt hpath.extension
  rw [load, hpath.eq, fromFile, hlayer]
  exact ofLayers_eq hgives hsystem.layerGives

/-- A file for the section of the resolver. -/
def resolverText : String := "[resolver]\nenabled = false\nentry_point = \"check\"\n"

theorem toList_resolverText : resolverText.toList = headerText "resolver"
    (entryText "enabled" (flagText false) (entryText "entry_point" (Toml.quote "check").toList [])) := by
  decide +kernel

theorem readLayer?_resolverText : readLayer? "toml" resolverText =
    some [("resolver", .table [("enabled", .bool false), ("entry_point", .text "check")])] := by
  have hlines (fuel : Nat) : Toml.readLines? (fuel + 3) resolverText.toList =
      some [.header ["resolver"], .entry ["enabled"] (.bool false), .entry ["entry_point"] (.text "check")] := by
    rw [toList_resolverText, readLines?_headerText ⟨by decide, by decide⟩,
      readLines?_entryText ⟨by decide, by decide⟩ (readValue?_flagText _ _ _)
        (skipSpaces_flagText _ _),
      readLines?_entryText ⟨by decide, by decide⟩ (Toml.readValue?_quote _ _ (by simp))
        (skipSpaces_quote _ _), readLines?_nil]
    rfl
  have hlength : resolverText.toList.length = 49 := by decide
  have hmark : Toml.dropMark resolverText.toList = resolverText.toList := rfl
  rw [readLayer?, hmark, String.ofList_toList, if_pos rfl, Toml.read?, hmark]
  rw [hlength, hlines 47]
  rfl

/-- A project with a file, and two variables, one of them for a setting that the file has too. -/
def layeredProject : Environment where
  entry path := if path = projectFile then .file resolverText.toUTF8 else .none .missing
  currentDirectory := none
  settings := [("VERDICT_RESOLVER__ENTRY_POINT", "must"), ("HOME", "/home"),
    ("VERDICT_FORMATTER__MAX_VALUE_LEN", "80")]
  home := some "/home"

theorem variablesGive_layeredProject :
    VariablesGive layeredProject.settings { entryPoint := some "must", maxLength := some 80 } where
  distinct := by decide
  others := by
    intro v hv hne key hkey k
    simp only [layeredProject, List.mem_cons, List.not_mem_nil, or_false] at hv
    rcases hv with rfl | rfl | rfl
    · exact absurd rfl (hne .entryPoint)
    · cases hkey
    · exact absurd rfl (hne .maxLength)
  enabled := .none
  entryPoint := .some ⟨⟨by decide, by decide, by decide, by decide⟩, rfl⟩
  sourceRoots := .none
  maxLength := .some (by decide)

theorem load_eq_layered :
    Chosen layeredProject none projectFile ∧
    FileGives layeredProject projectFile { enabled := some false, entryPoint := some "check" } ∧
    VariablesGive layeredProject.settings { entryPoint := some "must", maxLength := some 80 } ∧
    load layeredProject none = .ok ⟨⟨false, "must", []⟩, ⟨80⟩⟩ := by
  have hpath : Chosen layeredProject none projectFile := .project rfl
  have hfile : FileGives layeredProject projectFile
      { enabled := some false, entryPoint := some "check" } := by
    refine .present (Entry.text_file _) readLayer?_resolverText fun k => ?_
    cases k <;> exact ⟨by decide, rfl⟩
  refine ⟨hpath, hfile, variablesGive_layeredProject, ?_⟩
  rw [load_eq hpath hfile variablesGive_layeredProject]
  decide

end Config

end Attest
