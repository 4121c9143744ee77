/-
  Which file a reported path stands for. Main statement (`locate_firstFile`): on every disk an
  absolute path stands for itself, and a relative one for the first regular file in the order of
  the search: the roots, the package's directory and those around it, the current directory and
  those around it. The search leaves the current directory out if it is the package's, and loses
  nothing by that: from two spellings of a directory a relative path leads to the same place
  (`entry_join`), and the directories around them are the same.
-/
import Attest.Files.Locate
import Attest.Files.Tree
import Attest.Proofs.Files.Path

namespace Attest

/-! ## Names on the way -/

namespace Disk

variable {d : Disk} {place : Place}

/-- Does a name lead elsewhere? -/
def moves (name : String) : Bool := !(name = "" || name = ".")

theorem moves_ofList (part : List Char) : moves (String.ofList part) = Path.isName false part := by
  have hdot : String.ofList part = "." ↔ part = ['.'] :=
    ⟨fun h => by simpa using congrArg String.toList h, fun h => congrArg String.ofList h⟩
  rw [moves, Path.isName, Bool.eq_iff_iff]
  simp [hdot]

theorem walk_of_not_isDirectory {names : List String} (hne : names ≠ [])
    (h : d.isDirectory place = false) : d.walk place names = .error .notDirectory := by
  obtain ⟨name, rest, rfl⟩ := List.exists_cons_of_ne_nil hne
  rw [walk, h]
  rfl

/-- An empty name or a dot asks for a directory, as the names behind it do anyway. -/
theorem walk_filter (front : List String) {behind : List String} (hne : behind ≠ []) :
    d.walk place (front ++ behind) =
      d.walk place (front.filter moves ++ behind) := by
  induction front generalizing place with
  | nil => rfl
  | cons name front ih =>
    by_cases hskip : (name = "" || name = ".") = true
    · rw [List.filter_cons_of_neg (by simp only [moves, hskip]; decide)]
      cases hdir : d.isDirectory place with
      | false =>
        rw [walk_of_not_isDirectory (by simp) hdir, walk_of_not_isDirectory (by simp [hne]) hdir]
      | true => rw [List.cons_append, walk, hdir, if_neg (by decide), if_pos hskip, ih]
    · rw [List.filter_cons_of_pos (by simpa [moves] using hskip), List.cons_append,
        List.cons_append, walk, walk, if_neg hskip, if_neg hskip, ih, ih]

end Disk

theorem Disk.find_join (d : Disk) (current : Option Place) {base path : String}
    (hbase : Path.isAbsolute base = true) (hpath : Path.isAbsolute path = false) :
    d.find current (Path.join base path) =
      if (∃ name ∈ Path.names base, '\x00' ∈ name) ∨ '\x00' ∈ path.toList then .error .nul
      else d.walk [] ((Path.names base).map String.ofList ++ Text.splitString '/' path) := by
  obtain ⟨front, hjoin, hnames⟩ := Path.exists_toList_join hbase hpath
  have hsplit : Text.splitString '/' (Path.join base path) =
      (Text.split '/' front).map String.ofList ++ Text.splitString '/' path := by
    rw [Text.splitString, hjoin, Text.split_append, List.map_append]
    rfl
  have hfilter : ((Text.split '/' front).map String.ofList).filter moves =
      (Path.names base).map String.ofList := by
    rw [← hnames, List.filter_map]
    exact congrArg (List.map String.ofList) (List.filter_congr fun part _ => moves_ofList part)
  have hnul : (Path.join base path).toList.contains '\x00' =
      decide ((∃ name ∈ Path.names base, '\x00' ∈ name) ∨ '\x00' ∈ path.toList) := by
    have hnamed (part : List Char) (h : '\x00' ∈ part) : Path.isName false part = true := by
      have hnil : part ≠ [] := List.ne_nil_of_mem h
      have hdot : part ≠ ['.'] := fun heq => absurd (heq ▸ h) (by decide)
      simp [Path.isName, hnil, hdot]
    have hslash : '\x00' ≠ '/' := by decide
    rw [Bool.eq_iff_iff, List.contains_iff_mem, decide_eq_true_iff, hjoin, ← hnames,
      List.mem_append, List.mem_cons, ← Text.exists_mem_split hslash, or_iff_right hslash]
    refine or_congr (exists_congr fun part => and_congr_left fun hpart => ?_) Iff.rfl
    rw [List.mem_filter, and_iff_left (hnamed part hpart)]
  have habsolute : Path.isAbsolute (Path.join base path) = true := Path.isAbsolute_join hbase
  rw [find, Path.isEmpty_of_isAbsolute habsolute, hnul, hsplit, habsolute]
  simp only [Bool.false_eq_true, if_false, decide_eq_true_eq, if_true]
  rw [walk_filter _ (by simp [Text.splitString, Text.split_ne_nil]), hfilter]

/-- From two spellings of a directory a relative path leads to the same place. -/
theorem Disk.entry_join (d : Disk) (current : Option Place) {a b path : String}
    (ha : Path.isAbsolute a = true) (hb : Path.isAbsolute b = true)
    (hpath : Path.isAbsolute path = false) (hnames : Path.names a = Path.names b) :
    d.entry current (Path.join a path) = d.entry current (Path.join b path) := by
  rw [Disk.entry, Disk.entry, Disk.find_join d current ha hpath, Disk.find_join d current hb hpath,
    hnames]

/-! ## The search -/

/-- The directories to which a relative path is taken to belong, in order. -/
def directories (e : Environment) (roots : List String) : List String :=
  roots ++ ((e.valueOf manifestVariable).toList ++ e.currentDirectory.toList).flatMap
    Path.ancestors

/-- The first of the places at which there is a regular file. -/
def FirstFile (e : Environment) (places : List String) (path : String) : Prop :=
  ∃ before after, places = before ++ path :: after ∧ (e.entry path).isFile = true ∧
    ∀ earlier ∈ before, (e.entry earlier).isFile = false

theorem find?_eq_some_iff_firstFile {e : Environment} {places : List String} {path : String} :
    places.find? (fun p => (e.entry p).isFile) = some path ↔ FirstFile e places path := by
  rw [List.find?_eq_some_iff_append]
  constructor
  · rintro ⟨hfile, before, after, rfl, hbefore⟩
    exact ⟨before, after, rfl, hfile, fun p hp => by simpa using hbefore p hp⟩
  · rintro ⟨before, after, rfl, hfile, hbefore⟩
    exact ⟨hfile, before, after, rfl, fun p hp => by simpa using hbefore p hp⟩

/-- What is put behind a search finds nothing new if it finds nothing alone. -/
theorem find?_append_of_covered {α : Type} {p : α → Bool} {xs ys : List α}
    (h : ∀ y ∈ ys, p y = true → ∃ x ∈ xs, p x = true) : (xs ++ ys).find? p = xs.find? p := by
  rw [List.find?_append]
  cases hxs : xs.find? p with
  | some x => rfl
  | none =>
    rw [Option.none_or, List.find?_eq_none]
    intro y hy hpy
    obtain ⟨x, hx, hpx⟩ := h y hy hpy
    exact List.find?_eq_none.1 hxs x hx hpx

section

variable (d : Disk) (current : Option Place) (settings : List (String × String))
  (home : Option String)

/-- Leaving out the current directory loses nothing. -/
theorem find?_placesOf (roots : List String) {reported : String}
    (hreported : Path.isAbsolute reported = false) :
    let e := d.environment current settings home
    (placesOf e roots reported).find? (fun path => (e.entry path).isFile) =
      ((directories e roots).map (Path.join · reported)).find?
        (fun path => (e.entry path).isFile) := by
  intro e
  rw [placesOf, if_neg (by simp [hreported]), directories, searchBases]
  cases hcurrent : e.currentDirectory with
  | none => rfl
  | some here =>
    cases hsame : (e.valueOf manifestVariable).toList.any fun m => Path.same m here with
    | false => simp [hsame]
    | true =>
      obtain ⟨manifest, hmanifest, hsame'⟩ := List.any_eq_true.1 hsame
      have hhere : Path.isAbsolute here = true := by
        obtain ⟨place, -, rfl⟩ := Option.map_eq_some_iff.1 hcurrent
        exact Path.isAbsolute_append rfl _
      have hdrop : [here].filter (fun c =>
          !(e.valueOf manifestVariable).toList.any fun m => Path.same m c) = [] := by
        rw [List.filter_cons_of_neg (by simp [hsame]), List.filter_nil]
      rw [Option.toList_some, hdrop, List.append_nil, List.flatMap_append, ← List.append_assoc]
      symm
      rw [List.map_append, find?_append_of_covered]
      intro path hpath hfile
      obtain ⟨dir, hdir, rfl⟩ := List.mem_map.1 hpath
      rw [List.flatMap_singleton] at hdir
      obtain ⟨other, hother, hnames⟩ :=
        Path.exists_mem_ancestors (Path.names_of_same hsame') hdir
      have habsolute : Path.isAbsolute other = true ∧ Path.isAbsolute dir = true := by
        rw [Path.isAbsolute_of_mem_ancestors hother, Path.isAbsolute_of_mem_ancestors hdir,
          Path.isAbsolute_of_same hsame']
        exact ⟨hhere, hhere⟩
      have hentry : e.entry (Path.join other reported) = e.entry (Path.join dir reported) :=
        d.entry_join current habsolute.1 habsolute.2 hreported hnames
      refine ⟨Path.join other reported, List.mem_map_of_mem (List.mem_append_right _ ?_), ?_⟩
      · exact List.mem_flatMap.2 ⟨manifest, hmanifest, hother⟩
      · rw [hentry]
        exact hfile

end

theorem locate_of_isAbsolute (e : Environment) (roots : List String) {reported : String}
    (h : Path.isAbsolute reported = true) :
    locate e roots reported =
      if (e.entry reported).isFile then .ok reported else .error (.sourceNotFound reported) := by
  rw [locate, placesOf, if_pos h, List.find?_singleton]
  cases hfile : (e.entry reported).isFile <;> rfl

/-- A root that is added behind one with the file is not reached. -/
theorem locate_append_root {e : Environment} {roots : List String} {earlier reported : String}
    (hmem : earlier ∈ roots) (hfile : (e.entry (Path.join earlier reported)).isFile = true)
    (root : String) : locate e (roots ++ [root]) reported = locate e roots reported := by
  have hstop (more : List String) :
      ((roots ++ more).map (Path.join · reported)).find? (fun path => (e.entry path).isFile) =
        (roots.map (Path.join · reported)).find? fun path => (e.entry path).isFile := by
    rw [List.map_append]
    exact find?_append_of_covered fun _ _ _ => ⟨_, List.mem_map_of_mem hmem, hfile⟩
  rw [locate, locate, placesOf, placesOf, List.append_assoc]
  cases habsolute : Path.isAbsolute reported with
  | true => rfl
  | false => rw [if_neg (by decide), if_neg (by decide), hstop, hstop]

/-- The search finds the first regular file: in the roots, in the package's directory and then the
directories around it, in the current directory and then the directories around it, even if that
one is the package's. An absolute path is looked up as it is. -/
theorem locate_firstFile (d : Disk) (current : Option Place) (settings : List (String × String))
    (home : Option String) (roots : List String) (reported : String) :
    let e := d.environment current settings home
    let candidates := (directories e roots).map (Path.join · reported)
    (Path.isAbsolute reported = true →
      locate e roots reported =
        if (e.entry reported).isFile then .ok reported
        else .error (.sourceNotFound reported)) ∧
    (Path.isAbsolute reported = false →
      (∀ path, locate e roots reported = .ok path ↔ FirstFile e candidates path) ∧
      ∀ error, locate e roots reported = .error error ↔
        error = .sourceNotFound reported ∧
          ∀ path ∈ candidates, (e.entry path).isFile = false) ∧
    (∀ root, locate e (roots ++ [root]) reported ≠ locate e roots reported →
      ∀ earlier ∈ roots, (e.entry (Path.join earlier reported)).isFile = false) ∧
    ∀ dir, (Path.ancestors dir).head? = some dir ∧
      (Path.ancestors dir).map Path.names = (Path.names dir).inits.reverse := by
  intro e candidates
  refine ⟨locate_of_isAbsolute e roots, fun hreported => ?_, fun root hchange earlier hmem => ?_,
    fun dir => ⟨rfl, Path.names_ancestors dir⟩⟩
  · have hsearch := find?_placesOf d current settings home roots hreported
    rw [locate, hsearch]
    cases hfind : candidates.find? fun path => (e.entry path).isFile with
    | some found =>
      have hfirst := find?_eq_some_iff_firstFile.1 hfind
      obtain ⟨hfile, hmem⟩ := And.intro (List.find?_some hfind) (List.mem_of_find?_eq_some hfind)
      refine ⟨fun path => ?_, fun error => ?_⟩
      · rw [← find?_eq_some_iff_firstFile, hfind, Except.ok.injEq, Option.some.injEq]
      · refine iff_of_false (by simp) fun hnone => ?_
        rw [hnone.2 found hmem] at hfile
        exact absurd hfile (by decide)
    | none =>
      refine ⟨fun path => ?_, fun error => ?_⟩
      · rw [← find?_eq_some_iff_firstFile, hfind]
        exact iff_of_false (by simp) (by simp)
      · rw [Except.error.injEq, eq_comm]
        exact (and_iff_left fun path hmem => by
          simpa using List.find?_eq_none.1 hfind path hmem).symm
  · by_contra hfile
    exact hchange (locate_append_root hmem (by simpa using hfile) root)

/-- The package's directory holds a directory of the file's name, and the run takes place in it. -/
example :
    let d := (({} : Disk).write ["ws", "src", "lib.rs"] .empty).makeDirectory
      ["ws", "app", "src", "lib.rs"]
    locate (d.environment (some ["ws", "app"]) [(manifestVariable, "/ws/./app/")] none) ["/ws/app"]
      "src/lib.rs" = .ok "/ws/src/lib.rs" := by rfl

end Attest
