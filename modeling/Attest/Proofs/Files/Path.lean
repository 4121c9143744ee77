/-
  Directories around a path. The names of a path are what its text gives the way for; `Path.same`
  compares no more than those. Main statement (`names_ancestors`): the names of a path and of the
  directories around it are its names and all beginnings of them, the longest first. So two
  spellings of a path have the same directories around them, each in a spelling of its own.
-/
import Attest.Files.Path
import Attest.Proofs.Text.Split
import Mathlib.Data.List.Infix

namespace Attest.Path

open Text (split)

/-! ## Parts and names -/

/-- The names among the parts of a text, where a dot counts in front if the path is relative. -/
def namesOf (relative : Bool) : List (List Char) → List (List Char)
  | [] => []
  | part :: parts => (if isName relative part then [part] else []) ++ parts.filter (isName false)

theorem names_eq (path : String) :
    names path = namesOf (!isAbsolute path) (split '/' path.toList) := by
  rw [names]
  cases split '/' path.toList <;> rfl

theorem namesOf_false (parts : List (List Char)) :
    namesOf false parts = parts.filter (isName false) := by
  cases parts with
  | nil => rfl
  | cons part parts =>
    rw [namesOf, List.filter_cons]
    split <;> rfl

/-- One more part is a name or not. -/
theorem namesOf_concat (relative : Bool) {parts : List (List Char)} (hne : parts ≠ [])
    (part : List Char) : namesOf relative (parts ++ [part]) =
      namesOf relative parts ++ if isName false part then [part] else [] := by
  obtain ⟨first, rest, rfl⟩ := List.exists_cons_of_ne_nil hne
  rw [List.cons_append, namesOf, namesOf, List.filter_append, List.append_assoc, List.filter_cons,
    List.filter_nil]

/-! ## Beginnings -/

/-- The text of some parts that are all followed by another one. -/
def inFront (parts : List (List Char)) : List Char := parts.flatMap (· ++ ['/'])

theorem split_inFront {parts : List (List Char)} (h : ∀ part ∈ parts, '/' ∉ part)
    {last : List Char} (hlast : '/' ∉ last) :
    split '/' (inFront parts ++ last) = parts ++ [last] := by
  induction parts with
  | nil => exact Text.split_of_not_mem hlast
  | cons part parts ih =>
    obtain ⟨hpart, hparts⟩ := List.forall_mem_cons.1 h
    rw [inFront, List.flatMap_cons, List.append_assoc, List.append_assoc, List.singleton_append,
      Text.split_append, Text.split_of_not_mem hpart]
    exact congrArg (part :: ·) (ih hparts)

/-- The beginnings of a path end one name after the other. The parts in front have been passed
already, and `first` tells whether there are none and the path is relative. -/
theorem names_beginnings (relative : Bool) {passed parts : List (List Char)}
    (hpassed : ∀ part ∈ passed, '/' ∉ part) (hparts : ∀ part ∈ parts, '/' ∉ part) {first : Bool}
    (hfirst : first = (passed.isEmpty && relative)) :
    (beginnings (inFront passed) first parts).map (fun t => namesOf relative (split '/' t)) =
      (namesOf first parts).inits.tail.map (namesOf relative passed ++ ·) := by
  induction parts generalizing passed first with
  | nil => rfl
  | cons part parts ih =>
    obtain ⟨hpart, hrest⟩ := List.forall_mem_cons.1 hparts
    have hmore : ∀ p ∈ passed ++ [part], '/' ∉ p := by
      simpa [or_imp, forall_and] using ⟨hpassed, hpart⟩
    have hfront : inFront passed ++ part ++ ['/'] = inFront (passed ++ [part]) := by
      simp [inFront]
    have hlater : false = ((passed ++ [part]).isEmpty && relative) := by simp
    have hnext := ih hmore hrest hlater
    have hhere : namesOf relative (passed ++ [part]) =
        namesOf relative passed ++ if isName first part then [part] else [] := by
      cases passed with
      | nil =>
        obtain rfl : first = relative := by simpa using hfirst
        simp [namesOf]
      | cons p ps =>
        obtain rfl : first = false := by simpa using hfirst
        exact namesOf_concat relative (List.cons_ne_nil p ps) part
    rw [namesOf_false] at hnext
    rw [beginnings, hfront, namesOf]
    by_cases hname : isName first part = true
    · rw [if_pos hname] at hhere
      obtain ⟨inits, hinits⟩ : ∃ inits, (parts.filter (isName false)).inits = [] :: inits := by
        cases parts.filter (isName false) with
        | nil => exact ⟨[], rfl⟩
        | cons name names => exact ⟨_, List.inits_cons name names⟩
      rw [if_pos hname, if_pos hname, List.map_cons, hnext, split_inFront hpassed hpart, hhere,
        List.singleton_append, List.inits_cons, List.tail_cons, hinits]
      simp
    · rw [if_neg hname] at hhere
      rw [if_neg hname, if_neg hname, hnext, hhere, List.nil_append, List.append_nil]

theorem prefix_of_mem_beginnings {before t : List Char} {first : Bool} {parts : List (List Char)}
    (h : t ∈ beginnings before first parts) : t ≠ [] ∧ t <+: before ++ Text.join '/' parts := by
  induction parts generalizing before first with
  | nil => exact absurd h List.not_mem_nil
  | cons part parts ih =>
    have hhere : before ++ part <+: before ++ Text.join '/' (part :: parts) := by
      cases parts with
      | nil => exact List.prefix_rfl
      | cons next rest =>
        rw [Text.join, ← List.append_assoc]
        exact List.prefix_append _ _
    have hlater (ht : t ∈ beginnings (before ++ part ++ ['/']) false parts) :
        t ≠ [] ∧ t <+: before ++ Text.join '/' (part :: parts) := by
      obtain ⟨hne, hprefix⟩ := ih ht
      cases parts with
      | nil => exact absurd ht List.not_mem_nil
      | cons next rest => exact ⟨hne, by simpa [Text.join] using hprefix⟩
    rw [beginnings] at h
    split at h
    · next hname =>
      rcases List.mem_cons.1 h with rfl | h
      · refine ⟨fun hnil => ?_, hhere⟩
        simp [(List.append_eq_nil_iff.1 hnil).2, isName] at hname
      · exact hlater h
    · exact hlater h

/-! ## Directories around a path -/

/-- The beginnings of a path as texts of their own. -/
def starts (path : String) : List String :=
  (beginnings [] (!isAbsolute path) (split '/' path.toList)).map String.ofList

theorem isAbsolute_of_mem_starts {path start : String} (h : start ∈ starts path) :
    isAbsolute start = isAbsolute path := by
  obtain ⟨t, ht, rfl⟩ := List.mem_map.1 h
  obtain ⟨hne, hprefix⟩ := prefix_of_mem_beginnings ht
  rw [List.nil_append, Text.join_split] at hprefix
  obtain ⟨rest, hrest⟩ := hprefix
  obtain ⟨c, t, rfl⟩ := List.exists_cons_of_ne_nil hne
  rw [isAbsolute, isAbsolute, String.toList_ofList, ← hrest]
  rfl

theorem isAbsolute_of_mem_ancestors {path dir : String} (h : dir ∈ ancestors path) :
    isAbsolute dir = isAbsolute path := by
  rcases List.mem_cons.1 h with rfl | h
  · rfl
  · rcases List.mem_cons.1 (List.mem_reverse.1 (List.mem_of_mem_drop h)) with rfl | h
    · cases habsolute : isAbsolute path <;> simp [isAbsolute]
    · exact isAbsolute_of_mem_starts h

theorem names_starts (path : String) : (starts path).map names = (names path).inits.tail := by
  have hparts : ∀ part ∈ split '/' path.toList, '/' ∉ part :=
    fun part => Text.not_mem_of_mem_split
  have hnone : ∀ part ∈ ([] : List (List Char)), '/' ∉ part := fun _ h => nomatch h
  have hfirst : (!isAbsolute path) = (([] : List (List Char)).isEmpty && !isAbsolute path) := rfl
  have hnames := names_beginnings (!isAbsolute path) hnone hparts hfirst
  rw [← names_eq] at hnames
  rw [← List.map_id (List.tail _)]
  refine Eq.trans ?_ hnames
  rw [starts, List.map_map]
  refine List.map_congr_left fun t ht => ?_
  have hstart : String.ofList t ∈ starts path := List.mem_map_of_mem ht
  have habsolute := isAbsolute_of_mem_starts hstart
  rw [Function.comp_apply, names_eq, habsolute, String.toList_ofList]

/-- The directories around a path have ever fewer of its names, from the last one on. -/
theorem names_ancestors (path : String) :
    (ancestors path).map names = (names path).inits.reverse := by
  have hbase : names (if isAbsolute path then "/" else "") = [] := by
    split <;> rfl
  have hinits : [] :: (names path).inits.tail = (names path).inits := by
    cases names path with
    | nil => rfl
    | cons name rest => rw [List.inits_cons, List.tail_cons]
  obtain ⟨shorter, hshorter⟩ : ∃ shorter, (names path).inits.reverse = names path :: shorter := by
    refine ⟨((names path).reverse.tails.map List.reverse).tail, ?_⟩
    rw [List.inits_eq_tails, List.reverse_reverse]
    cases hrev : (names path).reverse with
    | nil => simp [List.reverse_eq_nil_iff.1 hrev]
    | cons name rest => simp [List.reverse_eq_cons_iff.1 hrev]
  change names path ::
    (((if isAbsolute path then "/" else "") :: starts path).reverse.drop 1).map names = _
  rw [List.map_drop, List.map_reverse, List.map_cons, hbase, names_starts, hinits, hshorter]
  rfl

/-- A spelling of a directory has its own spelling of each directory around it. -/
theorem exists_mem_ancestors {a b dir : String} (h : names a = names b)
    (hdir : dir ∈ ancestors b) : ∃ other ∈ ancestors a, names other = names dir := by
  have hmem : names dir ∈ (ancestors a).map names := by
    rw [names_ancestors, h, ← names_ancestors]
    exact List.mem_map_of_mem hdir
  obtain ⟨other, hother, hnames⟩ := List.mem_map.1 hmem
  exact ⟨other, hother, hnames⟩

/-! ## Paths from a directory -/

theorem isAbsolute_of_same {a b : String} (h : same a b = true) : isAbsolute a = isAbsolute b := by
  simp only [same, Bool.and_eq_true, beq_iff_eq] at h
  exact h.1

theorem names_of_same {a b : String} (h : same a b = true) : names a = names b := by
  simp only [same, Bool.and_eq_true, beq_iff_eq] at h
  exact h.2

theorem names_of_isAbsolute {path : String} (h : isAbsolute path = true) :
    names path = (split '/' path.toList).filter (isName false) := by
  rw [names_eq, h, Bool.not_true, namesOf_false]

theorem isEmpty_of_isAbsolute {path : String} (h : isAbsolute path = true) :
    path.isEmpty = false := by
  refine Bool.eq_false_iff.2 fun hempty => ?_
  rw [String.isEmpty_iff.1 hempty] at h
  exact absurd h (by decide)

/-- In a path from a directory, its names come first and the path itself behind a slash. -/
theorem exists_toList_join {base path : String} (hbase : isAbsolute base = true)
    (hpath : isAbsolute path = false) :
    ∃ front, (join base path).toList = front ++ '/' :: path.toList ∧
      (split '/' front).filter (isName false) = names base := by
  rw [join, hpath, isEmpty_of_isAbsolute hbase, Bool.false_or, names_of_isAbsolute hbase]
  by_cases hslash : base.toList.getLast? = some '/'
  · obtain ⟨front, hfront⟩ : ∃ front, base.toList = front ++ ['/'] :=
      ⟨_, (List.dropLast_append_getLast? _ hslash).symm⟩
    refine ⟨front, by simp [hfront], ?_⟩
    rw [hfront, Text.split_append]
    simp [Text.split, isName]
  · refine ⟨base.toList, ?_, rfl⟩
    simp [hslash]

theorem isAbsolute_append {a : String} (h : isAbsolute a = true) (b : String) :
    isAbsolute (a ++ b) = true := by
  rw [isAbsolute, beq_iff_eq] at h ⊢
  rw [String.toList_append, List.head?_append, h]
  rfl

theorem isAbsolute_join {base path : String} (hbase : isAbsolute base = true) :
    isAbsolute (join base path) = true := by
  rw [join]
  split
  · assumption
  · split
    · exact isAbsolute_append hbase path
    · exact isAbsolute_append (isAbsolute_append hbase "/") path

end Attest.Path
