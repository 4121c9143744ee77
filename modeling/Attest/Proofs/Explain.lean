/-
  Explaining a call site whose check was given integers. Main statement: the words for the integers
  name the same as the integers themselves would in a failed check, unless one of them is larger
  than all integers of a scalar and is compared with a literal (`explain_names_same`).
-/
import Attest.Check.Value
import Attest.Explain
import Attest.Proofs.Call.Alike
import Attest.Proofs.Check.Report
import Attest.Proofs.Scalar.Word

namespace Attest

open Call
open Syntax (Tree Source)

/-- What a check expects that was given integers: one, or a sequence. -/
def Expected.ofInts (sequence : Bool) (is : List Int) : Expected :=
  match is, sequence with
  | [i], false => .scalar (Denoted.scalar i)
  | _, _ => .sequence (is.map Denoted.scalar)

/-! ## Integers as scalars -/

theorem denoted_of_lt {i : Int} (hlow : -2 ^ 127 ≤ i) (h : i < 2 ^ 127) :
    Denoted.scalar i = Scalar.int i := by
  have hrange : Number.scalarRange.has i = true := (scalarRange_has_iff i).2 ⟨hlow, h⟩
  show Scalar.ofInt i = _
  rw [Scalar.ofInt, if_pos hrange]

/-- An integer that no scalar can hold denotes absence. -/
theorem denoted_of_ge {i : Int} (h : 2 ^ 127 ≤ i) : Denoted.scalar i = Scalar.null := by
  have hrange : ¬ Number.scalarRange.has i = true := fun hhas => by
    have := ((scalarRange_has_iff i).1 hhas).2
    omega
  show Scalar.ofInt i = _
  rw [Scalar.ofInt, if_neg hrange]

/-! ## Checks of arguments -/

/-- The call has a literal for an integer that no scalar can hold, and the literal is not the
double nearest to that. -/
def Call.Candidate.ContradictsLarge (c : Candidate) (expected : Expected) (is : List Int) : Prop :=
  ∃ i ∈ is, 2 ^ 127 ≤ i ∧ ∃ t l, (Scalar.float (Number.ofInt i), t) ∈ c.compared expected ∧
    Literal.ofTree? t = some l ∧ l.denotes (.float (Number.ofInt i)) ≠ .ok true

theorem argumentAccepts_word {i : Int} (hlow : -2 ^ 127 ≤ i) (hhigh : i < 2 ^ 128) {t : Tree}
    (h : 2 ^ 127 ≤ i → ∀ l, Literal.ofTree? t = some l →
      l.denotes (.float (Number.ofInt i)) = .ok true) :
    argumentAccepts t (.ofWord (toString i)) = argumentAccepts t (Denoted.scalar i) := by
  rw [Scalar.ofWord_toString hlow hhigh]
  by_cases hsmall : i < 2 ^ 127
  · rw [if_pos hsmall, denoted_of_lt hlow hsmall]
  · rw [if_neg hsmall, denoted_of_ge (by omega)]
    cases hl : Literal.ofTree? t with
    | none => rw [argumentAccepts_of_not_read hl, argumentAccepts_of_not_read hl]
    | some l => exact argumentAccepts_of_literal hl (h (by omega) l hl) (by simp)

/-- Pairs are accepted alike if they are one by one. -/
theorem acceptsAll_congr {α : Type} {f g : α → Scalar} {ps : List (α × Tree)}
    (h : ∀ p ∈ ps, argumentAccepts p.2 (f p.1) = argumentAccepts p.2 (g p.1)) :
    acceptsAll (ps.map (Prod.map f id)) = acceptsAll (ps.map (Prod.map g id)) := by
  induction ps with
  | nil => rfl
  | cons p ps ih =>
    obtain ⟨hp, hps⟩ := List.forall_mem_cons.1 h
    rw [List.map_cons, List.map_cons, Prod.map, Prod.map, acceptsAll, acceptsAll, id, hp, ih hps]

variable {is : List Int}

theorem accepts_scalar_word {i : Int} (hlow : -2 ^ 127 ≤ i) (hhigh : i < 2 ^ 128) {c : Candidate}
    (h : ¬ c.ContradictsLarge (.scalar (.ofWord (toString i))) [i]) :
    c.accepts (.scalar (.ofWord (toString i))) = c.accepts (.scalar (Denoted.scalar i)) := by
  have hword := Scalar.ofWord_toString hlow hhigh
  by_cases hsmall : i < 2 ^ 127
  · rw [hword, if_pos hsmall, denoted_of_lt hlow hsmall]
  have hlarge : 2 ^ 127 ≤ i := by omega
  rw [if_neg hsmall] at hword
  have hnull : c.accepts (.scalar (Denoted.scalar i)) = .ok true := by
    rw [denoted_of_ge hlarge]
    rfl
  rw [hnull, Candidate.accepts_eq_acceptsAll, acceptsAll_eq_true_iff]
  intro p hp
  have hfirst : p.1 = .ofWord (toString i) := by
    rw [Candidate.compared] at hp
    split at hp
    · cases hp
    · obtain ⟨t, -, rfl⟩ := List.mem_map.1 hp
      rfl
  rw [hfirst, argumentAccepts_word hlow hhigh fun _ l hl => ?_, denoted_of_ge hlarge]
  · rfl
  · by_contra hne
    refine h ⟨i, List.mem_singleton.2 rfl, hlarge, p.2, l, ?_, hl, hne⟩
    rw [← hfirst.trans hword]
    exact hp

theorem accepts_sequence_words (hrange : ∀ i ∈ is, -2 ^ 127 ≤ i ∧ i < 2 ^ 128) {c : Candidate}
    (h : ¬ c.ContradictsLarge (.sequence ((is.map toString).map .ofWord)) is) :
    c.accepts (.sequence ((is.map toString).map .ofWord)) =
      c.accepts (.sequence (is.map Denoted.scalar)) := by
  rw [List.map_map] at h ⊢
  rw [Candidate.accepts, Candidate.accepts, List.zip_map_left, List.zip_map_left]
  refine acceptsAll_congr fun p hp => ?_
  have hmem := (List.of_mem_zip hp).1
  obtain ⟨hlow, hhigh⟩ := hrange p.1 hmem
  refine argumentAccepts_word hlow hhigh fun hlarge l hl => ?_
  by_contra hne
  refine h ⟨p.1, hmem, hlarge, p.2, l, ?_, hl, hne⟩
  have hword := Scalar.ofWord_toString hlow hhigh
  rw [if_neg (by omega)] at hword
  rw [Candidate.compared, List.zip_map_left]
  exact List.mem_map.2 ⟨p, hp, Prod.ext hword rfl⟩

/-! ## Selection -/

theorem select_congr {a b : Expected} {cs : List Candidate}
    (h : ∀ c ∈ cs, c.accepts a = c.accepts b) : select a cs = select b cs := by
  induction cs with
  | nil => rfl
  | cons c cs ih =>
    obtain ⟨hc, hcs⟩ := List.forall_mem_cons.1 h
    rw [select, select, hc, ih hcs]

theorem accepts_words (sequence : Bool) (hrange : ∀ i ∈ is, -2 ^ 127 ≤ i ∧ i < 2 ^ 128)
    {c : Candidate} (h : ¬ c.ContradictsLarge (.ofWords sequence (is.map toString)) is) :
    c.accepts (.ofWords sequence (is.map toString)) = c.accepts (.ofInts sequence is) := by
  match is, sequence, hrange, h with
  | [i], false, hrange, h =>
    obtain ⟨hlow, hhigh⟩ := hrange i List.mem_cons_self
    exact accepts_scalar_word hlow hhigh h
  | [], _, hrange, h => exact accepts_sequence_words hrange h
  | [i], true, hrange, h => exact accepts_sequence_words hrange h
  | i :: j :: rest, _, hrange, h => exact accepts_sequence_words hrange h

/-- The words never select a call that contradicts one of the integers in this way. -/
theorem select_ne_of_contradictsLarge {expected : Expected} {cs : List Candidate} {c : Candidate}
    (h : c.ContradictsLarge expected is) : select expected cs ≠ .ok (some c) := by
  intro hselect
  obtain ⟨-, -, -, -, haccepts⟩ := select_eq_some_iff.1 hselect
  obtain ⟨i, -, -, t, l, hpair, hl, hne⟩ := h
  rw [Candidate.accepts_eq_acceptsAll, acceptsAll_eq_true_iff] at haccepts
  have hargument := haccepts _ hpair
  rw [argumentAccepts, Call.compare, hl] at hargument
  · cases hdenotes : l.denotes (.float (Number.ofInt i)) with
    | error o => simp [hdenotes, Except.map] at hargument
    | ok b =>
      cases b with
      | true => exact hne hdenotes
      | false => simp [hdenotes, Except.map] at hargument
  · simp

/-! ## Explanations -/

/-- The words of the integers name what the integers name, or a literal contradicts an integer
that no scalar can hold. The call with that literal is not the one that the words name. -/
theorem explain_names_same (e : Environment) (c : Config) (file method : String) (line : Nat)
    (sequence : Bool) (test : Option String) (hrange : ∀ i ∈ is, -2 ^ 127 ≤ i ∧ i < 2 ^ 128) :
    (explain e c ⟨file, line, method, is.map toString, sequence, test⟩).map (·.context) =
        Resolver.ofSources e c.resolver (.ofInts sequence is)
          ⟨file, line, test.getD unknownTest, method⟩ ∨
      ∃ source, Resolver.source? e c.resolver.sourceRoots
          ⟨file, line, test.getD unknownTest, method⟩ = some source ∧
        ∃ d ∈ candidates source method line,
          d.ContradictsLarge (.ofWords sequence (is.map toString)) is ∧
          select (.ofWords sequence (is.map toString)) (candidates source method line) ≠
            .ok (some d) := by
  by_cases hex : ∃ source, Resolver.source? e c.resolver.sourceRoots
      ⟨file, line, test.getD unknownTest, method⟩ = some source ∧
        ∃ d ∈ candidates source method line,
          d.ContradictsLarge (.ofWords sequence (is.map toString)) is
  · obtain ⟨source, hsource, d, hd, hlarge⟩ := hex
    exact .inr ⟨source, hsource, d, hd, hlarge, select_ne_of_contradictsLarge hlarge⟩
  refine .inl ?_
  have hcontext {x : Except Overflow (Option String)} : ((x.map fun name =>
      (⟨file, line, method, name⟩ : ExplainReport)).map (·.context)) = x := by
    cases x <;> rfl
  rw [explain, hcontext, Resolver.ofSources, Resolver.ofSources]
  cases hsource : Resolver.source? e c.resolver.sourceRoots
      ⟨file, line, test.getD unknownTest, method⟩ with
  | none => rfl
  | some source =>
    have hselect : select (.ofWords sequence (is.map toString)) (candidates source method line) =
        select (.ofInts sequence is) (candidates source method line) :=
      select_congr fun d hd => accepts_words sequence hrange fun hlarge =>
        hex ⟨source, hsource, d, hd, hlarge⟩
    dsimp only
    rw [resolve, resolve, hselect]

/-- The only integer of a check of `order_total`. -/
def totalInts : List Int := [42]

theorem explain_names_same_total :
    (∀ i ∈ totalInts, -2 ^ 127 ≤ i ∧ i < 2 ^ 128) ∧
    (explain totalFile {} ⟨"/t.rs", 2, "be", totalInts.map toString, false, none⟩).map
        (·.context) = Resolver.ofSources totalFile ({} : Config).resolver (.ofInts false totalInts)
          ⟨"/t.rs", 2, Option.none.getD unknownTest, "be"⟩ := by
  have hrange : ∀ i ∈ totalInts, -2 ^ 127 ≤ i ∧ i < 2 ^ 128 := by decide
  refine ⟨hrange, (explain_names_same totalFile {} "/t.rs" "be" 2 false none
    hrange).resolve_right ?_⟩
  rintro ⟨-, -, d, -, ⟨i, hi, hlarge, -⟩, -⟩
  rw [List.mem_singleton.1 hi] at hlarge
  omega

/-- A check against the largest integer of 128 bits without sign. -/
def largestSource : String := "fn t() \x7b x.should().be(340282366920938463463374607431768211455); \x7d"

def largestFile : Environment where
  entry path := if path = "/t.rs" then .file largestSource.toUTF8 else .none .missing
  currentDirectory := none
  settings := []
  home := none

theorem reads_largestFile : largestFile.Reads [] "/t.rs" largestSource := by
  have hplaces : placesOf largestFile [] "/t.rs" = ["/t.rs"] := by decide
  refine ⟨"/t.rs", ?_, ?_⟩
  · rw [locate, hplaces]
    simp [largestFile, Entry.isFile]
  · rw [Environment.read]
    simp only [largestFile, if_true, Entry.text_file]

/-- The failed check is named, but its explanation names nothing. -/
theorem explain_may_miss_largest :
    Resolver.ofSources largestFile {} (.scalar (Denoted.scalar (2 ^ 128 - 1 : Int)))
        ⟨"/t.rs", 1, unknownTest, "be"⟩ = .ok (some "x") ∧
      explain largestFile {} ⟨"/t.rs", 1, "be", [toString (2 ^ 128 - 1 : Int)], false, none⟩ =
        .ok ⟨"/t.rs", 1, "be", none⟩ := by
  have hsource : Resolver.source? largestFile [] ⟨"/t.rs", 1, unknownTest, "be"⟩ =
      some (.parse largestSource) := Resolver.source?_of_reads reads_largestFile
  constructor
  · rw [Resolver.ofSources, if_pos rfl, hsource]
    dsimp only
    decide +kernel
  · rw [explain, Resolver.ofSources, if_pos rfl]
    dsimp only [Option.getD_none]
    rw [hsource]
    dsimp only
    decide +kernel

end Attest
