/-
  Sequences. The values that a check expected are paired with the arguments of the call, or with
  the elements of its one array argument, as far as both go. Main statements: between arrays of
  integers the first is selected that agrees as far as both go (`select_arrays_exact`), and a call
  is accepted for its own values unless its array repeats an element or holds attributes; then it
  depends on what is paired (`own_sequence_accepted`).
-/
import Attest.Check.Basic
import Attest.Proofs.Call.Agreement

namespace Attest.Call

open Syntax
open Number (Digits DigitOf)

/-! ## Arrays -/

/-- The argument is the array or a reference to it. -/
def IsSlice (a t : Tree) : Prop :=
  a.kind = .array ∧ (t = a ∨ t.kind = .reference ∧ t.child? .value = some a)

def isSemicolon (t : Tree) : Bool := t.kind == .mark && t.text == ";"

/-- The elements of an array that lists them, without comments and attributes. -/
def Lists (a : Tree) (es : List Tree) : Prop :=
  (∀ c ∈ a.children, isSemicolon c = false) ∧ a.children.filter Candidate.isArgument = es

/-- The element that an array repeats, and how often. -/
def Repeats (a element count : Tree) : Prop :=
  ∃ before semicolon after, a.children = before ++ semicolon :: after ∧
    isSemicolon semicolon = true ∧ before.filter Candidate.isArgument = [element] ∧
    after.filter Candidate.isArgument = [count]

/-- No attribute stands in front of an element. -/
def WithoutAttributes (a : Tree) : Prop := ∀ c ∈ a.children, c.kind ≠ .attr

instance (a : Tree) : Decidable (WithoutAttributes a) :=
  inferInstanceAs (Decidable (∀ c ∈ a.children, c.kind ≠ .attr))

variable {c : Candidate} {a t : Tree}

theorem sequenceArguments_of_slice (harguments : c.arguments = [t]) (h : IsSlice a t) :
    sequenceArguments c.arguments = elements a := by
  obtain ⟨ha, rfl | ⟨hkind, hvalue⟩⟩ := h
  · rw [harguments, sequenceArguments, dereferenced, ha, if_neg (by decide)]
    dsimp only
    rw [if_pos ha]
  · rw [harguments, sequenceArguments, dereferenced, if_pos hkind, hvalue]
    dsimp only
    rw [if_pos ha]

theorem accepts_slice (harguments : c.arguments = [t]) (h : IsSlice a t) (ws : List Scalar) :
    c.accepts (.sequence ws) = acceptsAll (ws.zip (elements a)) := by
  rw [Candidate.accepts, sequenceArguments_of_slice harguments h]

/-- Without attributes the elements are what is written. -/
theorem WithoutAttributes.elements_eq (h : WithoutAttributes a) :
    elements a = a.children.filter Candidate.isArgument := by
  refine List.filter_congr fun c hc => ?_
  have hattr : (c.kind != .attr) = true := bne_iff_ne.mpr (h c hc)
  rw [Candidate.isArgument, hattr, Bool.and_true]

theorem WithoutAttributes.elements_of_repeats (h : WithoutAttributes a) {element count : Tree}
    (hrepeats : Repeats a element count) : elements a = [element, count] := by
  obtain ⟨before, semicolon, after, hchildren, hsemicolon, hbefore, hafter⟩ := hrepeats
  have hmark : Candidate.isArgument semicolon = false := by
    obtain ⟨hkind, -⟩ : semicolon.kind = .mark ∧ semicolon.text = ";" := by
      simpa [isSemicolon] using hsemicolon
    simp [Candidate.isArgument, Tree.isNamed, hkind, Kind.isNamed]
  rw [h.elements_eq, hchildren, List.filter_append, hbefore,
    List.filter_cons_of_neg (by simp [hmark]), hafter]
  rfl

theorem exists_of_forall₂ {α : Type} {R : Tree → α → Prop} {es : List Tree} {vs : List α}
    (h : List.Forall₂ R es vs) : ∀ e ∈ es, ∃ v, R e v := by
  induction h with
  | nil => simp
  | cons he _ ih => exact List.forall_mem_cons.mpr ⟨⟨_, he⟩, ih⟩

/-- Attributes are not read as literals. -/
theorem mayHave_of_attr (h : t.kind = .attr) (v : Scalar) : MayHave t v := by
  left
  cases t with
  | leaf r k token =>
    obtain rfl : k = .attr := h
    rfl
  | node r k s cs =>
    obtain rfl : k = .attr := h
    rfl

/-! ## Arrays of integers -/

/-- The one argument is an array that lists literals of the integers. -/
def Candidate.HoldsIntegers (c : Candidate) (is : List Int) : Prop :=
  ∃ t a es, c.arguments = [t] ∧ IsSlice a t ∧ WithoutAttributes a ∧ Lists a es ∧
    List.Forall₂ (fun e i => Denotes e (.int i)) es is

/-- One of the lists begins with the other. -/
def AgreeAsFar (is vs : List Int) : Prop := is <+: vs ∨ vs <+: is

instance (is vs : List Int) : Decidable (AgreeAsFar is vs) := inferInstanceAs (Decidable (_ ∨ _))

theorem agreeAsFar_cons (i v : Int) (is vs : List Int) :
    AgreeAsFar (i :: is) (v :: vs) ↔ i = v ∧ AgreeAsFar is vs := by
  unfold AgreeAsFar
  rw [List.cons_prefix_cons, List.cons_prefix_cons, eq_comm (a := v), ← and_or_left]

theorem agrees_integer_iff {e : Tree} {i v : Int} (h : Denotes e (.int i)) :
    Agrees e (.int v) ↔ i = v := by
  rw [(Spells.literal h).agrees_iff (by simp), PassesFor]
  simp

/-- Integers are paired as far as both lists go. -/
theorem agrees_zip_iff {es : List Tree} {is : List Int}
    (h : List.Forall₂ (fun e i => Denotes e (.int i)) es is) (vs : List Int) :
    (∀ p ∈ (vs.map Scalar.int).zip es, Agrees p.2 p.1) ↔ AgreeAsFar is vs := by
  induction h generalizing vs with
  | nil =>
    rw [List.zip_nil_right]
    exact iff_of_true (by simp) (Or.inl List.nil_prefix)
  | @cons e i es is he _ ih =>
    cases vs with
    | nil => exact iff_of_true (by simp) (Or.inr List.nil_prefix)
    | cons v vs =>
      rw [List.map_cons, List.zip_cons_cons, List.forall_mem_cons, ih, agreeAsFar_cons,
        agrees_integer_iff he]

/-- An array of integers is accepted exactly if it agrees as far as it and the values go. -/
theorem accepts_integers_decides {is : List Int} (h : c.HoldsIntegers is) (vs : List Int) :
    Decides (c.accepts (.sequence (vs.map .int))) (AgreeAsFar is vs) := by
  obtain ⟨t, a, es, harguments, hslice, hplain, ⟨-, helements⟩, hes⟩ := h
  have hread : ∀ e ∈ es, ∃ v, MayHave e v := by
    intro e he
    obtain ⟨i, hi⟩ := exists_of_forall₂ hes e he
    exact ⟨.int i, Or.inr (.literal hi)⟩
  rw [accepts_slice harguments hslice, hplain.elements_eq, helements]
  exact (acceptsAll_decides_agreement hread _).congr (agrees_zip_iff hes vs)

/-- Between arrays of integers the first is selected that agrees as far as it and the values go,
and none only if each of them differs somewhere. -/
theorem select_arrays_exact {cs : List Candidate} {held : Candidate → List Int}
    (hcs : ∀ c ∈ cs, c.HoldsIntegers (held c)) (vs : List Int) :
    (∀ c, select (.sequence (vs.map .int)) cs = .ok (some c) ↔
      ∃ pre post, cs = pre ++ c :: post ∧ (∀ d ∈ pre, ¬ AgreeAsFar (held d) vs) ∧
        AgreeAsFar (held c) vs) ∧
    (select (.sequence (vs.map .int)) cs = .ok none ↔ ∀ c ∈ cs, ¬ AgreeAsFar (held c) vs) :=
  select_of_decides fun c hc => accepts_integers_decides (hcs c hc) vs

/-- A literal of one decimal digit. -/
def digit (c : Char) : Tree := .leaf .plain .integer ⟨.integer, String.ofList [c], 0, 0⟩

def punctuation (text : String) : Tree := .leaf .plain .mark ⟨.mark, text, 0, 0⟩

def arrayOf (inside : List Tree) : Tree :=
  .node .plain .array ⟨0, 0⟩ (punctuation "[" :: (inside ++ [punctuation "]"]))

/-- The array `[1]`. -/
def arrayOne : Tree := arrayOf [digit '1']

/-- The array `[1, 2]`. -/
def arrayOneTwo : Tree := arrayOf [digit '1', punctuation ",", digit '2']

theorem denotes_digit {c : Char} {d : Nat} (hc : DigitOf c d) (hd : d < 10) :
    Denotes (digit c) (.int d) := by
  have hdigits : Digits 10 [c] d := by
    have := Digits.digit hc hd .nil
    simpa [Number.bare] using this
  have hne : Number.bare [c] ≠ [] := by
    rw [Number.bare_digit hc]
    exact List.cons_ne_nil _ _
  have hfirst : ([] : List Char) = [] → [c].head? ≠ some '_' := by
    intro _ heq
    have hunderscore : (c != '_') = true := hc.of_all (p := (· != '_')) (by decide)
    exact bne_iff_ne.mp hunderscore (Option.some.inj heq)
  have hmark : ([], 10) ∈ radixMarks := by decide
  have htext : IntegerText ([] ++ ([c] ++ [])) d := .intro hmark hdigits hne hfirst (by decide)
  refine ⟨digit c, .token (.integer ?_ (by omega)), .refl⟩
  rwa [String.toList_ofList]

theorem denotes_one : Denotes (digit '1') (.int 1) :=
  denotes_digit (d := 1) (Or.inl rfl) (by decide)

theorem denotes_two : Denotes (digit '2') (.int 2) :=
  denotes_digit (d := 2) (Or.inl rfl) (by decide)

theorem holds_one : (callWith arrayOne).HoldsIntegers [1] :=
  ⟨arrayOne, arrayOne, [digit '1'], rfl, ⟨rfl, Or.inl rfl⟩, by decide, ⟨by decide, rfl⟩,
    .cons denotes_one .nil⟩

theorem holds_oneTwo : (callWith arrayOneTwo).HoldsIntegers [1, 2] :=
  ⟨arrayOneTwo, arrayOneTwo, [digit '1', digit '2'], rfl, ⟨rfl, Or.inl rfl⟩, by decide,
    ⟨by decide, rfl⟩, .cons denotes_one (.cons denotes_two .nil)⟩

/-- The integers of a call with one of the two arrays. -/
def heldIntegers (c : Candidate) : List Int :=
  if (sequenceArguments c.arguments).length = 1 then [1] else [1, 2]

theorem select_arrays_exact_prefix :
    (∀ c ∈ [callWith arrayOneTwo, callWith arrayOne], c.HoldsIntegers (heldIntegers c)) ∧
    select (.sequence ([1, 3].map .int)) [callWith arrayOneTwo, callWith arrayOne] =
      .ok (some (callWith arrayOne)) := by
  have hheld : ∀ c ∈ [callWith arrayOneTwo, callWith arrayOne],
      c.HoldsIntegers (heldIntegers c) :=
    List.forall_mem_cons.mpr ⟨holds_oneTwo, List.forall_mem_cons.mpr ⟨holds_one, by simp⟩⟩
  refine ⟨hheld, ((select_arrays_exact hheld [1, 3]).1 _).mpr
    ⟨[callWith arrayOneTwo], [], rfl, ?_, by decide⟩⟩
  intro d hd
  obtain rfl := List.mem_singleton.mp hd
  decide

/-- Of `[1]` and `[1, 2]` the first is selected for the values 1 and 2, though it lists fewer. -/
theorem shorter_array_selected :
    (callWith arrayOne).HoldsIntegers [1] ∧ (callWith arrayOneTwo).HoldsIntegers [1, 2] ∧
    select (.sequence ([1, 2].map .int)) [callWith arrayOne, callWith arrayOneTwo] =
      .ok (some (callWith arrayOne)) ∧
    callWith arrayOne ≠ callWith arrayOneTwo := by
  refine ⟨holds_one, holds_oneTwo, rfl, fun heq => ?_⟩
  have hlength := congrArg (fun c : Candidate => (sequenceArguments c.arguments).length) heq
  contradiction

/-! ## The call of the check itself -/

/-- The second of equal values is paired with the count, and none is paired with more. -/
theorem agrees_replicate_iff {element count : Tree} {w : Scalar} (h : Agrees element w) (k : Nat) :
    (∀ p ∈ (List.replicate k w).zip [element, count], Agrees p.2 p.1) ↔
      k ≤ 1 ∨ Agrees count w := by
  match k with
  | 0 => exact iff_of_true (by simp) (Or.inl (by omega))
  | 1 => exact iff_of_true (by simp [h]) (Or.inl (by omega))
  | k + 2 =>
    have hmore : ¬ k + 2 ≤ 1 := by omega
    simp [List.replicate_succ, h, hmore]

/-- What stands in an array is read, if its elements are. -/
theorem mayHave_of_elements
    (h : ∀ e ∈ a.children.filter Candidate.isArgument, ∃ v, MayHave e v) :
    ∀ e ∈ elements a, ∃ v, MayHave e v := by
  intro e he
  obtain ⟨hmem, hnamed⟩ := List.mem_filter.mp he
  by_cases hattr : e.kind = .attr
  · exact ⟨.null, mayHave_of_attr hattr _⟩
  · refine h e (List.mem_filter.mpr ⟨hmem, ?_⟩)
    rw [Candidate.isArgument, hnamed, Bool.true_and]
    exact bne_iff_ne.mpr hattr

section

variable {α : Type} [Shown α] [Denoted α] [BEq α] [Ordered α]

/-- A call is accepted for the two bounds that it was given, and for the elements of an array that
lists them without attributes. Of an array that repeats its element the second value is paired with
the count; in general values are paired by their position with what stands in the array, attributes
included. -/
theorem own_sequence_accepted :
    (∀ lo hi (low high : α), c.arguments = [lo, hi] → MayHave lo (Denoted.scalar low) →
      MayHave hi (Denoted.scalar high) →
      c.accepts (Check.beBetween low high).expected = .ok true) ∧
    (∀ t a es (vs : List α), c.arguments = [t] → IsSlice a t → WithoutAttributes a → Lists a es →
      List.Forall₂ (fun e v => MayHave e (Denoted.scalar v)) es vs →
      c.accepts (Check.beOneOf vs).expected = .ok true) ∧
    (∀ t a element count (k : Nat) (v : α), c.arguments = [t] → IsSlice a t →
      WithoutAttributes a → Repeats a element count → MayHave element (Denoted.scalar v) →
      MayHave count (.int k) →
      Decides (c.accepts (Check.beOneOf (List.replicate k v)).expected)
        (k ≤ 1 ∨ Agrees count (Denoted.scalar v))) ∧
    (∀ t a (vs : List α), c.arguments = [t] → IsSlice a t →
      (∀ e ∈ a.children.filter Candidate.isArgument, ∃ v, MayHave e v) →
      Decides (c.accepts (Check.beOneOf vs).expected)
        (∀ p ∈ (vs.map Denoted.scalar).zip (elements a), Agrees p.2 p.1)) := by
  refine ⟨?bounds, ?list, ?repeated, ?general⟩
  case bounds =>
    intro lo hi low high harguments hlo hhi
    show c.accepts (.sequence [Denoted.scalar low, Denoted.scalar high]) = .ok true
    rw [Candidate.accepts, harguments]
    exact acceptsAll_own (.cons hlo (.cons hhi .nil))
  case list =>
    intro t a es vs harguments hslice hplain hlists hes
    show c.accepts (.sequence (vs.map Denoted.scalar)) = .ok true
    rw [accepts_slice harguments hslice, hplain.elements_eq, hlists.2]
    exact acceptsAll_own (List.forall₂_map_right_iff.mpr hes)
  case repeated =>
    intro t a element count k v harguments hslice hplain hrepeats helement hcount
    have hread : ∀ e ∈ [element, count], ∃ v, MayHave e v := by
      simpa using ⟨⟨_, helement⟩, ⟨_, hcount⟩⟩
    show Decides (c.accepts (.sequence ((List.replicate k v).map Denoted.scalar))) _
    rw [accepts_slice harguments hslice, hplain.elements_of_repeats hrepeats, List.map_replicate]
    exact (acceptsAll_decides_agreement hread _).congr (agrees_replicate_iff helement.agrees k)
  case general =>
    intro t a vs harguments hslice hread
    show Decides (c.accepts (.sequence (vs.map Denoted.scalar))) _
    rw [accepts_slice harguments hslice]
    exact acceptsAll_decides_agreement (mayHave_of_elements hread) _

end

/-- A call with two arguments. -/
def callWithBoth (first second : Tree) : Candidate :=
  ⟨.node .plain .call ⟨0, 0⟩ [.node .arguments .arguments ⟨0, 0⟩ [first, second]],
    .node .function .member ⟨0, 0⟩ []⟩

/-- The array `[7; 3]`. -/
def sevens : Tree := arrayOf [seven, punctuation ";", digit '3']

/-- The attribute `#[allow(unused)]`, without what is inside it. -/
def allowUnused : Tree := .node .plain .attr ⟨0, 0⟩ [punctuation "#"]

/-- The array `[#[allow(unused)] 1, 2]`. -/
def attributed : Tree := arrayOf [allowUnused, digit '1', punctuation ",", digit '2']

theorem denotes_three : Denotes (digit '3') (.int 3) :=
  denotes_digit (d := 3) (Or.inl rfl) (by decide)

theorem repeats_sevens : Repeats sevens seven (digit '3') :=
  ⟨[punctuation "[", seven], punctuation ";", [digit '3', punctuation "]"], rfl, rfl, rfl, rfl⟩

theorem mayHave_attributed :
    ∀ e ∈ attributed.children.filter Candidate.isArgument, ∃ v, MayHave e v := by
  intro e he
  have hmem : e ∈ [digit '1', digit '2'] := he
  simp only [List.mem_cons, List.not_mem_nil, or_false] at hmem
  rcases hmem with rfl | rfl
  · exact ⟨_, Or.inr (.literal denotes_one)⟩
  · exact ⟨_, Or.inr (.literal denotes_two)⟩

/-- The call of `[7; 3]` is rejected for its values 7, 7 and 7, and that of
`[#[allow(unused)] 1, 2]` for its values 1 and 2. -/
theorem own_array_rejected :
    (callWith sevens).arguments = [sevens] ∧ Repeats sevens seven (digit '3') ∧
    Denotes seven (.int 7) ∧ Denotes (digit '3') (.int 3) ∧
    (callWith sevens).accepts (Check.beOneOf (List.replicate 3 (7 : Int))).expected = .ok false ∧
    (callWith attributed).arguments = [attributed] ∧ Lists attributed [digit '1', digit '2'] ∧
    Denotes (digit '1') (.int 1) ∧ Denotes (digit '2') (.int 2) ∧
    (callWith attributed).accepts (Check.beOneOf [(1 : Int), 2]).expected = .ok false :=
  ⟨rfl, repeats_sevens, denotes_seven, denotes_three, rfl, rfl, ⟨by decide, rfl⟩, denotes_one,
    denotes_two, rfl⟩

/-- The expression `x`. -/
def variableX : Tree := .leaf .plain .name ⟨.word, "x", 0, 0⟩

theorem not_isLiteral_variableX : ¬ IsLiteral variableX := by
  intro h
  cases h with
  | number h =>
    cases h with
    | token h => rcases h with h | h <;> contradiction
  | token h => rcases h with h | h | h | h <;> contradiction

theorem own_sequence_accepted_repeated :
    (callWithBoth (digit '1') variableX).accepts (Check.beBetween (1 : Int) 5).expected =
      .ok true ∧
    (callWith arrayOneTwo).accepts (Check.beOneOf [(1 : Int), 2]).expected = .ok true ∧
    (callWith sevens).accepts (Check.beOneOf (List.replicate 3 (7 : Int))).expected = .ok false ∧
    (callWith attributed).accepts (Check.beOneOf [(1 : Int), 2]).expected = .ok false := by
  have hone : MayHave (digit '1') (Denoted.scalar (1 : Int)) := Or.inr (.literal denotes_one)
  have htwo : MayHave (digit '2') (Denoted.scalar (2 : Int)) := Or.inr (.literal denotes_two)
  have hseven : MayHave seven (Denoted.scalar (7 : Int)) := Or.inr (.literal denotes_seven)
  have hthree : MayHave (digit '3') (.int (3 : Nat)) := Or.inr (.literal denotes_three)
  have hx : MayHave variableX (Denoted.scalar (5 : Int)) :=
    mayHave_of_not_isLiteral not_isLiteral_variableX _
  have hrepeated := (own_sequence_accepted (c := callWith sevens)).2.2.1 sevens sevens seven
    (digit '3') 3 (7 : Int) rfl ⟨rfl, Or.inl rfl⟩ (by decide) repeats_sevens hseven hthree
  have hattributed := (own_sequence_accepted (c := callWith attributed)).2.2.2 attributed
    attributed [(1 : Int), 2] rfl ⟨rfl, Or.inl rfl⟩ mayHave_attributed
  refine ⟨own_sequence_accepted.1 _ _ _ _ rfl hone hx, ?_, ?_, ?_⟩
  · exact own_sequence_accepted.2.1 arrayOneTwo arrayOneTwo _ _ rfl ⟨rfl, Or.inl rfl⟩ (by decide)
      ⟨by decide, rfl⟩ (.cons hone (.cons htwo .nil))
  · refine hrepeated.eq_false_iff.mpr fun hagrees => ?_
    have := (agrees_integer_iff denotes_three).mp (hagrees.resolve_left (by decide))
    contradiction
  · refine hattributed.eq_false_iff.mpr fun hagrees => ?_
    have hpair : (Denoted.scalar (2 : Int), digit '1') ∈
        ([(1 : Int), 2].map Denoted.scalar).zip (elements attributed) :=
      List.mem_cons_of_mem _ List.mem_cons_self
    have := (agrees_integer_iff denotes_one).mp (hagrees _ hpair)
    contradiction

end Attest.Call
