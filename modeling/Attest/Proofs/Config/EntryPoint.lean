/-
  Entry points and names. The check of the settings goes by letters and digits and knows no
  reserved words; the scanner goes by the characters of names, and the grammar leaves the reserved
  words out. On ASCII characters the check and the scanner agree (`agreed_of_ascii`), and on the
  characters where they do not, names come out differently (`agreed_iff`). Main statement
  (`validate_iff_isPlainName_iff`): which entry points the check and the grammar judge alike; and
  the resolver meets every plain name, as one word and as a call behind any expression, where the
  chain ends.
-/
import Attest.Config.Basic
import Attest.Proofs.Call.MemberCall
import Attest.Proofs.Syntax.Word

namespace Attest

open Syntax Call
open Grammar (postfixLinks reserved)

variable {cs : List Char}

/-! ## Characters -/

/-- As a first character and as a further one, the check of the settings takes the character just
if the scanner does. -/
def Agreed (c : Char) : Prop :=
  (c == '_' || Text.isAlphabetic c) = Text.isNameStart c ∧
    (c == '_' || Text.isAlphanumeric c) = Text.isNameContinue c

instance (c : Char) : Decidable (Agreed c) := inferInstanceAs (Decidable (_ ∧ _))

theorem agreed_of_ascii {c : Char} (h : c.toNat < 128) : Agreed c := by
  have hall : ∀ n < 128, Agreed (Char.ofNat n) := by decide +kernel
  have hc := hall c.toNat h
  rwa [Char.ofNat_toNat] at hc

theorem isIdentifier_iff_isWord (h : ∀ c ∈ cs, Agreed c) : isIdentifier cs = true ↔ IsWord cs := by
  cases cs with
  | nil => exact iff_of_false (by decide) not_isWord_nil
  | cons c rest =>
    obtain ⟨⟨hstart, -⟩, hrest⟩ := List.forall_mem_cons.1 h
    rw [isIdentifier_cons, isWord_cons, hstart]
    refine and_congr_right' (forall₂_congr fun x hx => ?_)
    rw [(hrest x hx).2]

/-- On the characters that are not agreed the check and the grammar do come apart, in names of one
or two characters. -/
theorem agreed_iff (c : Char) : Agreed c ↔ ∀ name : String, (∀ x ∈ name.toList, x = 'x' ∨ x = c) →
    name ∉ reserved → (isIdentifier name.toList = true ↔ IsPlainName name) := by
  have hx : Agreed 'x' := agreed_of_ascii (by decide)
  constructor
  · intro hc name hname hreserved
    have hall : ∀ x ∈ name.toList, Agreed x := fun x hmem => by
      rcases hname x hmem with rfl | rfl
      · exact hx
      · exact hc
    rw [isPlainName_iff, isIdentifier_iff_isWord hall, and_iff_left hreserved]
  · intro h
    -- The underscore alone is reserved, so no name of one character tells about it.
    by_cases hunderscore : c = '_'
    · exact agreed_of_ascii (hunderscore ▸ by decide)
    have hspelt (cs : List Char) (hcs : ∀ x ∈ cs, x = 'x' ∨ x = c)
        (hreserved : String.ofList cs ∉ reserved) : isIdentifier cs = true ↔ IsWord cs := by
      have hname := h (String.ofList cs) (by rwa [String.toList_ofList]) hreserved
      rwa [isPlainName_iff, String.toList_ofList, and_iff_left hreserved] at hname
    have hshort : ∀ word ∈ reserved, word = "_" ∨
        1 < word.toList.length ∧ word.toList.head? ≠ some 'x' := by decide +kernel
    refine ⟨Bool.eq_iff_iff.2 ?_, Bool.eq_iff_iff.2 ?_⟩
    · have hone : String.ofList [c] ∉ reserved := fun hmem => by
        rcases hshort _ hmem with heq | ⟨hlength, -⟩
        · exact hunderscore (List.cons.inj (String.ofList_injective heq)).1
        · simp at hlength
      have hiff := hspelt [c] (by simp) hone
      rw [isIdentifier_cons, isWord_cons] at hiff
      simpa only [List.not_mem_nil, IsEmpty.forall_iff, implies_true, and_true] using hiff
    · have htwo : String.ofList ['x', c] ∉ reserved := fun hmem => by
        rcases hshort _ hmem with heq | ⟨-, hhead⟩
        · exact List.cons_ne_nil _ _ (List.cons.inj (String.ofList_injective heq)).2
        · simp at hhead
      have hiff := hspelt ['x', c] (by simp) htwo
      have hstart : Text.isNameStart 'x' = true := by decide +kernel
      rw [isIdentifier_cons, isWord_cons, hx.1, hstart, List.forall_mem_singleton,
        List.forall_mem_singleton] at hiff
      simpa only [true_and] using hiff

/-! ## The check of the settings -/

theorem isIdentifier_of_mem_reserved : ∀ word ∈ reserved, isIdentifier word.toList = true := by
  decide +kernel

/-- Where the limit is large enough, the check and the grammar judge an entry point alike just if it
is not reserved and is a word for both or for neither. Where its characters are agreed, the check
only takes reserved words besides plain names. And of a plain name the scanner makes one word; a
call of it and of a method, behind any expression, is read and found as such; and the chain tells
the names in front of the entry point. -/
theorem Config.validate_iff_isPlainName_iff {c : Config} {e : String}
    (he : c.resolver.entryPoint = e) (hlimit : leastMaxLength ≤ c.formatter.maxLength) :
    ((c.validate = .ok () ↔ IsPlainName e) ↔
      e ∉ reserved ∧ (isIdentifier e.toList = true ↔ IsWord e.toList)) ∧
    ((∀ x ∈ e.toList, Agreed x) → (c.validate = .ok () ↔ IsPlainName e ∨ e ∈ reserved)) ∧
    (IsPlainName e →
      (∀ member rest, EndsName rest → lexeme member (e.toList ++ rest) = (.word, e.toList)) ∧
      ∀ fuel p (base started : Tree) ts point entry arguments mid point' method args rest,
        base.isComment = false → entry.text = e → method.text ≠ "await" →
        MethodAt (fuel + 7) ts point entry arguments mid →
        MethodAt (fuel + 5) mid point' method args rest →
        started = memberCall base point entry arguments →
        extend rust (fuel + 10) (postfixLinks p) [base] ts =
          extend rust (fuel + 6) (postfixLinks p) [memberCall started point' method args] rest ∧
        Candidate.ofTree? e started = some (memberCandidate base point entry arguments) ∧
        Candidate.ofTree? method.text (memberCall started point' method args) =
          some (memberCandidate started point' method args) ∧
        (memberCandidate started point' method args).chain e method.text =
          ".".intercalate (describedNames e method.text (names base))) := by
  rw [validate_iff, and_iff_left hlimit, isPlainName_iff, he]
  refine ⟨?_, fun hagreed => ?_, fun ⟨hword, hreserved⟩ => ⟨fun member rest hrest => ?_, ?_⟩⟩
  · by_cases hreserved : e ∈ reserved
    · simp [hreserved, isIdentifier_of_mem_reserved e hreserved]
    · simp [hreserved]
  · rw [isIdentifier_iff_isWord hagreed]
    by_cases hreserved : e ∈ reserved
    · have hword := (isIdentifier_iff_isWord hagreed).1 (isIdentifier_of_mem_reserved e hreserved)
      simp [hreserved, hword]
    · simp [hreserved]
  · exact lexeme_of_isWord hword hrest member
  · rintro fuel p base _ ts point entry arguments mid point' method args rest hbase rfl hmethod
      hentry hcheck rfl
    have hawait : entry.text ≠ "await" := fun heq => hreserved (heq ▸ by decide)
    exact ⟨hentry.extend_twice hcheck p hbase hawait hmethod,
      ofTree?_memberCall base point entry arguments, ofTree?_memberCall _ point' method args,
      chain_of_memberCall base point entry point' method args hentry.kind_arguments⟩

/-- A check started with letters beyond the alphabet of twenty-six, and its tokens. -/
def startedCheck : String := "x.größe().be(1)"

def startedTokens : List Token :=
  [⟨.word, "x", 0, 0⟩, ⟨.mark, ".", 1, 0⟩, ⟨.word, "größe", 2, 0⟩, ⟨.mark, "(", 9, 0⟩,
    ⟨.mark, ")", 10, 0⟩, ⟨.mark, ".", 11, 0⟩, ⟨.word, "be", 12, 0⟩, ⟨.mark, "(", 14, 0⟩,
    ⟨.integer, "1", 15, 0⟩, ⟨.mark, ")", 16, 0⟩]

theorem scan_startedCheck : scan startedCheck = startedTokens := by decide +kernel

theorem exists_arguments {fuel : Nat} {ts rest : List Token}
    (h : (Syntax.read rust fuel (.rule .arguments) ts).map (fun r => (r.1.length, r.2)) =
      some (1, rest)) :
    ∃ arguments, Syntax.read rust fuel (.rule .arguments) ts = some ([arguments], rest) := by
  obtain ⟨⟨xs, _⟩, hread, heq⟩ := Option.map_eq_some_iff.1 h
  obtain ⟨hlength, rfl⟩ := Prod.mk.inj heq
  obtain ⟨arguments, rfl⟩ := List.length_eq_one_iff.1 hlength
  exact ⟨arguments, hread⟩

theorem Config.validate_iff_isPlainName_iff_startedCheck :
    validate { resolver := { entryPoint := "größe" } } = .ok () ∧ IsPlainName "größe" ∧
    lexeme true "größe()".toList = (.word, "größe".toList) ∧
    ∃ (base : Tree) (check : Candidate),
      extend rust 410 (postfixLinks .statement) [base] (scan startedCheck).tail =
        extend rust 406 (postfixLinks .statement) [check.call] [] ∧
      Candidate.ofTree? "be" check.call = some check ∧ check.chain "größe" "be" = "x" := by
  have hall : "größe".toList.all (fun x => decide (Agreed x)) = true := by decide +kernel
  have hletters : ∀ x ∈ "größe".toList, Agreed x := fun x hx =>
    of_decide_eq_true (List.all_eq_true.1 hall x hx)
  have hreserved : "größe" ∉ reserved := by decide +kernel
  have hvalid : validate { resolver := { entryPoint := "größe" } } = .ok () := by decide +kernel
  obtain ⟨-, hagreed, hmet⟩ := validate_iff_isPlainName_iff (e := "größe")
    (c := { resolver := { entryPoint := "größe" } }) rfl (by decide)
  have hplain := ((hagreed hletters).1 hvalid).resolve_right hreserved
  obtain ⟨hscanned, hcalled⟩ := hmet hplain
  have hends : EndsName "()".toList := fun x hx => by
    obtain rfl : '(' = x := Option.some.inj hx
    decide +kernel
  obtain ⟨arguments, hentry⟩ : ∃ arguments, Syntax.read rust 407 (.rule .arguments)
      (startedTokens.drop 3) = some ([arguments], startedTokens.drop 5) :=
    exists_arguments (by decide +kernel)
  obtain ⟨args, hmethod⟩ : ∃ args, Syntax.read rust 405 (.rule .arguments)
      (startedTokens.drop 7) = some ([args], []) :=
    exists_arguments (by decide +kernel)
  obtain ⟨hextend, -, hfound, hchain⟩ := hcalled 400 .statement
    (.leaf .plain .name ⟨.word, "x", 0, 0⟩) _ startedTokens.tail _ _ arguments _ _
    ⟨.word, "be", 12, 0⟩ args [] rfl rfl (by decide) ⟨rfl, rfl, _, rfl, hentry⟩
    ⟨rfl, rfl, _, rfl, hmethod⟩ rfl
  exact ⟨hvalid, hplain, hscanned true _ hends, _, _, by rw [scan_startedCheck]; exact hextend,
    hfound, hchain.trans (by decide +kernel)⟩

/-- The check takes reserved words and numerals that no name has, and refuses marks that a name may
go on with. -/
theorem Config.validate_not_isPlainName :
    (validate { resolver := { entryPoint := "fn" } } = .ok () ∧ ¬ IsPlainName "fn") ∧
    (validate { resolver := { entryPoint := "x²" } } = .ok () ∧ ¬ IsPlainName "x²") ∧
    (validate { resolver := { entryPoint := "e\u0301" } } = .error (.entryPoint "e\u0301") ∧
      IsPlainName "e\u0301") := by
  have hnone : Text.isNameContinue '²' = false := by decide +kernel
  refine ⟨⟨by decide +kernel, fun hplain => ?_⟩, ⟨by decide +kernel, fun hplain => ?_⟩,
    by decide +kernel, ?_⟩
  · exact (isPlainName_iff.1 hplain).2 (by decide)
  · have hword := (isWord_cons.1 (isPlainName_iff.1 hplain).1).2 '²' List.mem_cons_self
    rw [hnone] at hword
    cases hword
  · have hstart : Text.isNameStart 'e' = true := by decide +kernel
    have haccent : Text.isNameContinue '\u0301' = true := by decide +kernel
    exact isPlainName_iff.2
      ⟨isWord_cons.2 ⟨hstart, List.forall_mem_singleton.2 haccent⟩, by decide +kernel⟩

end Attest
