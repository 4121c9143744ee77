/-
  Digits. `Digits` says what number a digit string with underscores stands for, digit by digit from
  the right. Main statements: reading from the left gives that number, or fails if it is above the
  limit (`readDigits_of_digits`), and a number is written with digits that stand for it
  (`digits_toDigits`).
-/
import Attest.Number.Read
import Mathlib.Algebra.Group.Int.Defs
import Mathlib.Algebra.Group.Nat.Defs

namespace Attest.Number

/-! ## One digit -/

def lowerDigits : List Char := "0123456789abcdef".toList

def upperDigits : List Char := "0123456789ABCDEF".toList

/-- The character stands for the digit, letters of either case for ten and more. -/
def DigitOf (c : Char) (d : Nat) : Prop := lowerDigits[d]? = some c ∨ upperDigits[d]? = some c

theorem DigitOf.mem {c : Char} {d : Nat} (h : DigitOf c d) : c ∈ lowerDigits ++ upperDigits := by
  rw [List.mem_append]
  exact h.imp List.mem_of_getElem? List.mem_of_getElem?

/-- A check that all digits pass is passed by the character. -/
theorem DigitOf.of_all {p : Char → Bool} {c : Char} {d : Nat} (h : DigitOf c d)
    (hp : (lowerDigits ++ upperDigits).all p = true) : p c = true :=
  List.all_eq_true.mp hp c h.mem

theorem DigitOf.lt {c : Char} {d : Nat} (h : DigitOf c d) : d < 16 := by
  have hlength (ds : List Char) (hds : ds.length = 16) (hd : ds[d]? = some c) : d < 16 := by
    obtain ⟨hlt, -⟩ := List.getElem?_eq_some_iff.mp hd
    omega
  exact h.elim (hlength _ (by decide)) (hlength _ (by decide))

/-- The characters of a digit. -/
def digitChars (d : Nat) : List Char := lowerDigits[d]?.toList ++ upperDigits[d]?.toList

/-- A check that all digits below a bound pass is passed by the character. -/
theorem DigitOf.of_all_lt {p : Nat → Char → Bool} {c : Char} {k d : Nat} (h : DigitOf c d)
    (hd : d < k) (hp : ∀ i < k, (digitChars i).all (p i) = true) : p d c = true := by
  have hc : c ∈ digitChars d := by
    rw [digitChars, List.mem_append]
    exact h.imp (fun hl => by simp [hl]) (fun hu => by simp [hu])
  exact List.all_eq_true.mp (hp d hd) c hc

theorem DigitOf.decimal {c : Char} {d : Nat} (h : DigitOf c d) (hd : d < 10) :
    '0' ≤ c ∧ c ≤ '9' := by
  have hall : ∀ i < 10, (digitChars i).all (fun x => '0' ≤ x && x ≤ '9') = true := by decide
  have := h.of_all_lt (p := fun _ x => '0' ≤ x && x ≤ '9') hd hall
  simpa using this

/-- The value of a digit does not depend on the radix, only whether it is one. -/
theorem digitValue?_of_lt {big radix d : Nat} {c : Char} (h : digitValue? big c = some d)
    (hd : d < radix) : digitValue? radix c = some d := by
  have hvalue (v : Nat) (hv : (if v < big then some v else none) = some d) :
      (if v < radix then some v else none) = some d := by
    split at hv
    · obtain rfl := Option.some.inj hv
      rw [if_pos hd]
    · contradiction
  unfold digitValue? at h ⊢
  dsimp only at h ⊢
  by_cases hdecimal : ('0' ≤ c && c ≤ '9') = true
  · simp only [hdecimal, if_true] at h ⊢
    exact hvalue _ h
  · by_cases hlower : ('a' ≤ c && c ≤ 'z') = true
    · simp only [hdecimal, hlower, if_true] at h ⊢
      exact hvalue _ h
    · by_cases hupper : ('A' ≤ c && c ≤ 'Z') = true
      · simp only [hdecimal, hlower, hupper, if_true] at h ⊢
        exact hvalue _ h
      · simp [hdecimal, hlower, hupper] at h

theorem digitValue?_of_digitOf {radix d : Nat} {c : Char} (h : DigitOf c d) (hd : d < radix) :
    digitValue? radix c = some d := by
  have hall : ∀ i < 16, (digitChars i).all (fun x => digitValue? 16 x == some i) = true := by
    decide
  have hvalue := h.of_all_lt (p := fun i x => digitValue? 16 x == some i) h.lt hall
  exact digitValue?_of_lt (eq_of_beq hvalue) hd

/-- In decimal only digits have a value. -/
theorem digitOf_of_digitValue? {c : Char} {d : Nat} (h : digitValue? 10 c = some d) :
    DigitOf c d ∧ d < 10 := by
  have hvalue (v : Nat) (hv : (if v < 10 then some v else none) = some d) : v = d ∧ d < 10 := by
    split at hv
    · next hlt =>
      obtain rfl := Option.some.inj hv
      exact ⟨rfl, hlt⟩
    · contradiction
  have hlt : d < 10 := (hvalue _ h).2
  refine ⟨?_, hlt⟩
  have hd := (hvalue _ h).1
  by_cases hdecimal : ('0' ≤ c && c ≤ '9') = true
  · have hnat : c.toNat = d + 48 := by
      rw [if_pos hdecimal] at hd
      simp only [Bool.and_eq_true, decide_eq_true_eq] at hdecimal
      have hzero : 48 ≤ c.toNat := hdecimal.1
      omega
    have hall : ∀ i < 10, lowerDigits[i]? = some (Char.ofNat (i + 48)) := by decide
    exact Or.inl (by rw [hall d hlt, ← hnat, Char.ofNat_toNat])
  · -- Letters stand for ten and more.
    rw [if_neg hdecimal] at hd
    by_cases hlower : ('a' ≤ c && c ≤ 'z') = true
    · rw [if_pos hlower] at hd
      simp only [Bool.and_eq_true, decide_eq_true_eq] at hlower
      have ha : 97 ≤ c.toNat := hlower.1
      omega
    · rw [if_neg hlower] at hd
      by_cases hupper : ('A' ≤ c && c ≤ 'Z') = true
      · rw [if_pos hupper] at hd
        simp only [Bool.and_eq_true, decide_eq_true_eq] at hupper
        have ha : 65 ≤ c.toNat := hupper.1
        omega
      · rw [if_neg hupper] at hd
        omega

theorem isSome_digitValue? {c : Char} (h : isDigit c = true) : (digitValue? 10 c).isSome = true := by
  have hnine : c.toNat ≤ 57 := by
    rw [isDigit, Bool.and_eq_true, decide_eq_true_eq, decide_eq_true_eq] at h
    exact h.2
  rw [isDigit] at h
  rw [digitValue?, if_pos h, if_pos (by omega)]
  rfl

/-! ## Digit strings -/

/-- Digits without underscores. -/
def bare (cs : List Char) : List Char := cs.filter (· != '_')

/-- Digits in a radix with underscores anywhere, and the number they stand for. -/
inductive Digits (radix : Nat) : List Char → Nat → Prop
  | nil : Digits radix [] 0
  | underscore {cs n} (h : Digits radix cs n) : Digits radix ('_' :: cs) n
  | digit {c d cs n} (hc : DigitOf c d) (hd : d < radix) (h : Digits radix cs n) :
      Digits radix (c :: cs) (d * radix ^ (bare cs).length + n)

theorem bare_underscore (cs : List Char) : bare ('_' :: cs) = bare cs := by simp [bare]

theorem bare_digit {c : Char} {d : Nat} (hc : DigitOf c d) (cs : List Char) :
    bare (c :: cs) = c :: bare cs := by
  have hne : (c != '_') = true := hc.of_all (p := (· != '_')) (by decide)
  simp [bare, bne_iff_ne.mp hne]

theorem bare_append (cs ds : List Char) : bare (cs ++ ds) = bare cs ++ bare ds := by
  rw [bare, List.filter_append]
  rfl

theorem Digits.mem {radix n : Nat} {cs : List Char} (h : Digits radix cs n) {c : Char}
    (hc : c ∈ cs) : c = '_' ∨ ∃ d < radix, DigitOf c d := by
  induction h with
  | nil => simp at hc
  | underscore _ ih =>
    rcases List.mem_cons.mp hc with rfl | hc
    · exact Or.inl rfl
    · exact ih hc
  | @digit x d _ _ hx hd _ ih =>
    rcases List.mem_cons.mp hc with rfl | hc
    · exact Or.inr ⟨d, hd, hx⟩
    · exact ih hc

/-- A check that all digits pass is passed by all of a digit string but the underscores. -/
theorem Digits.all_bare {p : Char → Bool} {radix n : Nat} {cs : List Char} (h : Digits radix cs n)
    (hp : (lowerDigits ++ upperDigits).all p = true) : ∀ c ∈ bare cs, p c = true := by
  intro c hc
  obtain ⟨hmem, hne⟩ := List.mem_filter.mp hc
  rcases h.mem hmem with rfl | ⟨d, -, hd⟩
  · simp at hne
  · exact hd.of_all hp

/-- A digit behind an accumulator is the last digit of a greater accumulator. -/
theorem place_value (radix acc d k n : Nat) :
    acc * radix ^ (k + 1) + (d * radix ^ k + n) = (acc * radix + d) * radix ^ k + n := by
  rw [Nat.pow_succ, Nat.add_mul, Nat.mul_assoc acc, Nat.mul_comm radix, Nat.add_assoc]

/-- Reading a digit string behind an accumulator. -/
theorem readDigits_of_digits {radix limit n : Nat} {overflow : Misread} {cs : List Char}
    (h : Digits radix cs n) {acc : Nat} (hacc : acc ≤ limit) :
    readDigits radix limit overflow acc (bare cs) =
      if acc * radix ^ (bare cs).length + n ≤ limit
        then .ok (acc * radix ^ (bare cs).length + n) else .error overflow := by
  induction h generalizing acc with
  | nil => simp [bare, readDigits, hacc]
  | underscore _ ih => rw [bare_underscore, ih hacc]
  | @digit c d cs n hc hd _ ih =>
    have hpow : 0 < radix ^ (bare cs).length := Nat.pow_pos (by omega)
    rw [bare_digit hc, List.length_cons, place_value, readDigits, digitValue?_of_digitOf hc hd]
    dsimp only
    by_cases hnext : acc * radix + d ≤ limit
    · rw [if_pos hnext, ih hnext]
    · -- The digits that follow do not make the number smaller.
      have hle := Nat.le_mul_of_pos_right (acc * radix + d) hpow
      rw [if_neg hnext, if_neg (by omega)]

/-- Underscores do not matter. -/
theorem digits_bare_iff {radix n : Nat} {cs : List Char} :
    Digits radix (bare cs) n ↔ Digits radix cs n := by
  have hidem (cs : List Char) : bare (bare cs) = bare cs := by simp [bare]
  constructor
  · intro h
    induction cs generalizing n with
    | nil => exact h
    | cons c cs ih =>
      by_cases hc : c = '_'
      · subst hc
        rw [bare_underscore] at h
        exact .underscore (ih h)
      · have hbare : bare (c :: cs) = c :: bare cs := by simp [bare, hc]
        rw [hbare] at h
        cases h with
        | underscore => contradiction
        | digit hdigit hd h =>
          rw [hidem]
          exact .digit hdigit hd (ih h)
  · intro h
    induction h with
    | nil => exact .nil
    | underscore _ ih => rwa [bare_underscore]
    | digit hdigit hd _ ih =>
      have := Digits.digit hdigit hd ih
      rwa [hidem, ← bare_digit hdigit] at this

/-- What is read in decimal is a digit string. -/
theorem digits_of_readDigits {limit m : Nat} {overflow : Misread} {cs : List Char} {acc : Nat}
    (h : readDigits 10 limit overflow acc cs = .ok m) :
    ∃ n, Digits 10 cs n ∧ m = acc * 10 ^ (bare cs).length + n := by
  induction cs generalizing acc with
  | nil =>
    refine ⟨0, .nil, ?_⟩
    simpa [readDigits, bare] using h.symm
  | cons c cs ih =>
    rw [readDigits] at h
    split at h
    · contradiction
    · next d hd =>
      dsimp only at h
      split at h
      · obtain ⟨n, hn, hm⟩ := ih h
        obtain ⟨hdigit, hlt⟩ := digitOf_of_digitValue? hd
        refine ⟨d * 10 ^ (bare cs).length + n, .digit hdigit hlt hn, ?_⟩
        rw [bare_digit hdigit, List.length_cons, hm, place_value]
      · contradiction

theorem readDigits_le {radix limit acc m : Nat} {overflow : Misread} {cs : List Char}
    (hacc : acc ≤ limit) (h : readDigits radix limit overflow acc cs = .ok m) : m ≤ limit := by
  induction cs generalizing acc with
  | nil => rwa [← Except.ok.inj h]
  | cons c cs ih =>
    rw [readDigits] at h
    split at h
    · contradiction
    · dsimp only at h
      split at h
      · next hle => exact ih hle h
      · contradiction

/-- In decimal exactly the digit strings up to the limit are read. -/
theorem readDigits_eq_ok_iff {limit m : Nat} {overflow : Misread} {cs : List Char} :
    readDigits 10 limit overflow 0 (bare cs) = .ok m ↔ Digits 10 cs m ∧ m ≤ limit := by
  constructor
  · intro h
    obtain ⟨n, hn, hm⟩ := digits_of_readDigits h
    rw [Nat.zero_mul, Nat.zero_add] at hm
    rw [hm]
    exact ⟨digits_bare_iff.mp hn, hm ▸ readDigits_le (Nat.zero_le _) h⟩
  · rintro ⟨hdigits, hle⟩
    rw [readDigits_of_digits hdigits (Nat.zero_le _), Nat.zero_mul, Nat.zero_add, if_pos hle]

/-! ## Digits that are written -/

theorem digitOf_digitChar {d : Nat} (hd : d < 16) : DigitOf d.digitChar d := by
  have hall : ∀ i < 16, lowerDigits[i]? = some i.digitChar := by decide
  exact Or.inl (hall d hd)

/-- One more digit at the end. -/
theorem Digits.concat {radix m d : Nat} {cs : List Char} {c : Char} (h : Digits radix cs m)
    (hc : DigitOf c d) (hd : d < radix) : Digits radix (cs ++ [c]) (m * radix + d) := by
  induction h with
  | nil => simpa [bare] using Digits.digit hc hd .nil
  | underscore _ ih => exact .underscore ih
  | @digit x e cs n hx he _ ih =>
    have hlength : (bare (cs ++ [c])).length = (bare cs).length + 1 := by
      rw [bare_append, bare_digit hc, List.length_append]
      rfl
    have hdigit := Digits.digit hx he ih
    rw [hlength, Nat.pow_succ, ← Nat.mul_assoc, ← Nat.add_assoc, ← Nat.add_mul] at hdigit
    exact hdigit

/-- A number is written with digits that stand for it, and without underscores. -/
theorem digits_toDigits {radix : Nat} (hlow : 1 < radix) (hhigh : radix ≤ 16) (n : Nat) :
    Digits radix (Nat.toDigits radix n) n ∧
      bare (Nat.toDigits radix n) = Nat.toDigits radix n := by
  have hone {d : Nat} (hd : d < 16) : bare [d.digitChar] = [d.digitChar] := by
    rw [bare_digit (digitOf_digitChar hd)]
    rfl
  induction n using Nat.strongRecOn with
  | ind n ih =>
    by_cases hn : n < radix
    · rw [Nat.toDigits_of_lt_base hn]
      have hd : n < 16 := Nat.lt_of_lt_of_le hn hhigh
      refine ⟨?_, hone hd⟩
      simpa using Digits.nil.concat (digitOf_digitChar hd) hn
    · have hle : radix ≤ n := Nat.le_of_not_lt hn
      have hmod : n % radix < radix := Nat.mod_lt _ (by omega)
      obtain ⟨hdigits, hbare⟩ := ih (n / radix) (Nat.div_lt_self (by omega) hlow)
      rw [Nat.toDigits_of_base_le hlow hle, bare_append, hbare, hone (by omega)]
      refine ⟨?_, rfl⟩
      have hconcat := hdigits.concat (digitOf_digitChar (by omega)) hmod
      rwa [Nat.div_add_mod' n radix] at hconcat

theorem head?_ne_underscore {cs : List Char} (h : bare cs = cs) : cs.head? ≠ some '_' := by
  intro heq
  have hmem : '_' ∈ bare cs := by
    rw [h]
    exact List.mem_of_mem_head? heq
  simp [bare] at hmem

/-- What holds no digit somewhere is not read. -/
theorem readDigits_of_not_digit {limit acc : Nat} {overflow : Misread} {cs : List Char} {x : Char}
    (hx : digitValue? 10 x = none) (h : x ∈ cs) :
    ∃ misread, readDigits 10 limit overflow acc cs = .error misread := by
  induction cs generalizing acc with
  | nil => exact absurd h List.not_mem_nil
  | cons c cs ih =>
    rw [readDigits]
    cases hc : digitValue? 10 c with
    | none => exact ⟨_, rfl⟩
    | some d =>
      have htail : x ∈ cs := (List.mem_cons.1 h).resolve_left fun heq => by
        rw [heq, hc] at hx
        cases hx
      dsimp only
      split
      · exact ih htail
      · exact ⟨_, rfl⟩

/-! ## Integers of a range -/

/-- The number behind a sign. -/
def signedInt (negative : Bool) (n : Nat) : Int := if negative then -(n : Int) else n

theorem read_of_ne_sign {r : Range} {radix : Nat} {c : Char} {rest : List Char} (hplus : c ≠ '+')
    (hminus : c ≠ '-') : r.read radix (c :: rest) =
      (readDigits radix r.high.toNat .tooLarge 0 (c :: rest)).map Int.ofNat := by
  unfold Range.read
  split
  · contradiction
  · next heq => exact absurd (List.cons.inj heq).1 hplus
  · next heq => exact absurd (List.cons.inj heq).1 hminus
  · next heq => exact absurd (List.cons.inj heq).1 hplus
  · next heq => exact absurd (List.cons.inj heq).1 hminus
  · rfl

theorem read?_of_not_digit {r : Range} {cs : List Char} {x : Char} (hplus : x ≠ '+')
    (hminus : x ≠ '-') (hx : digitValue? 10 x = none) (h : x ∈ cs) : r.read? 10 cs = none := by
  unfold Range.read? Range.read
  split
  · rfl
  · rfl
  · rfl
  · obtain ⟨misread, hread⟩ :=
      readDigits_of_not_digit hx ((List.mem_cons.1 h).resolve_left hplus)
    rw [hread]
    rfl
  · obtain ⟨misread, hread⟩ :=
      readDigits_of_not_digit hx ((List.mem_cons.1 h).resolve_left hminus)
    rw [hread]
    split <;> rfl
  · obtain ⟨misread, hread⟩ := readDigits_of_not_digit hx h
    rw [hread]
    rfl

/-- Without a sign only numbers from zero to the end of the range are read. -/
theorem read?_bounds {r : Range} {radix : Nat} {cs : List Char} {i : Int}
    (hsign : ∀ c ∈ cs, c ≠ '+' ∧ c ≠ '-') (h : r.read? radix cs = some i) :
    0 ≤ i ∧ i ≤ r.high.toNat := by
  cases cs with
  | nil => simp [Range.read?, Range.read, Except.toOption] at h
  | cons c cs =>
    obtain ⟨hplus, hminus⟩ := hsign c List.mem_cons_self
    rw [Range.read?, read_of_ne_sign hplus hminus] at h
    cases hread : readDigits radix r.high.toNat .tooLarge 0 (c :: cs) with
    | error e => simp [hread, Except.map, Except.toOption] at h
    | ok n =>
      have hle := readDigits_le (Nat.zero_le _) hread
      simp [hread, Except.map, Except.toOption] at h
      omega

/-- A digit string is read as the number it stands for, if the range has it. -/
theorem read?_of_digits {r : Range} {radix n : Nat} {cs : List Char} (h : Digits radix cs n)
    (hne : bare cs ≠ []) :
    r.read? radix (bare cs) = if n ≤ r.high.toNat then some (n : Int) else none := by
  have hread : readDigits radix r.high.toNat .tooLarge 0 (bare cs) = _ :=
    readDigits_of_digits h (Nat.zero_le _)
  rw [Nat.zero_mul, Nat.zero_add] at hread
  obtain ⟨c, rest, hc⟩ := List.exists_cons_of_ne_nil hne
  have hsign := h.all_bare (p := fun c => c != '+' && c != '-') (by decide) c (by simp [hc])
  obtain ⟨hplus, hminus⟩ : c ≠ '+' ∧ c ≠ '-' := by simpa using hsign
  rw [hc] at hread ⊢
  rw [Range.read?, read_of_ne_sign hplus hminus, hread]
  split
  · rfl
  · rfl

end Attest.Number
