/-
  Checks as data: what a check is called, which values pass it, what it tells the resolver that it
  expected, and how a value that fails it and the expectation are worded.
-/
import Attest.Check.Value

namespace Attest

structure Check (α : Type) where
  method : String
  passes : α → Bool
  expected : Expected
  actual : α → String
  wording : String

namespace Check

variable {α : Type}

/-! ## Equality and order -/

section Compared

variable [Shown α] [Denoted α]

/-- A check against one value. -/
def against (method words : String) (passes : α → Bool) (x : α) : Check α :=
  ⟨method, passes, .scalar (Denoted.scalar x), Shown.render, words ++ Shown.render x⟩

def be [BEq α] (x : α) : Check α := against "be" "to be " (· == x) x

def notBe [BEq α] (x : α) : Check α := against "not_be" "not to be " (· != x) x

variable [Ordered α]

def beGreaterThan (bound : α) : Check α :=
  against "be_greater_than" "to be greater than " (Ordered.lt bound) bound

def beGreaterThanOrEqualTo (bound : α) : Check α :=
  against "be_greater_than_or_equal_to" "to be greater than or equal to " (Ordered.le bound) bound

def beLessThan (bound : α) : Check α :=
  against "be_less_than" "to be less than " (Ordered.lt · bound) bound

def beLessThanOrEqualTo (bound : α) : Check α :=
  against "be_less_than_or_equal_to" "to be less than or equal to " (Ordered.le · bound) bound

/-- Both ends pass. -/
def beBetween (low high : α) : Check α :=
  ⟨"be_between", fun v => Ordered.le low v && Ordered.le v high,
    .sequence [Denoted.scalar low, Denoted.scalar high], Shown.render,
    "to be between " ++ Shown.render low ++ " and " ++ Shown.render high⟩

end Compared

def beOneOf [Shown α] [Denoted α] [BEq α] (options : List α) : Check α :=
  ⟨"be_one_of", fun v => options.any (v == ·), .sequence (options.map Denoted.scalar),
    Shown.render, "to be one of " ++ Shown.render options⟩

/-! ## Checks without an argument -/

section Plain

variable [Shown α]

/-- A check that tells the resolver nothing. -/
def plain (method : String) (passes : α → Bool) (wording : String) : Check α :=
  ⟨method, passes, .none, Shown.render, wording⟩

def beDefault [BEq α] [Initial α] : Check α :=
  plain "be_default" (· == Initial.initial)
    ("to be the default value " ++ Shown.render (Initial.initial : α))

def notBeDefault [BEq α] [Initial α] : Check α :=
  plain "not_be_default" (· != Initial.initial) "not to be the default value"

end Plain

def beTrue : Check Bool := plain "be_true" id "to be true"

def beFalse : Check Bool := plain "be_false" (!·) "to be false"

def beSome [Shown α] : Check (Option α) := plain "be_some" (·.isSome) "to be Some"

def beNone [Shown α] : Check (Option α) := plain "be_none" (·.isNone) "to be None"

/-! ## Texts -/

/-- Does the text stand somewhere in the other one? -/
def occursIn (needle : List Char) : List Char → Bool
  | [] => needle.isEmpty
  | c :: cs => needle.isPrefixOf (c :: cs) || occursIn needle cs

/-- A check that a text has another one in some place. -/
def having (method words : String) (has : List Char → List Char → Bool) (needle : String) :
    Check String :=
  against method words (fun v => has needle.toList v.toList) needle

def contain (needle : String) : Check String := having "contain" "to contain " occursIn needle

def startWith (needle : String) : Check String :=
  having "start_with" "to start with " List.isPrefixOf needle

def endWith (needle : String) : Check String :=
  having "end_with" "to end with " List.isSuffixOf needle

def beEmptyText : Check String := plain "be_empty" (·.isEmpty) "to be empty"

/-! ## Collections -/

def beEmpty [Shown α] : Check (List α) := plain "be_empty" (·.isEmpty) "to be empty"

/-- The length of the collection is shown too. -/
def haveLength [Shown α] (length : Nat) : Check (List α) :=
  ⟨"have_len", (·.length == length), .scalar (.ofInt length),
    fun xs => Shown.render xs ++ " with length " ++ toString xs.length,
    "to have length " ++ toString length⟩

def containItem [Shown α] [Denoted α] [BEq α] (item : α) : Check (List α) :=
  ⟨"contain_item", (·.any (· == item)), .scalar (Denoted.scalar item), Shown.render,
    "to contain " ++ Shown.render item⟩

end Check

end Attest
