/-
  Reports of failed checks. `Request` lists the checks of subjects with what they are given, and
  `Request.report` says for each which values fail it and what is told then. Main statement
  (`raised_names_own_call`): a check that fails raises the message that names the expression it was
  called on, if the source can be read and no other call of the method is named on the line.
-/
import Attest.Check.Subject
import Attest.Proofs.Call.Canonical
import Attest.Proofs.Call.Layout

namespace Attest

open Syntax
open Call (Candidate OnlyNamedOn Writes WritesList)

/-! ## Checks -/

/-- The checks of subjects, each with what it is given. Where a subject is compared with a value of
another type, `α` is the sum of the two types. -/
inductive Request : Type → Type 1
  | be {α} [Shown α] [Denoted α] [BEq α] (x : α) : Request α
  | notBe {α} [Shown α] [Denoted α] [BEq α] (x : α) : Request α
  | beGreaterThan {α} [Shown α] [Denoted α] [Ordered α] (bound : α) : Request α
  | beGreaterThanOrEqualTo {α} [Shown α] [Denoted α] [Ordered α] (bound : α) : Request α
  | beLessThan {α} [Shown α] [Denoted α] [Ordered α] (bound : α) : Request α
  | beLessThanOrEqualTo {α} [Shown α] [Denoted α] [Ordered α] (bound : α) : Request α
  | beBetween {α} [Shown α] [Denoted α] [Ordered α] (low high : α) : Request α
  | beOneOf {α} [Shown α] [Denoted α] [BEq α] (options : List α) : Request α
  | beDefault {α} [Shown α] [BEq α] [Initial α] : Request α
  | notBeDefault {α} [Shown α] [BEq α] [Initial α] : Request α
  | beTrue : Request Bool
  | beFalse : Request Bool
  | beSome {α} [Shown α] : Request (Option α)
  | beNone {α} [Shown α] : Request (Option α)
  | contain (needle : String) : Request String
  | startWith (needle : String) : Request String
  | endWith (needle : String) : Request String
  | beEmptyText : Request String
  | beEmpty {α} [Shown α] : Request (List α)
  | haveLength {α} [Shown α] (length : Nat) : Request (List α)
  | containItem {α} [Shown α] [Denoted α] [BEq α] (item : α) : Request (List α)

/-- The error of a computation that ended with one. -/
def errorOf? {ε α : Type} : Except ε α → Option ε
  | .error e => some e
  | .ok _ => none

namespace Request

variable {α : Type}

def check : {α : Type} → Request α → Check α
  | _, be x => .be x
  | _, notBe x => .notBe x
  | _, beGreaterThan bound => .beGreaterThan bound
  | _, beGreaterThanOrEqualTo bound => .beGreaterThanOrEqualTo bound
  | _, beLessThan bound => .beLessThan bound
  | _, beLessThanOrEqualTo bound => .beLessThanOrEqualTo bound
  | _, beBetween low high => .beBetween low high
  | _, beOneOf options => .beOneOf options
  | _, beDefault => .beDefault
  | _, notBeDefault => .notBeDefault
  | _, beTrue => .beTrue
  | _, beFalse => .beFalse
  | _, beSome => .beSome
  | _, beNone => .beNone
  | _, contain needle => .contain needle
  | _, startWith needle => .startWith needle
  | _, endWith needle => .endWith needle
  | _, beEmptyText => .beEmptyText
  | _, beEmpty => .beEmpty
  | _, haveLength length => .haveLength length
  | _, containItem item => .containItem item

/-- What is raised when the check is made on a subject. Only the check for presence hands back
something else than the value. -/
def raised : {α : Type} → Request α → Subject α → Caller → Option CheckError
  | _, beSome, s, caller => errorOf? (s.inner caller)
  | _, r, s, caller => errorOf? (s.verify caller r.check)

end Request

/-! ## Reports -/

/-- What is known of a check that failed: the method, the values that fail it, how such a value and
the expectation are worded, and how the arguments may stand in the source. -/
structure Report (α : Type) where
  method : String
  Fails : α → Prop
  actual : α → String
  wording : String
  Written : List Tree → Prop

namespace Request

open Shown (render)
open Denoted (scalar)

def report : {α : Type} → Request α → Report α
  | _, be x =>
    ⟨"be", fun v => (v == x) = false, render, "to be " ++ render x, Writes [scalar x]⟩
  | _, notBe x =>
    ⟨"not_be", fun v => (v == x) = true, render, "not to be " ++ render x, Writes [scalar x]⟩
  | _, beGreaterThan bound =>
    ⟨"be_greater_than", fun v => Ordered.lt bound v = false, render,
      "to be greater than " ++ render bound, Writes [scalar bound]⟩
  | _, beGreaterThanOrEqualTo bound =>
    ⟨"be_greater_than_or_equal_to", fun v => Ordered.le bound v = false, render,
      "to be greater than or equal to " ++ render bound, Writes [scalar bound]⟩
  | _, beLessThan bound =>
    ⟨"be_less_than", fun v => Ordered.lt v bound = false, render,
      "to be less than " ++ render bound, Writes [scalar bound]⟩
  | _, beLessThanOrEqualTo bound =>
    ⟨"be_less_than_or_equal_to", fun v => Ordered.le v bound = false, render,
      "to be less than or equal to " ++ render bound, Writes [scalar bound]⟩
  | _, beBetween low high =>
    ⟨"be_between", fun v => Ordered.le low v = false ∨ Ordered.le v high = false, render,
      "to be between " ++ render low ++ " and " ++ render high, Writes [scalar low, scalar high]⟩
  | _, beOneOf options =>
    ⟨"be_one_of", fun v => ∀ x ∈ options, (v == x) = false, render,
      "to be one of " ++ render options, WritesList (options.map scalar)⟩
  | α, beDefault =>
    ⟨"be_default", fun v => (v == Initial.initial) = false, render,
      "to be the default value " ++ render (Initial.initial : α), Writes []⟩
  | _, notBeDefault =>
    ⟨"not_be_default", fun v => (v == Initial.initial) = true, render,
      "not to be the default value", Writes []⟩
  | _, beTrue => ⟨"be_true", (· = false), render, "to be true", Writes []⟩
  | _, beFalse => ⟨"be_false", (· = true), render, "to be false", Writes []⟩
  | _, beSome => ⟨"be_some", (· = none), fun _ => "None", "to be Some", Writes []⟩
  | _, beNone => ⟨"be_none", (· ≠ none), render, "to be None", Writes []⟩
  | _, contain needle =>
    ⟨"contain", fun v => ¬ needle.toList <:+: v.toList, render, "to contain " ++ render needle,
      Writes [.text needle]⟩
  | _, startWith needle =>
    ⟨"start_with", fun v => ¬ needle.toList <+: v.toList, render,
      "to start with " ++ render needle, Writes [.text needle]⟩
  | _, endWith needle =>
    ⟨"end_with", fun v => ¬ needle.toList <:+ v.toList, render, "to end with " ++ render needle,
      Writes [.text needle]⟩
  | _, beEmptyText => ⟨"be_empty", (· ≠ ""), render, "to be empty", Writes []⟩
  | _, beEmpty => ⟨"be_empty", (· ≠ []), render, "to be empty", Writes []⟩
  | _, haveLength length =>
    ⟨"have_len", fun v => v.length ≠ length,
      fun v => render v ++ " with length " ++ toString v.length,
      "to have length " ++ toString length, Writes [.ofInt length]⟩
  | _, containItem item =>
    ⟨"contain_item", fun v => ∀ x ∈ v, (x == item) = false, render, "to contain " ++ render item,
      Writes [scalar item]⟩

variable {α : Type}

theorem method_eq (r : Request α) : r.check.method = r.report.method := by
  cases r <;> rfl

theorem wording_eq (r : Request α) : r.check.wording = r.report.wording := by
  cases r <;> rfl

/-- An absent value is shown as `None`, which is all that is told of one that should be present. -/
theorem actual_eq {r : Request α} {v : α} (h : r.report.Fails v) :
    r.check.actual v = r.report.actual v := by
  cases r
  case beSome =>
    obtain rfl : v = none := h
    rfl
  all_goals rfl

end Request

namespace Check

theorem occursIn_iff (needle cs : List Char) :
    occursIn needle cs = true ↔ needle <:+: cs := by
  induction cs with
  | nil => rw [occursIn, List.isEmpty_iff, List.infix_nil]
  | cons c cs ih =>
    rw [occursIn, Bool.or_eq_true, ih, List.isPrefixOf_iff_prefix, List.infix_cons_iff]

end Check

namespace Request

variable {α : Type}

theorem passes_eq_false_iff (r : Request α) (v : α) :
    r.check.passes v = false ↔ r.report.Fails v := by
  cases r
  case notBe x => exact iff_of_eq (Bool.not_eq_false' _)
  case notBeDefault => exact iff_of_eq (Bool.not_eq_false' _)
  case beFalse => exact iff_of_eq (Bool.not_eq_false' _)
  case beBetween low high => exact Bool.and_eq_false_iff
  case beOneOf options => simp [check, Check.beOneOf, report]
  case containItem item => simp [check, Check.containItem, report]
  case beSome => exact Option.isSome_eq_false_iff.trans Option.isNone_iff_eq_none
  case beNone => exact Option.isNone_eq_false_iff.trans Option.isSome_iff_ne_none
  case contain needle => exact Bool.eq_false_iff.trans (not_congr (Check.occursIn_iff _ _))
  case startWith needle => exact Bool.eq_false_iff.trans (not_congr List.isPrefixOf_iff_prefix)
  case endWith needle => exact Bool.eq_false_iff.trans (not_congr List.isSuffixOf_iff_suffix)
  case beEmptyText => exact Bool.eq_false_iff.trans (not_congr String.isEmpty_iff)
  case beEmpty => exact List.isEmpty_eq_false_iff
  case haveLength length => exact beq_eq_false_iff_ne
  all_goals exact Iff.rfl

/-- A check is never held against the call that makes it. -/
theorem accepts_of_written {r : Request α} {c : Candidate} (h : r.report.Written c.arguments) :
    c.accepts r.check.expected = .ok true := by
  cases r
  case beBetween low high => exact Call.accepts_sequence_of_writes h (by simp)
  case beOneOf options => exact Call.accepts_of_writesList h
  case beDefault | notBeDefault | beTrue | beFalse | beSome | beNone | beEmptyText | beEmpty => rfl
  all_goals exact Call.accepts_scalar_of_writes h

/-- A value that fails raises the failure of the check. -/
theorem raised_of_fails {r : Request α} {s : Subject α} (h : r.report.Fails s.value)
    (caller : Caller) : r.raised s caller = some (s.failure caller r.check) := by
  have hpasses : ¬ r.check.passes s.value = true :=
    Bool.eq_false_iff.mp ((r.passes_eq_false_iff _).mpr h)
  have hverify : errorOf? (s.verify caller r.check) = some (s.failure caller r.check) := by
    rw [Subject.verify, if_neg hpasses]
    rfl
  cases r
  case beSome =>
    obtain ⟨v, context, reason⟩ := s
    obtain rfl : v = none := h
    rfl
  all_goals exact hverify

end Request

/-! ## The expression that is named -/

/-- The reported file is found, and this is its text. -/
def Environment.Reads (e : Environment) (roots : List String) (file text : String) : Prop :=
  ∃ path, locate e roots file = .ok path ∧ e.read path = .ok text

variable {α : Type} {e : Environment} {config : Config} {caller : Caller} {text : String}
  {c : Candidate}

theorem Resolver.source?_of_reads {roots : List String} {site : CallSite}
    (h : e.Reads roots site.file text) : source? e roots site = some (.parse text) := by
  obtain ⟨path, hpath, hread⟩ := h
  rw [source?, hpath]
  dsimp only
  rw [hread]
  rfl

/-- The only call named on the line is the one that is described, if it is accepted. -/
theorem Resolver.ofSources_of_accepts {site : CallSite} {expected : Expected}
    (henabled : config.resolver.enabled = true)
    (hreads : e.Reads config.resolver.sourceRoots site.file text)
    (hc : OnlyNamedOn (.parse text) site.method site.line c)
    (hacc : c.accepts expected = .ok true) : ofSources e config.resolver expected site =
      .ok (some (c.chain config.resolver.entryPoint site.method)) := by
  rw [ofSources, if_pos henabled, source?_of_reads hreads]
  dsimp only
  rw [Call.resolve_of_onlyNamedOn (Source.parse_wellFormed text) hc, hacc]
  rfl

/-- A check that fails raises the standard message, with the names of the expression that it was
called on, with the value and the expectation as the check words them, and with the reason. -/
theorem raised_names_own_call (r : Request α) {v : α} (reason : Option String)
    (henabled : config.resolver.enabled = true)
    (hreads : e.Reads config.resolver.sourceRoots caller.file text)
    (hc : OnlyNamedOn (.parse text) r.report.method caller.line c)
    (hwritten : r.report.Written c.arguments) (hfails : r.report.Fails v) :
    r.raised ⟨v, .ofConfig e config, reason⟩ caller =
      some (.failed (standardFormatter config.formatter.maxLength
        ⟨some (c.chain config.resolver.entryPoint r.report.method), r.report.actual v,
          r.report.wording, reason⟩)) := by
  have hname : Resolver.ofSources e config.resolver r.check.expected
      (caller.site r.check.method) = _ :=
    Resolver.ofSources_of_accepts henabled hreads (by rwa [r.method_eq])
      (Request.accepts_of_written hwritten)
  rw [Request.raised_of_fails hfails, Subject.failure, AssertionContext.failureMessage]
  dsimp only [AssertionContext.ofConfig]
  rw [hname, r.method_eq, r.wording_eq, Request.actual_eq hfails]
  rfl

/-- A source with one check, on its second line. -/
def totalSource : String := "fn t() \x7b\n    order_total.should().be(42);\n\x7d\n"

/-- The only file is that source. -/
def totalFile : Environment where
  entry path := if path = "/t.rs" then .file totalSource.toUTF8 else .none .missing
  currentDirectory := none
  settings := []
  home := none

theorem reads_totalFile : totalFile.Reads [] "/t.rs" totalSource := by
  have hplaces : placesOf totalFile [] "/t.rs" = ["/t.rs"] := by decide
  refine ⟨"/t.rs", ?_, ?_⟩
  · rw [locate, hplaces]
    simp [totalFile, Entry.isFile]
  · rw [Environment.read]
    simp only [totalFile, if_true, Entry.text_file]

/-- The call of the source. -/
def totalCall? : Option Candidate :=
  ((Source.parse totalSource).root.preorder[10]?).bind (Candidate.ofTree? "be")

theorem exists_totalCall : ∃ c, totalCall? = some c ∧ OnlyNamedOn (.parse totalSource) "be" 2 c := by
  obtain ⟨c, hi, hc⟩ := Call.exists_onlyNamedOn (Source.parse_wellFormed totalSource)
    (by decide : Call.IsMethodName "be") 10 1 (by decide +kernel) (by decide +kernel)
  refine ⟨c, ?_, hc⟩
  obtain ⟨-, name, hcalls, -⟩ := hc.1
  rw [totalCall?, hi, Option.bind_some, hcalls.ofTree?_eq]

theorem raised_names_own_call_total : ∃ c,
    totalFile.Reads [] "/t.rs" totalSource ∧ OnlyNamedOn (.parse totalSource) "be" 2 c ∧
    Writes [.int 42] c.arguments ∧ (Request.be (42 : Int)).report.Fails 41 ∧
    (Request.be (42 : Int)).raised ⟨41, .ofConfig totalFile {}, none⟩ ⟨"/t.rs", 2, "t"⟩ =
      some (.failed "order_total\nis 41\nbut was expected\nto be 42") := by
  obtain ⟨c, hfound, hc⟩ := exists_totalCall
  have harguments : totalCall?.map (·.arguments.map fun t => (t.kind, t.token?.map Token.text)) =
      some [(.integer, some "42")] := by
    decide +kernel
  have hchain : totalCall?.map (·.chain "should" "be") = some "order_total" := by
    decide +kernel
  rw [hfound, Option.map_some, Option.some_inj] at harguments hchain
  have hwrites : Writes [.int 42] c.arguments := by
    obtain ⟨t, ht, htoken⟩ := List.map_eq_singleton_iff.mp harguments
    obtain ⟨hkind, htext⟩ := Prod.mk.inj htoken
    obtain ⟨token, htoken, htext⟩ := Option.map_eq_some_iff.mp htext
    rw [ht, Tree.eq_leaf_of_token? htoken, hkind]
    exact .cons (Or.inr (.natural (n := 42) htext (by decide))) .nil
  have hfails : (Request.be (42 : Int)).report.Fails 41 := by
    show ((41 : Int) == 42) = false
    decide
  refine ⟨c, reads_totalFile, hc, hwrites, hfails, ?_⟩
  rw [raised_names_own_call (.be (42 : Int)) none rfl reads_totalFile hc hwrites hfails]
  dsimp only [Request.report]
  rw [hchain]
  decide

end Attest
