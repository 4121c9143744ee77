/-
  Verdicts of checks. Whether a check passes, and what it then hands back, is settled before anyone
  is asked for a name; a name adds a line in front of the message of a failure and changes nothing
  else. To say who is asked, checks are written once more for any way of asking
  (`Request.madeAsking`), of which the checks themselves are the one that only asks
  (`made_eq_recorded`). Main statement (`verdict_without_names`): under the standard messages two
  resolvers make the same check pass with the same value and without being asked, or fail with
  messages that differ in the leading line of the context alone; which of the two depends on the
  value.
-/
import Attest.Proofs.Check.Report

namespace Attest

/-! ## Checks that ask in any way -/

/-- A way of asking for names. What happens besides is up to `m`. -/
abbrev Asking (m : Type → Type) := Expected → CallSite → m (Option String)

namespace Subject

variable {α : Type} {m : Type → Type} [Monad m]

/-- The message of a failed check, with the name that is answered. -/
def messageAsking (s : Subject α) (ask : Asking m) (caller : Caller) (c : Check α) : m String := do
  let name ← ask c.expected (caller.site c.method)
  return s.context.formatter ⟨name, c.actual s.value, c.wording, s.reason⟩

def verifyAsking (s : Subject α) (ask : Asking m) (caller : Caller) (c : Check α) :
    m (Except String α) :=
  if c.passes s.value then return .ok s.value
  else return .error (← s.messageAsking ask caller c)

/-- The value inside an option, as the option that holds it. -/
def innerAsking [Shown α] (s : Subject (Option α)) (ask : Asking m) (caller : Caller) :
    m (Except String (Option α)) :=
  match s.value with
  | some x => return .ok (some x)
  | none => return .error (← s.messageAsking ask caller .beSome)

end Subject

namespace Request

variable {α : Type}

/-- What comes of the check: the value handed back or what is raised. The check for presence hands
back the value inside, which is told here as the option that holds it. -/
def made : {α : Type} → Request α → Subject α → Caller → Except CheckError α
  | _, beSome, s, caller => (s.inner caller).map some
  | _, r, s, caller => s.verify caller r.check

def madeAsking {m : Type → Type} [Monad m] :
    {α : Type} → Request α → Subject α → Asking m → Caller → m (Except String α)
  | _, beSome, s, ask, caller => s.innerAsking ask caller
  | _, r, s, ask, caller => s.verifyAsking ask caller r.check

end Request

/-! ## Who is asked -/

/-- Asks a resolver, and keeps a list of what it was asked. -/
def Resolver.recording (r : Resolver) :
    Asking (ExceptT Call.Overflow (StateM (List (Expected × CallSite)))) := fun expected site => do
  modify (· ++ [(expected, site)])
  liftExcept (r expected site)

namespace Request

variable {α : Type}

/-- The check with the resolver of its subject, and all that the resolver is asked. -/
def recorded (r : Request α) (s : Subject α) (caller : Caller) :
    Except Call.Overflow (Except String α) × List (Expected × CallSite) :=
  (r.madeAsking s s.context.resolver.recording caller).run.run []

/-- What the resolver is asked. -/
def consulted (r : Request α) (s : Subject α) (caller : Caller) : List (Expected × CallSite) :=
  (r.recorded s caller).2

/-- A check that could not read a source raises that, any other its message or nothing. -/
def settled : Except Call.Overflow (Except String α) → Except CheckError α
  | .error cause => .error (.overflow cause)
  | .ok (.error message) => .error (.failed message)
  | .ok (.ok x) => .ok x

variable {s : Subject α} {r : Request α}

theorem passes_iff (r : Request α) (v : α) : r.check.passes v = true ↔ ¬ r.report.Fails v := by
  rw [← r.passes_eq_false_iff, Bool.not_eq_false]

/-- The check for presence takes a way of its own, and comes to the same. -/
theorem made_eq_verify (r : Request α) (s : Subject α) (caller : Caller) :
    r.made s caller = s.verify caller r.check := by
  cases r
  case beSome =>
    obtain ⟨v, context, reason⟩ := s
    cases v <;> rfl
  all_goals rfl

section Asking

variable {m : Type → Type} [Monad m]

theorem madeAsking_eq_verifyAsking (r : Request α) (s : Subject α) (ask : Asking m)
    (caller : Caller) : r.madeAsking s ask caller = s.verifyAsking ask caller r.check := by
  cases r
  case beSome =>
    obtain ⟨v, context, reason⟩ := s
    cases v <;> rfl
  all_goals rfl

/-- A check that passes asks nobody, whatever asking is. -/
theorem madeAsking_of_passes (h : ¬ r.report.Fails s.value) (ask : Asking m) (caller : Caller) :
    r.madeAsking s ask caller = pure (.ok s.value) :=
  (r.madeAsking_eq_verifyAsking s ask caller).trans (if_pos ((r.passes_iff _).mpr h))

/-- A check that fails asks once, for what it expected at its own place. -/
theorem madeAsking_of_fails (h : r.report.Fails s.value) (ask : Asking m) (caller : Caller) :
    r.madeAsking s ask caller = do return .error (← s.messageAsking ask caller r.check) :=
  (r.madeAsking_eq_verifyAsking s ask caller).trans (if_neg fun hpasses =>
    (r.passes_iff _).mp hpasses h)

end Asking

theorem recorded_of_passes (h : ¬ r.report.Fails s.value) (caller : Caller) :
    r.recorded s caller = (.ok (.ok s.value), []) := by
  rw [recorded, madeAsking_of_passes h]
  rfl

theorem recorded_of_fails (h : r.report.Fails s.value) (caller : Caller) :
    r.recorded s caller = ((s.context.resolver r.check.expected (caller.site r.check.method)).map
        fun name => .error (s.context.formatter
          ⟨name, r.check.actual s.value, r.check.wording, s.reason⟩),
      [(r.check.expected, caller.site r.check.method)]) := by
  rw [recorded, madeAsking_of_fails h]
  simp only [Subject.messageAsking, Resolver.recording]
  cases s.context.resolver r.check.expected (caller.site r.check.method) <;> rfl

/-- Keeping the list changes nothing. -/
theorem made_eq_recorded (r : Request α) (s : Subject α) (caller : Caller) :
    r.made s caller = settled (r.recorded s caller).1 := by
  rw [made_eq_verify, Subject.verify]
  by_cases h : r.report.Fails s.value
  · rw [if_neg fun hpasses => (r.passes_iff _).mp hpasses h, recorded_of_fails h, Subject.failure,
      AssertionContext.failureMessage]
    cases s.context.resolver r.check.expected (caller.site r.check.method) <;> rfl
  · rw [if_pos ((r.passes_iff _).mpr h), recorded_of_passes h]
    rfl

end Request

/-! ## The line of the context -/

/-- What stands in front of a message for a name: a line of its own, if there is a name and it is
not empty. -/
def contextLine : Option String → String
  | none => ""
  | some name => if name = "" then "" else name ++ "\n"

theorem intercalate_shown (name : Option String) (line : String) (lines : List String) :
    String.intercalate "\n" ((shown name).toList ++ line :: lines) =
      contextLine name ++ String.intercalate "\n" (line :: lines) := by
  cases name with
  | none => exact (String.empty_append ..).symm
  | some name =>
    by_cases h : name = ""
    · subst h
      exact (String.empty_append ..).symm
    · have hshown : shown (some name) = some name := by simp [shown, h]
      have hline : contextLine (some name) = name ++ "\n" := if_neg h
      rw [hshown, hline, Option.toList_some, List.singleton_append, String.intercalate_cons_cons]

/-- The name has the first line, and the others do not depend on it. -/
theorem standardFormatter_eq (limit : Nat) (name : Option String) (actual wording : String)
    (reason : Option String) : standardFormatter limit ⟨name, actual, wording, reason⟩ =
      contextLine name ++ standardFormatter limit ⟨none, actual, wording, reason⟩ := by
  rw [standardFormatter, Failure.lines, List.append_assoc]
  exact intercalate_shown name _ _

/-! ## Two resolvers -/

variable {α : Type}

theorem Request.made_of_passes {r : Request α} {s : Subject α} (h : ¬ r.report.Fails s.value)
    (caller : Caller) : r.made s caller = .ok s.value ∧ r.consulted s caller = [] := by
  rw [r.made_eq_recorded, Request.consulted, Request.recorded_of_passes h]
  exact ⟨rfl, rfl⟩

theorem Request.made_of_fails {r : Request α} {v : α} (h : r.report.Fails v) (reason : Option String)
    (caller : Caller) (limit : Nat) (name : Expected → CallSite → Option String) :
    r.made ⟨v, ⟨.total name, standardFormatter limit⟩, reason⟩ caller =
        .error (.failed (contextLine (name r.check.expected (caller.site r.report.method)) ++
          standardFormatter limit ⟨none, r.report.actual v, r.report.wording, reason⟩)) ∧
      r.consulted ⟨v, ⟨.total name, standardFormatter limit⟩, reason⟩ caller =
        [(r.check.expected, caller.site r.report.method)] := by
  have hrecorded := Request.recorded_of_fails (r := r)
    (s := ⟨v, ⟨.total name, standardFormatter limit⟩, reason⟩) h caller
  rw [r.made_eq_recorded, Request.consulted, hrecorded, ← standardFormatter_eq, ← r.method_eq,
    ← r.wording_eq, ← Request.actual_eq h]
  exact ⟨rfl, rfl⟩

/-- Keeping a list of what a resolver is asked changes no check. A value that does not fail the
check is handed back, and neither of two resolvers is asked; for one that fails it each of them is
asked once, and the messages are the same behind the line of the context. -/
theorem verdict_without_names (r : Request α) (v : α) (reason : Option String) (caller : Caller)
    (limit : Nat) (name₁ name₂ : Expected → CallSite → Option String) :
    (∀ s, r.made s caller = Request.settled (r.recorded s caller).1) ∧
    let s₁ : Subject α := ⟨v, ⟨.total name₁, standardFormatter limit⟩, reason⟩
    let s₂ : Subject α := ⟨v, ⟨.total name₂, standardFormatter limit⟩, reason⟩
    let expected := r.check.expected
    let site := caller.site r.report.method
    let rest := standardFormatter limit ⟨none, r.report.actual v, r.report.wording, reason⟩
    (¬ r.report.Fails v ∧
      (r.made s₁ caller = .ok v ∧ r.consulted s₁ caller = []) ∧
      (r.made s₂ caller = .ok v ∧ r.consulted s₂ caller = [])) ∨
    (r.report.Fails v ∧
      (r.made s₁ caller = .error (.failed (contextLine (name₁ expected site) ++ rest)) ∧
        r.consulted s₁ caller = [(expected, site)]) ∧
      (r.made s₂ caller = .error (.failed (contextLine (name₂ expected site) ++ rest)) ∧
        r.consulted s₂ caller = [(expected, site)])) := by
  refine ⟨fun s => r.made_eq_recorded s caller, ?_⟩
  by_cases h : r.report.Fails v
  · exact Or.inr ⟨h, Request.made_of_fails h reason caller limit name₁,
      Request.made_of_fails h reason caller limit name₂⟩
  · exact Or.inl ⟨h, Request.made_of_passes h caller, Request.made_of_passes h caller⟩

end Attest
