/-
  Scenarios: a state is arranged, an act runs on it, and the act is judged. Cleanups run when the
  act or the assertion is over, whatever happened, the last one registered first; one that panics
  keeps the others from running.
-/
import Attest.Overrides
import Attest.Scenario.Failure
import Attest.Scenario.Run

namespace Attest

structure Scenario (ω ξ γ : Type) where
  arranged : γ
  context : Option AssertionContext := none
  cleanups : List (Run ω (Payload ξ) Unit) := []

/-- Arranges the state. Nothing can be registered before that. -/
def given {ω ξ γ : Type} (arrange : Run ω (Payload ξ) γ) :
    Run ω (Payload ξ) (Scenario ω ξ γ) :=
  arrange.andThen fun state => .returning ⟨state, none, []⟩

namespace Scenario

variable {ω ξ γ φ κ ρ : Type}

def withContext (s : Scenario ω ξ γ) (c : AssertionContext) : Scenario ω ξ γ :=
  { s with context := some c }

/-- The context that is bound for a test. -/
def withOverrides (s : Scenario ω ξ γ) (o : Overrides) (test : String) : Scenario ω ξ γ :=
  s.withContext (o.contextFor test)

/-- Registers a cleanup. -/
def cleanup (s : Scenario ω ξ γ) (c : Run ω (Payload ξ) Unit) : Scenario ω ξ γ :=
  { s with cleanups := s.cleanups ++ [c] }

/-- Runs something, and then the cleanups. -/
def guarded {α : Type} (s : Scenario ω ξ γ) (r : Run ω (Payload ξ) α) : Run ω (Payload ξ) α :=
  r.guardedBy (.inTurn s.cleanups.reverse)

/-- A scenario that is never judged still cleans up. -/
def discard (s : Scenario ω ξ γ) : Run ω (Payload ξ) Unit := s.guarded (.returning ())

/-- Runs the act and hands its result to the assertion. `common` is the context of scenarios that
have none of their own. -/
def assert (s : Scenario ω ξ γ) (common : AssertionContext) (act : γ → Run ω (Payload ξ) ρ)
    (assertion : ρ → AssertionContext → Run ω (Payload ξ) Unit) : Run ω (Payload ξ) Unit :=
  s.guarded ((act s.arranged).andThen fun result => assertion result (s.context.getD common))

/-- Runs an act that may return an error, and classifies how it ended. -/
def fallibleOutcome (s : Scenario ω ξ γ) (kind : FailureKind ξ φ κ)
    (act : γ → Run ω (Payload ξ) (Except φ ρ)) : Run ω (Payload ξ) (Outcome ξ φ κ ρ) :=
  s.guarded ((act s.arranged).caught.andThen fun ended => .returning (kind.classify ended))

/-- Runs an act that returns no errors, and classifies how it ended. -/
def outcome (s : Scenario ω ξ γ) (kind : FailureKind ξ φ κ) (act : γ → Run ω (Payload ξ) ρ) :
    Run ω (Payload ξ) (Outcome ξ φ κ ρ) :=
  s.fallibleOutcome kind fun state => (act state).andThen fun result => .returning (.ok result)

variable [Shown ρ] [Fault φ]

/-- What is said about an act that should have failed. There is nothing to name. -/
def completedMessage (c : AssertionContext) (kind : FailureKind ξ φ κ) (result : ρ) : String :=
  c.formatter ⟨none, "completed with " ++ Shown.render result, "to fail with " ++ kind.name, none⟩

/-- The failure that was expected. Any other goes on unchanged, and none is a failure itself. -/
def judge (c : AssertionContext) (kind : FailureKind ξ φ κ) :
    Outcome ξ φ κ ρ → Run ω (Payload ξ) κ
  | .expected failure => .returning failure
  | .unexpected failure => .panic failure.raised
  | .completed result => .panic (.made (completedMessage c kind result))

/-- Expects the act to panic with a payload of the kind. -/
def catchPanic (s : Scenario ω ξ γ) (common : AssertionContext) (kind : FailureKind ξ φ κ)
    (act : γ → Run ω (Payload ξ) ρ) : Run ω (Payload ξ) κ :=
  (s.outcome kind act).andThen (judge (s.context.getD common) kind)

/-- Expects the act to return an error, or to panic with a payload, of the kind. -/
def catchFailure (s : Scenario ω ξ γ) (common : AssertionContext) (kind : FailureKind ξ φ κ)
    (act : γ → Run ω (Payload ξ) (Except φ ρ)) : Run ω (Payload ξ) κ :=
  (s.fallibleOutcome kind act).andThen (judge (s.context.getD common) kind)

end Scenario

end Attest
