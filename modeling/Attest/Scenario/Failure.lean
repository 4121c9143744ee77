/-
  Failures of an act: what a panic carries, errors that are returned, and the kinds of failure
  that a scenario can expect.
-/
import Attest.Check.Subject

namespace Attest

/-- What a panic carries: a text of the program, a text made when it panicked, or any other
value. -/
inductive Payload (ξ : Type) where
  | fixed (text : String)
  | made (text : String)
  | value (x : ξ)
deriving DecidableEq, Repr

namespace Payload

variable {ξ : Type}

/-- The text of a payload that has one. -/
def message : Payload ξ → String
  | fixed s => s
  | made s => s
  | value _ => "<non-string panic payload>"

def ofCheck : CheckError → Payload ξ
  | .failed message => made message
  | .overflow cause => fixed cause.message

end Payload

/-- Errors have a message for users and a form for programmers. -/
class Fault (φ : Type) where
  message : φ → String
  render : φ → String

/-- A kind of failure: its name, and which payloads and which errors are of it. -/
structure FailureKind (ξ φ κ : Type) where
  name : String
  ofPayload? : Payload ξ → Option κ
  ofError? : φ → Option κ

/-- A failure that is not of the kind expected. -/
inductive Unexpected (ξ φ : Type) where
  | panic (payload : Payload ξ)
  | error (e : φ)
deriving DecidableEq, Repr

namespace Unexpected

variable {ξ φ : Type} [Fault φ]

/-- What is raised in its place: the same payload, or the message of the error. -/
def raised : Unexpected ξ φ → Payload ξ
  | panic payload => payload
  | error e => .made (Fault.message e)

def render : Unexpected ξ φ → String
  | panic payload => "Panic(" ++ Text.quoteString payload.message ++ ")"
  | error e => "Error(" ++ Fault.render e ++ ")"

end Unexpected

/-- How an act ended that was expected to fail with `κ`. -/
inductive Outcome (ξ φ κ ρ : Type) where
  | completed (result : ρ)
  | expected (failure : κ)
  | unexpected (failure : Unexpected ξ φ)
deriving DecidableEq, Repr

namespace Outcome

variable {ξ φ κ ρ : Type} [Fault φ]

def render (showFailure : κ → String) (showResult : ρ → String) : Outcome ξ φ κ ρ → String
  | completed result => "Completed(" ++ showResult result ++ ")"
  | expected failure => "Expected(" ++ showFailure failure ++ ")"
  | unexpected failure => "Unexpected(" ++ failure.render ++ ")"

end Outcome

namespace FailureKind

variable {ξ φ κ ρ : Type}

def ofPanic (kind : FailureKind ξ φ κ) (payload : Payload ξ) : Outcome ξ φ κ ρ :=
  match kind.ofPayload? payload with
  | some failure => .expected failure
  | none => .unexpected (.panic payload)

def ofError (kind : FailureKind ξ φ κ) (e : φ) : Outcome ξ φ κ ρ :=
  match kind.ofError? e with
  | some failure => .expected failure
  | none => .unexpected (.error e)

/-- Classifies how an act ended: with a panic, with an error, or with a result. -/
def classify (kind : FailureKind ξ φ κ) :
    Except (Payload ξ) (Except φ ρ) → Outcome ξ φ κ ρ
  | .error payload => kind.ofPanic payload
  | .ok (.error e) => kind.ofError e
  | .ok (.ok result) => .completed result

end FailureKind

end Attest
