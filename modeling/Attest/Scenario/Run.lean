/-
  Computations that have run: the events that they caused, in order, and how they ended. A panic
  ends the computation that it happens in; a second panic while a first one is on its way ends the
  whole process.
-/
namespace Attest

/-- `ε` is what a panic carries. -/
inductive Ending (ε α : Type) where
  | returned (x : α)
  | panicked (payload : ε)
  | aborted
deriving DecidableEq, Repr

/-- `ω` is the type of events. -/
structure Run (ω ε α : Type) where
  events : List ω
  ending : Ending ε α
deriving DecidableEq, Repr

namespace Run

variable {ω ε α β : Type}

def returning (x : α) : Run ω ε α := ⟨[], .returned x⟩

def panic (payload : ε) : Run ω ε α := ⟨[], .panicked payload⟩

/-- One event and nothing else. -/
def event (e : ω) : Run ω ε Unit := ⟨[e], .returned ()⟩

/-- Goes on with the value returned, if there is one. -/
def andThen (r : Run ω ε α) (next : α → Run ω ε β) : Run ω ε β :=
  match r.ending with
  | .returned x => ⟨r.events ++ (next x).events, (next x).ending⟩
  | .panicked payload => ⟨r.events, .panicked payload⟩
  | .aborted => ⟨r.events, .aborted⟩

instance : Monad (Run ω ε) where
  pure := returning
  bind := andThen

/-- Catches a panic. Nothing catches the end of the process. -/
def caught (r : Run ω ε α) : Run ω ε (Except ε α) :=
  ⟨r.events, match r.ending with
    | .returned x => .returned (.ok x)
    | .panicked payload => .returned (.error payload)
    | .aborted => .aborted⟩

/-- How two computations end of which the second runs whether or not the first returned. -/
def Ending.followedBy : Ending ε α → Ending ε Unit → Ending ε α
  | .aborted, _ => .aborted
  | first, .returned _ => first
  | .returned _, .panicked payload => .panicked payload
  | .panicked _, .panicked _ => .aborted
  | _, .aborted => .aborted

/-- Runs `last` after `r`, whether `r` returned or panicked. -/
def guardedBy (r : Run ω ε α) (last : Run ω ε Unit) : Run ω ε α :=
  match r.ending with
  | .aborted => r
  | _ => ⟨r.events ++ last.events, Ending.followedBy r.ending last.ending⟩

/-- One computation after the other. The first that panics is the last. -/
def inTurn : List (Run ω ε Unit) → Run ω ε Unit
  | [] => returning ()
  | r :: rs => r.andThen fun _ => inTurn rs

end Run

end Attest
