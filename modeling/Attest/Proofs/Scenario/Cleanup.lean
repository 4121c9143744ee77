/-
  Cleanups of scenarios. `Judgement` lists the ways in which a scenario ends. To tell which cleanups
  are invoked, each announces itself by the number under which it was registered. Main statement
  (`cleanups_invoked`): whichever way a scenario ends, its cleanups are invoked behind the act and
  the assertion, the last registered first, each of them once, and each as long as all that were
  registered behind it returned; so all are invoked exactly if all but the first registered return.
-/
import Mathlib.Data.List.Induction
import Attest.Proofs.Scenario.Outcome

namespace Attest

/-! ## Cleanups in turn -/

namespace Run

variable {ω ε α β : Type}

/-- The computation ended by itself. -/
def returns (r : Run ω ε α) : Bool :=
  match r.ending with
  | .returned _ => true
  | _ => false

theorem events_andThen (r : Run ω ε Unit) (next : Run ω ε Unit) :
    (r.andThen fun _ => next).events = r.events ++ if r.returns then next.events else [] := by
  obtain ⟨events, ending⟩ := r
  cases ending <;> simp [andThen, returns]

theorem events_andThen_of_silent {r : Run ω ε α} {next : α → Run ω ε β}
    (h : ∀ x, (next x).events = []) : (r.andThen next).events = r.events := by
  obtain ⟨events, ending⟩ := r
  cases ending <;> simp [andThen, h]

theorem events_guardedBy {r : Run ω ε α} (h : r.ending ≠ .aborted) (last : Run ω ε Unit) :
    (r.guardedBy last).events = r.events ++ last.events := by
  obtain ⟨events, ending⟩ := r
  cases ending with
  | aborted => exact absurd rfl h
  | returned x => rfl
  | panicked payload => rfl

end Run

/-! ## Announced cleanups -/

/-- What is seen of a scenario whose cleanups announce themselves. -/
inductive Announced (ω : Type) where
  | cleanup (number : Nat)
  | other (e : ω)
deriving DecidableEq, Repr

namespace Announced

variable {ω ε : Type}

/-- A cleanup that tells its number before anything else. -/
def cleanupOf (number : Nat) (body : Run ω ε Unit) : Run (Announced ω) ε Unit :=
  (Run.event (.cleanup number)).andThen fun _ => ⟨body.events.map .other, body.ending⟩

/-- Cleanups in the order of their registration. -/
def cleanups (bodies : List (Run ω ε Unit)) : List (Run (Announced ω) ε Unit) :=
  bodies.mapIdx cleanupOf

/-- The cleanup that an event announces. -/
def number? : Announced ω → Option Nat
  | cleanup number => some number
  | other _ => none

/-- The cleanups that were invoked, in this order. -/
def invoked (events : List (Announced ω)) : List Nat := events.filterMap number?

theorem invoked_cleanupOf (number : Nat) (body : Run ω ε Unit) :
    invoked (cleanupOf number body).events = [number] := by
  have hnone : (number? ∘ .other : ω → Option Nat) = fun _ => none := rfl
  simp [invoked, cleanupOf, Run.andThen, Run.event, number?, hnone]

theorem returns_cleanupOf (number : Nat) (body : Run ω ε Unit) :
    (cleanupOf number body).returns = body.returns := rfl

theorem invoked_append (first second : List (Announced ω)) :
    invoked (first ++ second) = invoked first ++ invoked second :=
  List.filterMap_append

theorem cleanups_concat (bodies : List (Run ω ε Unit)) (body : Run ω ε Unit) :
    (cleanups (bodies ++ [body])).reverse =
      cleanupOf bodies.length body :: (cleanups bodies).reverse := by
  rw [cleanups, List.mapIdx_concat, List.reverse_concat, cleanups]

/-- The cleanups that are invoked: those of which all registered behind them return. -/
def reached (bodies : List (Run ω ε Unit)) : List Nat :=
  (List.range bodies.length).reverse.filter fun i => (bodies.drop (i + 1)).all (·.returns)

/-- The last cleanup is reached, and the others if it returns. -/
theorem reached_concat (bodies : List (Run ω ε Unit)) (body : Run ω ε Unit) :
    reached (bodies ++ [body]) =
      bodies.length :: if body.returns then reached bodies else [] := by
  have hbehind : ∀ i ∈ (List.range bodies.length).reverse,
      ((bodies ++ [body]).drop (i + 1)).all (·.returns) =
        ((bodies.drop (i + 1)).all (·.returns) && body.returns) := by
    intro i hi
    have hlt : i < bodies.length := List.mem_range.mp (List.mem_reverse.mp hi)
    rw [List.drop_append_of_le_length hlt, List.all_append]
    simp
  rw [reached, List.length_append, List.length_singleton, List.range_succ, List.reverse_concat,
    List.filter_cons_of_pos (by simp), List.filter_congr hbehind]
  cases body.returns <;> simp [reached]

theorem invoked_inTurn (bodies : List (Run ω ε Unit)) :
    invoked (Run.inTurn (cleanups bodies).reverse).events = reached bodies := by
  -- The cleanup registered last runs first, so the list is taken apart at its end.
  induction bodies using List.reverseRecOn with
  | nil => rfl
  | append_singleton bodies body ih =>
    rw [cleanups_concat, Run.inTurn, Run.events_andThen, invoked_append, invoked_cleanupOf,
      returns_cleanupOf, reached_concat]
    cases body.returns with
    | false => rfl
    | true => exact congrArg (bodies.length :: ·) ih

theorem reached_eq_iff (bodies : List (Run ω ε Unit)) :
    reached bodies = (List.range bodies.length).reverse ↔ ∀ body ∈ bodies.tail, body.returns := by
  simp only [reached, List.filter_eq_self, List.mem_reverse, List.mem_range, List.all_eq_true]
  constructor
  · -- The first one is reached only behind all the others.
    intro h body hbody
    have hpos : 0 < bodies.length := by
      cases bodies with
      | nil => simp at hbody
      | cons _ _ => exact Nat.succ_pos _
    exact h 0 hpos body (by rwa [List.drop_one])
  · intro h i _ body hbody
    rw [← List.drop_tail] at hbody
    exact h body (List.mem_of_mem_drop hbody)

end Announced

/-! ## The ways in which a scenario ends -/

/-- A scenario is dropped, or its act is run and judged. -/
inductive Judgement (ω ξ γ φ κ ρ : Type) : Type → Type
  | discard : Judgement ω ξ γ φ κ ρ Unit
  | assert (act : γ → Run ω (Payload ξ) ρ)
      (assertion : ρ → AssertionContext → Run ω (Payload ξ) Unit) : Judgement ω ξ γ φ κ ρ Unit
  | outcome (kind : FailureKind ξ φ κ) (act : γ → Run ω (Payload ξ) ρ) :
      Judgement ω ξ γ φ κ ρ (Outcome ξ φ κ ρ)
  | fallibleOutcome (kind : FailureKind ξ φ κ) (act : γ → Run ω (Payload ξ) (Except φ ρ)) :
      Judgement ω ξ γ φ κ ρ (Outcome ξ φ κ ρ)
  | catchPanic (kind : FailureKind ξ φ κ) (act : γ → Run ω (Payload ξ) ρ) :
      Judgement ω ξ γ φ κ ρ κ
  | catchFailure (kind : FailureKind ξ φ κ) (act : γ → Run ω (Payload ξ) (Except φ ρ)) :
      Judgement ω ξ γ φ κ ρ κ

namespace Judgement

variable {ω ξ γ φ κ ρ α : Type}

/-- What runs before the cleanups: the act, and behind it the assertion. -/
def before (c : AssertionContext) (state : γ) :
    Judgement ω ξ γ φ κ ρ α → Run ω (Payload ξ) Unit
  | discard => .returning ()
  | assert act assertion => (act state).andThen fun result => assertion result c
  | outcome _ act => (act state).andThen fun _ => .returning ()
  | fallibleOutcome _ act => (act state).andThen fun _ => .returning ()
  | catchPanic _ act => (act state).andThen fun _ => .returning ()
  | catchFailure _ act => (act state).andThen fun _ => .returning ()

theorem events_fallibleOutcome {s : Scenario ω ξ γ} (kind : FailureKind ξ φ κ)
    {act : γ → Run ω (Payload ξ) (Except φ ρ)} (h : (act s.arranged).ending ≠ .aborted) :
    (s.fallibleOutcome kind act).events =
      (act s.arranged).events ++ (Run.inTurn s.cleanups.reverse).events := by
  obtain ⟨ended, -, hcaught⟩ := Run.exists_caught h
  rw [Scenario.fallibleOutcome, hcaught, Run.andThen_returning]
  exact Run.events_guardedBy (by simp [Ending.map]) _

variable [Shown ρ] [Fault φ]

theorem events_judge (c : AssertionContext) (kind : FailureKind ξ φ κ) (o : Outcome ξ φ κ ρ) :
    (Scenario.judge c kind o : Run ω (Payload ξ) κ).events = [] := by
  obtain ⟨e, -, hjudge⟩ := exists_judged ω c kind o
  rw [hjudge]

theorem events_catchFailure (s : Scenario ω ξ γ) (common : AssertionContext)
    (kind : FailureKind ξ φ κ) (act : γ → Run ω (Payload ξ) (Except φ ρ)) :
    (s.catchFailure common kind act).events = (s.fallibleOutcome kind act).events :=
  Run.events_andThen_of_silent (events_judge _ _)

/-- Ends the scenario. -/
def run (s : Scenario ω ξ γ) (common : AssertionContext) :
    Judgement ω ξ γ φ κ ρ α → Run ω (Payload ξ) α
  | discard => s.discard
  | assert act assertion => s.assert common act assertion
  | outcome kind act => s.outcome kind act
  | fallibleOutcome kind act => s.fallibleOutcome kind act
  | catchPanic kind act => s.catchPanic common kind act
  | catchFailure kind act => s.catchFailure common kind act

theorem events_run (j : Judgement ω ξ γ φ κ ρ α) {s : Scenario ω ξ γ} {common : AssertionContext}
    (h : (j.before (s.context.getD common) s.arranged).ending ≠ .aborted) :
    (j.run s common).events = (j.before (s.context.getD common) s.arranged).events ++
      (Run.inTurn s.cleanups.reverse).events := by
  cases j with
  | discard => exact Run.events_guardedBy h _
  | assert act assertion => exact Run.events_guardedBy h _
  | outcome kind act =>
    rw [before, (act s.arranged).andThen_returning fun _ => ()] at h ⊢
    rw [run, Scenario.outcome_eq]
    exact events_fallibleOutcome kind (by simpa [Scenario.faultless] using h)
  | fallibleOutcome kind act =>
    rw [before, (act s.arranged).andThen_returning fun _ => ()] at h ⊢
    exact events_fallibleOutcome kind (by simpa using h)
  | catchPanic kind act =>
    rw [before, (act s.arranged).andThen_returning fun _ => ()] at h ⊢
    rw [run, Scenario.catchPanic_eq, events_catchFailure]
    exact events_fallibleOutcome kind (by simpa [Scenario.faultless] using h)
  | catchFailure kind act =>
    rw [before, (act s.arranged).andThen_returning fun _ => ()] at h ⊢
    rw [run, events_catchFailure]
    exact events_fallibleOutcome kind (by simpa using h)

end Judgement

/-! ## Which cleanups are invoked -/

variable {ω ξ γ φ κ ρ α : Type}

/-- A scenario and the cleanups that are registered for it, one after the other. -/
def Scenario.registering (state : γ) (context : Option AssertionContext)
    (cleanups : List (Run ω (Payload ξ) Unit)) : Scenario ω ξ γ :=
  cleanups.foldl Scenario.cleanup ⟨state, context, []⟩

theorem Scenario.registering_eq (state : γ) (context : Option AssertionContext)
    (cleanups : List (Run ω (Payload ξ) Unit)) :
    registering state context cleanups = ⟨state, context, cleanups⟩ := by
  induction cleanups using List.reverseRecOn with
  | nil => rfl
  | append_singleton cleanups c ih =>
    rw [registering, List.foldl_append, ← registering, ih]
    rfl

variable [Shown ρ] [Fault φ]

/-- The events behind those of the act and the assertion are `after`. -/
theorem cleanups_invoked (state : γ) (context : Option AssertionContext)
    (bodies : List (Run ω (Payload ξ) Unit)) (common : AssertionContext)
    (j : Judgement (Announced ω) ξ γ φ κ ρ α)
    (hended : (j.before (context.getD common) state).ending ≠ .aborted) :
    ∃ after, (j.run (.registering state context (Announced.cleanups bodies)) common).events =
        (j.before (context.getD common) state).events ++ after ∧
      Announced.invoked after = Announced.reached bodies ∧
      (Announced.invoked after = (List.range bodies.length).reverse ↔
        ∀ body ∈ bodies.tail, body.returns) := by
  rw [Scenario.registering_eq]
  refine ⟨_, j.events_run hended, Announced.invoked_inTurn bodies, ?_⟩
  rw [Announced.invoked_inTurn]
  exact Announced.reached_eq_iff bodies

/-- An act and an assertion that both return. -/
def quietAssertion : Judgement (Announced String) Int Int Empty Int Int Unit :=
  .assert (fun state => ⟨[.other "act"], .returned state⟩) fun _ _ => .event (.other "assert")

/-- The cleanup that is registered first panics. It is the last to be invoked. -/
def panicInFirst : List (Run String (Payload Int) Unit) :=
  [.panic (.made "first"), .returning (), .returning ()]

theorem cleanups_invoked_panicInFirst :
    (quietAssertion.before ⟨.null, standardFormatter 200⟩ 1).ending ≠ .aborted ∧
    ∃ after, (quietAssertion.run (.registering 1 none (Announced.cleanups panicInFirst))
        ⟨.null, standardFormatter 200⟩).events = [.other "act", .other "assert"] ++ after ∧
      Announced.invoked after = [2, 1, 0] := by
  have hended : (quietAssertion.before ⟨.null, standardFormatter 200⟩ 1).ending ≠ .aborted := by
    decide
  obtain ⟨after, hevents, -, hall⟩ :=
    cleanups_invoked 1 none panicInFirst ⟨.null, standardFormatter 200⟩ quietAssertion hended
  exact ⟨hended, after, hevents, hall.mpr (by decide)⟩

/-- A cleanup between two others panics. -/
def panicInSecond : List (Run String (Payload Int) Unit) :=
  [.returning (), .panic (.made "second"), .returning ()]

/-- An act that returns, so that nothing unwinds when the cleanups start. -/
def quietOutcome : Judgement (Announced String) Int Int Empty Int Int (Outcome Int Empty Int Int) :=
  .outcome Scenario.numberKind fun state => ⟨[.other "act"], .returned state⟩

/-- The cleanup registered first is never invoked, and the panic goes on. -/
theorem earlier_cleanup_left_out :
    quietOutcome.run (.registering 1 none (Announced.cleanups panicInSecond))
        ⟨.null, standardFormatter 200⟩ =
      ⟨[.other "act", .cleanup 2, .cleanup 1], .panicked (.made "second")⟩ ∧
    Announced.invoked [.other "act", .cleanup 2, .cleanup 1] ≠
      (List.range panicInSecond.length).reverse := by
  decide

end Attest
