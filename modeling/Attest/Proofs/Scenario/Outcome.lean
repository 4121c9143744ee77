/-
  Outcomes of scenarios. `Classified` says what the ending of an act counts as when a kind of
  failure is expected, and `Judged` what becomes of that where the scenario judges itself. Main
  statement (`act_settled_after_cleanups`): the act runs first and once, the assertion behind it
  only if the act returned, then the cleanups from the last registered to the first, and only then
  does the caller get what the ending of the act comes to.
-/
import Attest.Scenario

namespace Attest

/-! ## Runs one after the other -/

/-- The ending of a computation that has been caught. -/
def Ending.ofCaught {ε α : Type} : Except ε α → Ending ε α
  | .ok x => .returned x
  | .error payload => .panicked payload

/-- The same ending with another value. -/
def Ending.map {ε α β : Type} (f : α → β) : Ending ε α → Ending ε β
  | .returned x => .returned (f x)
  | .panicked payload => .panicked payload
  | .aborted => .aborted

@[simp] theorem Ending.map_eq_aborted_iff {ε α β : Type} {f : α → β} {e : Ending ε α} :
    e.map f = .aborted ↔ e = .aborted := by
  cases e <;> simp [Ending.map]

namespace Run

variable {ω ε α β : Type} {r : Run ω ε α} {next : α → Run ω ε β}

theorem andThen_of_returned {x : α} (h : r.ending = .returned x) :
    r.andThen next = ⟨r.events ++ (next x).events, (next x).ending⟩ := by
  rw [andThen, h]

theorem andThen_of_panicked {payload : ε} (h : r.ending = .panicked payload) :
    r.andThen next = ⟨r.events, .panicked payload⟩ := by
  rw [andThen, h]

theorem andThen_returning (r : Run ω ε α) (f : α → β) :
    r.andThen (fun x => returning (f x)) = ⟨r.events, r.ending.map f⟩ := by
  obtain ⟨events, ending⟩ := r
  cases ending with
  | returned x => rw [andThen_of_returned rfl, returning, List.append_nil]; rfl
  | panicked payload => rfl
  | aborted => rfl

/-- Everything but the end of the process is caught. -/
theorem exists_caught (h : r.ending ≠ .aborted) :
    ∃ ended, r.ending = .ofCaught ended ∧ r.caught = ⟨r.events, .returned ended⟩ := by
  obtain ⟨events, ending⟩ := r
  cases ending with
  | returned x => exact ⟨.ok x, rfl, rfl⟩
  | panicked payload => exact ⟨.error payload, rfl, rfl⟩
  | aborted => exact absurd rfl h

theorem guardedBy_of_returned {last : Run ω ε Unit} (h : r.ending ≠ .aborted)
    (hlast : last.ending = .returned ()) :
    r.guardedBy last = ⟨r.events ++ last.events, r.ending⟩ := by
  obtain ⟨events, ending⟩ := r
  cases ending with
  | returned x => rw [guardedBy, hlast]; rfl
  | panicked payload => rw [guardedBy, hlast]; rfl
  | aborted => exact absurd rfl h

theorem inTurn_of_returned {rs : List (Run ω ε Unit)} (h : ∀ r ∈ rs, r.ending = .returned ()) :
    inTurn rs = ⟨rs.flatMap (·.events), .returned ()⟩ := by
  induction rs with
  | nil => rfl
  | cons r rs ih =>
    rw [List.forall_mem_cons] at h
    rw [inTurn, andThen_of_returned h.1, ih h.2, List.flatMap_cons]

end Run

/-! ## What an ending comes to -/

section Kinds

variable {ξ φ κ ρ : Type}

/-- What the ending of an act counts as: a result, a failure of the kind, or another failure, which
is kept as it is. -/
inductive Classified (kind : FailureKind ξ φ κ) :
    Ending (Payload ξ) (Except φ ρ) → Outcome ξ φ κ ρ → Prop
  | completed (result : ρ) : Classified kind (.returned (.ok result)) (.completed result)
  | expectedError {e : φ} {failure : κ} (h : kind.ofError? e = some failure) :
      Classified kind (.returned (.error e)) (.expected failure)
  | unexpectedError {e : φ} (h : kind.ofError? e = none) :
      Classified kind (.returned (.error e)) (.unexpected (.error e))
  | expectedPanic {payload : Payload ξ} {failure : κ} (h : kind.ofPayload? payload = some failure) :
      Classified kind (.panicked payload) (.expected failure)
  | unexpectedPanic {payload : Payload ξ} (h : kind.ofPayload? payload = none) :
      Classified kind (.panicked payload) (.unexpected (.panic payload))

theorem classified_classify (kind : FailureKind ξ φ κ)
    (ended : Except (Payload ξ) (Except φ ρ)) :
    Classified kind (.ofCaught ended) (kind.classify ended) := by
  rcases ended with payload | e | result
  · cases h : kind.ofPayload? payload with
    | none => simpa [FailureKind.classify, FailureKind.ofPanic, h] using .unexpectedPanic h
    | some failure => simpa [FailureKind.classify, FailureKind.ofPanic, h] using .expectedPanic h
  · cases h : kind.ofError? e with
    | none => simpa [FailureKind.classify, FailureKind.ofError, h] using .unexpectedError h
    | some failure => simpa [FailureKind.classify, FailureKind.ofError, h] using .expectedError h
  · exact .completed result

variable [Shown ρ] [Fault φ]

/-- What a scenario that judges itself ends with: the failure that was expected, the panic or the
message of another one, or the message that there was none. That message names nothing. -/
inductive Judged (c : AssertionContext) (kind : FailureKind ξ φ κ) :
    Outcome ξ φ κ ρ → Ending (Payload ξ) κ → Prop
  | expected (failure : κ) : Judged c kind (.expected failure) (.returned failure)
  | panic (payload : Payload ξ) : Judged c kind (.unexpected (.panic payload)) (.panicked payload)
  | error (e : φ) : Judged c kind (.unexpected (.error e)) (.panicked (.made (Fault.message e)))
  | completed (result : ρ) : Judged c kind (.completed result) (.panicked (.made (c.formatter
      ⟨none, "completed with " ++ Shown.render result, "to fail with " ++ kind.name, none⟩)))

theorem exists_judged (ω : Type) (c : AssertionContext) (kind : FailureKind ξ φ κ)
    (o : Outcome ξ φ κ ρ) : ∃ e, Judged c kind o e ∧
      (Scenario.judge c kind o : Run ω (Payload ξ) κ) = ⟨[], e⟩ := by
  rcases o with result | failure | payload | e
  · exact ⟨_, .completed result, rfl⟩
  · exact ⟨_, .expected failure, rfl⟩
  · exact ⟨_, .panic payload, rfl⟩
  · exact ⟨_, .error e, rfl⟩

end Kinds

/-! ## Whole scenarios -/

namespace Scenario

variable {ω ξ γ φ κ ρ : Type} {s : Scenario ω ξ γ}

/-- The events of the cleanups, from the last registered to the first. -/
def cleaning (s : Scenario ω ξ γ) : List ω := s.cleanups.reverse.flatMap (·.events)

theorem guarded_of_returned {α : Type} {r : Run ω (Payload ξ) α}
    (hquiet : ∀ c ∈ s.cleanups, c.ending = .returned ()) (h : r.ending ≠ .aborted) :
    s.guarded r = ⟨r.events ++ s.cleaning, r.ending⟩ := by
  have hcleanups : Run.inTurn s.cleanups.reverse = ⟨s.cleaning, .returned ()⟩ :=
    Run.inTurn_of_returned (by simpa using hquiet)
  rw [guarded, hcleanups, Run.guardedBy_of_returned h rfl]

/-- An act that cannot return errors, as one that may and does not. -/
def faultless (act : γ → Run ω (Payload ξ) ρ) : γ → Run ω (Payload ξ) (Except φ ρ) := fun state =>
  ⟨(act state).events, (act state).ending.map .ok⟩

theorem outcome_eq (s : Scenario ω ξ γ) (kind : FailureKind ξ φ κ)
    (act : γ → Run ω (Payload ξ) ρ) : s.outcome kind act = s.fallibleOutcome kind (faultless act) := by
  have hact : (fun state => (act state).andThen fun result => .returning (.ok result)) =
      (faultless act : γ → Run ω (Payload ξ) (Except φ ρ)) :=
    funext fun state => (act state).andThen_returning Except.ok
  rw [outcome, hact]

theorem exists_classified (kind : FailureKind ξ φ κ) {act : γ → Run ω (Payload ξ) (Except φ ρ)}
    (hquiet : ∀ c ∈ s.cleanups, c.ending = .returned ())
    (h : (act s.arranged).ending ≠ .aborted) : ∃ o, Classified kind (act s.arranged).ending o ∧
      s.fallibleOutcome kind act = ⟨(act s.arranged).events ++ s.cleaning, .returned o⟩ := by
  obtain ⟨ended, hended, hcaught⟩ := Run.exists_caught h
  refine ⟨kind.classify ended, hended ▸ classified_classify kind ended, ?_⟩
  rw [fallibleOutcome, hcaught, Run.andThen_returning]
  exact guarded_of_returned hquiet (by simp [Ending.map])

variable [Shown ρ] [Fault φ]

theorem catchPanic_eq (s : Scenario ω ξ γ) (common : AssertionContext)
    (kind : FailureKind ξ φ κ) (act : γ → Run ω (Payload ξ) ρ) :
    s.catchPanic common kind act = s.catchFailure common kind (faultless act) := by
  rw [catchPanic, outcome_eq, catchFailure]

/-- Both ways of judging an act of which the events and the ending are known: what it counted as
is handed over after the events, and so is what the scenario makes of that. -/
def Settles (c : AssertionContext) (kind : FailureKind ξ φ κ) (events : List ω)
    (ended : Ending (Payload ξ) (Except φ ρ)) (classified : Run ω (Payload ξ) (Outcome ξ φ κ ρ))
    (judged : Run ω (Payload ξ) κ) : Prop :=
  ∃ o e, Classified kind ended o ∧ classified = ⟨events, .returned o⟩ ∧
    Judged c kind o e ∧ judged = ⟨events, e⟩

theorem settles_of_returned (common : AssertionContext) (kind : FailureKind ξ φ κ)
    (act : γ → Run ω (Payload ξ) (Except φ ρ))
    (hquiet : ∀ c ∈ s.cleanups, c.ending = .returned ())
    (h : (act s.arranged).ending ≠ .aborted) :
    Settles (s.context.getD common) kind ((act s.arranged).events ++ s.cleaning)
      (act s.arranged).ending (s.fallibleOutcome kind act) (s.catchFailure common kind act) := by
  obtain ⟨o, ho, houtcome⟩ := exists_classified kind hquiet h
  obtain ⟨e, he, hjudge⟩ := exists_judged ω (s.context.getD common) kind o
  refine ⟨o, e, ho, houtcome, he, ?_⟩
  rw [catchFailure, houtcome, Run.andThen_of_returned rfl, hjudge, List.append_nil]

/-- The three parts are about acts that return no errors, acts that may, and assertions. -/
theorem act_settled_after_cleanups (s : Scenario ω ξ γ) (common : AssertionContext)
    (kind : FailureKind ξ φ κ) (hquiet : ∀ c ∈ s.cleanups, c.ending = .returned ()) :
    (∀ act : γ → Run ω (Payload ξ) ρ, (act s.arranged).ending ≠ .aborted →
      Settles (s.context.getD common) kind ((act s.arranged).events ++ s.cleaning)
        ((act s.arranged).ending.map .ok) (s.outcome kind act) (s.catchPanic common kind act)) ∧
    (∀ act : γ → Run ω (Payload ξ) (Except φ ρ), (act s.arranged).ending ≠ .aborted →
      Settles (s.context.getD common) kind ((act s.arranged).events ++ s.cleaning)
        (act s.arranged).ending (s.fallibleOutcome kind act) (s.catchFailure common kind act)) ∧
    ∀ (act : γ → Run ω (Payload ξ) ρ) (assertion : ρ → AssertionContext → Run ω (Payload ξ) Unit),
      (∀ result, (act s.arranged).ending = .returned result →
        (assertion result (s.context.getD common)).ending ≠ .aborted →
        s.assert common act assertion = ⟨(act s.arranged).events ++
            (assertion result (s.context.getD common)).events ++ s.cleaning,
          (assertion result (s.context.getD common)).ending⟩) ∧
      ∀ payload, (act s.arranged).ending = .panicked payload →
        s.assert common act assertion =
          ⟨(act s.arranged).events ++ s.cleaning, .panicked payload⟩ := by
  refine ⟨fun act h => ?_, fun act h => settles_of_returned common kind act hquiet h,
    fun act assertion => ⟨fun result hresult hassertion => ?_, fun payload hpayload => ?_⟩⟩
  · rw [outcome_eq, catchPanic_eq]
    exact settles_of_returned common kind (faultless act) hquiet (mt Ending.map_eq_aborted_iff.mp h)
  · rw [assert, Run.andThen_of_returned hresult]
    exact guarded_of_returned hquiet hassertion
  · rw [assert, Run.andThen_of_panicked hpayload]
    exact guarded_of_returned hquiet (by simp)

/-- Seven are left, and two cleanups are registered. -/
def stock : Scenario String Int Int := ⟨7, none, [.event "first", .event "second"]⟩

/-- Panics with the number that is left. -/
def sellOut (left : Int) : Run String (Payload Int) Int :=
  (Run.event "act").andThen fun _ => .panic (.value left)

instance : Fault Empty := ⟨nofun, nofun⟩

/-- Panics with a number, where there are no errors. -/
def numberKind : FailureKind Int Empty Int where
  name := "Int"
  ofPayload?
    | .value n => some n
    | _ => none
  ofError? := nofun

theorem act_settled_after_cleanups_stock :
    (∀ c ∈ stock.cleanups, c.ending = .returned ()) ∧ (sellOut stock.arranged).ending ≠ .aborted ∧
    stock.outcome numberKind sellOut = ⟨["act", "second", "first"], .returned (.expected 7)⟩ ∧
    stock.catchPanic ⟨.null, standardFormatter 200⟩ numberKind sellOut =
      ⟨["act", "second", "first"], .returned 7⟩ ∧
    stock.assert ⟨.null, standardFormatter 200⟩ sellOut (fun _ _ => .event "assert") =
      ⟨["act", "second", "first"], .panicked (.value 7)⟩ := by
  have hquiet : ∀ c ∈ stock.cleanups, c.ending = .returned () := by decide
  have hact : (sellOut stock.arranged).ending ≠ .aborted := by decide
  have hevents : (sellOut stock.arranged).events ++ stock.cleaning = ["act", "second", "first"] := by
    decide
  obtain ⟨hsettled, -, hassert⟩ := @act_settled_after_cleanups String Int Int Empty Int Int _ _
    stock ⟨.null, standardFormatter 200⟩ numberKind hquiet
  obtain ⟨o, e, ho, houtcome, he, hjudged⟩ := hsettled sellOut hact
  rw [hevents] at houtcome hjudged
  have hpanicked : Classified numberKind (.panicked (.value 7)) o := ho
  cases hpanicked with
  | unexpectedPanic h => nomatch h
  | expectedPanic h =>
    obtain rfl : 7 = _ := Option.some_inj.mp h
    cases he
    refine ⟨hquiet, hact, houtcome, hjudged, ?_⟩
    rw [(hassert sellOut fun _ _ => .event "assert").2 (.value 7) rfl, hevents]

end Scenario

end Attest
