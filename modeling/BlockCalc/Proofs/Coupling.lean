import BlockCalc.Proofs.Action

/-!
# Coupled evaluations

An evaluation runs twice, under settings that may differ and from sessions that may differ. A
coupling says what holds of the two sessions all the way, and of the values that the evaluation
computes. Two actions carry it if they give the same result or fail in the same way, and leave
sessions that are coupled again. An invariant of a single evaluation is the case in which the two
runs are one.
-/

namespace BlockCalc

variable {σ τ α β : Type}

namespace Eval

/--
The actions give the same result or fail in the same way, and leave sessions that `returns` or
`fails` holds of.
-/
def EnsuresBoth (left : Eval σ α) (right : Eval τ α) (first : Session σ) (second : Session τ)
    (returns : α → Session σ → Session τ → Prop)
    (fails : Failure → Session σ → Session τ → Prop) : Prop :=
  Ensures left first
    (fun result after => Ensures right second
      (fun other afterOther => other = result ∧ returns result after afterOther)
      (fun _ _ => False))
    (fun failure after => Ensures right second
      (fun _ _ => False)
      (fun other afterOther => other = failure ∧ fails failure after afterOther))

namespace EnsuresBoth

variable {left : Eval σ α} {right : Eval τ α} {first : Session σ} {second : Session τ}
  {returns : α → Session σ → Session τ → Prop} {fails : Failure → Session σ → Session τ → Prop}

theorem pure {result : α} (holds : returns result first second) :
    EnsuresBoth (Pure.pure result) (Pure.pure result) first second returns fails :=
  ⟨rfl, holds⟩

theorem fail {cause : Cause} {location : Option Location}
    (holds : fails { cause, location } first second) :
    EnsuresBoth (Eval.fail cause location) (Eval.fail cause location) first second returns fails :=
  ⟨rfl, holds⟩

/-- The outcome is all that counts. -/
theorem congr {otherLeft : Eval σ α} {otherRight : Eval τ α}
    (sameLeft : left first = otherLeft first) (sameRight : right second = otherRight second)
    (ensures : EnsuresBoth otherLeft otherRight first second returns fails) :
    EnsuresBoth left right first second returns fails := by
  simpa only [EnsuresBoth, Ensures, sameLeft, sameRight] using ensures

theorem failing {failure : Failure} {after : Session σ} {afterOther : Session τ}
    (leftFailed : left first = .error failure after)
    (rightFailed : right second = .error failure afterOther)
    (holds : fails failure after afterOther) :
    EnsuresBoth left right first second returns fails := by
  simp only [EnsuresBoth, Ensures, leftFailed, rightFailed]
  exact ⟨trivial, holds⟩

theorem mono {weakerReturns : α → Session σ → Session τ → Prop}
    {weakerFails : Failure → Session σ → Session τ → Prop}
    (ensures : EnsuresBoth left right first second returns fails)
    (onResult : ∀ result after afterOther,
      returns result after afterOther → weakerReturns result after afterOther)
    (onFailure : ∀ failure after afterOther,
      fails failure after afterOther → weakerFails failure after afterOther) :
    EnsuresBoth left right first second weakerReturns weakerFails := by
  refine Ensures.mono ensures ?_ ?_
  · intro result after other
    refine other.mono ?_ fun _ _ impossible => impossible
    rintro _ afterOther ⟨same, holds⟩
    exact ⟨same, onResult result after afterOther holds⟩
  · intro failure after other
    refine other.mono (fun _ _ impossible => impossible) ?_
    rintro _ afterOther ⟨same, holds⟩
    exact ⟨same, onFailure failure after afterOther holds⟩

theorem bind {next : α → Eval σ β} {otherNext : α → Eval τ β}
    {middle : α → Session σ → Session τ → Prop} {returns : β → Session σ → Session τ → Prop}
    (start : EnsuresBoth left right first second middle fails)
    (continues : ∀ result after afterOther, middle result after afterOther →
      EnsuresBoth (next result) (otherNext result) after afterOther returns fails) :
    EnsuresBoth (left >>= next) (right >>= otherNext) first second returns fails := by
  simp only [EnsuresBoth, Ensures] at start
  cases leftRan : left first with
  | ok result after =>
      cases rightRan : right second with
      | ok other afterOther =>
          simp only [leftRan, rightRan] at start
          rcases start with ⟨rfl, holds⟩
          have continued := continues other after afterOther holds
          simpa only [EnsuresBoth, Ensures, bind_of_ok leftRan, bind_of_ok rightRan] using continued
      | error failure afterOther => simp [leftRan, rightRan] at start
  | error failure after =>
      cases rightRan : right second with
      | ok other afterOther => simp [leftRan, rightRan] at start
      | error other afterOther =>
          simp only [leftRan, rightRan] at start
          simpa only [EnsuresBoth, Ensures, bind_of_error leftRan, bind_of_error rightRan]
            using start

theorem locating {location : Location}
    (ensures : EnsuresBoth left right first second returns
      fun failure => fails (failure.locate location)) :
    EnsuresBoth (Eval.locating location left) (Eval.locating location right) first second returns
      fails := by
  simp only [EnsuresBoth, ensures_locating] at ensures ⊢
  refine Ensures.mono ensures (fun _ _ holds => holds) ?_
  intro failure after other
  refine other.mono (fun _ _ impossible => impossible) ?_
  rintro _ afterOther ⟨rfl, holds⟩
  exact ⟨rfl, holds⟩

theorem setScope {scope otherScope : Scope} {next : Unit → Eval σ α} {otherNext : Unit → Eval τ α}
    (ensures : EnsuresBoth (next ()) (otherNext ()) { first with scope }
      { second with scope := otherScope } returns fails) :
    EnsuresBoth (Eval.setScope scope >>= next) (Eval.setScope otherScope >>= otherNext) first second
      returns fails :=
  ensures

theorem of_ok (both : EnsuresBoth left right first second returns fails) {result : α}
    {after : Session σ} (ran : left first = .ok result after) :
    ∃ afterOther, right second = .ok result afterOther ∧ returns result after afterOther := by
  have other := Ensures.of_ok both ran
  simp only [Ensures] at other
  cases otherRan : right second with
  | ok otherResult afterOther =>
      simp only [otherRan] at other
      rcases other with ⟨rfl, holds⟩
      exact ⟨afterOther, rfl, holds⟩
  | error failure afterOther => simp [otherRan] at other

theorem of_error (both : EnsuresBoth left right first second returns fails) {failure : Failure}
    {after : Session σ} (ran : left first = .error failure after) :
    ∃ afterOther, right second = .error failure afterOther ∧ fails failure after afterOther := by
  have other := Ensures.of_error both ran
  simp only [Ensures] at other
  cases otherRan : right second with
  | ok result afterOther => simp [otherRan] at other
  | error otherFailure afterOther =>
      simp only [otherRan] at other
      rcases other with ⟨rfl, holds⟩
      exact ⟨afterOther, rfl, holds⟩

theorem self_iff {action : Eval σ α} {session : Session σ}
    {returns : α → Session σ → Session σ → Prop} {fails : Failure → Session σ → Session σ → Prop} :
    EnsuresBoth action action session session returns fails ↔
      Ensures action session (fun result after => returns result after after)
        (fun failure after => fails failure after after) := by
  simp only [EnsuresBoth, Ensures]
  cases ran : action session <;> simp

end EnsuresBoth

end Eval

/-- What holds of two sessions in the course of an evaluation, of its values and of its failures. -/
structure Coupling (σ τ : Type) where
  related : Session σ → Session τ → Prop
  good : Value → Prop := fun _ => True
  fails : Cause → Prop := fun _ => True

namespace Coupling

/-- From related sessions, both actions have the same outcome and leave related sessions. -/
def CarriesFrom (coupling : Coupling σ τ) (first : Session σ) (second : Session τ)
    (left : Eval σ α) (right : Eval τ α) (results : α → Prop) : Prop :=
  Eval.EnsuresBoth left right first second
    (fun result after afterOther => results result ∧ coupling.related after afterOther)
    (fun failure after afterOther =>
      coupling.fails failure.cause ∧ coupling.related after afterOther)

/-- From all related sessions, actions run alike and related sessions remain. -/
def Carries (coupling : Coupling σ τ) (left : Eval σ α) (right : Eval τ α) (results : α → Prop) :
    Prop :=
  ∀ first second, coupling.related first second →
    coupling.CarriesFrom first second left right results

variable {coupling : Coupling σ τ} {results : α → Prop}

namespace Carries

theorem pure {result : α} (holds : results result) :
    coupling.Carries (Pure.pure result) (Pure.pure result) results := by
  intro first second related
  exact .pure ⟨holds, related⟩

theorem fail {cause : Cause} {location : Option Location} (fails : coupling.fails cause) :
    coupling.Carries (Eval.fail cause location) (Eval.fail cause location) results := by
  intro first second related
  exact .fail ⟨fails, related⟩

theorem bind {left : Eval σ α} {right : Eval τ α} {next : α → Eval σ β} {otherNext : α → Eval τ β}
    {finally_ : β → Prop} (start : coupling.Carries left right results)
    (continues : ∀ result, results result →
      coupling.Carries (next result) (otherNext result) finally_) :
    coupling.Carries (left >>= next) (right >>= otherNext) finally_ := by
  intro first second related
  apply (start first second related).bind
  rintro result after afterOther ⟨holds, stillRelated⟩
  exact continues result holds after afterOther stillRelated

theorem get_bind {next : Session σ → Eval σ α} {otherNext : Session τ → Eval τ α}
    (continues : ∀ first second, coupling.related first second →
      coupling.CarriesFrom first second (next first) (otherNext second) results) :
    coupling.Carries (get >>= next) (get >>= otherNext) results := by
  intro first second related
  exact continues first second related

theorem locating {left : Eval σ α} {right : Eval τ α} {location : Location}
    (carries : coupling.Carries left right results) :
    coupling.Carries (Eval.locating location left) (Eval.locating location right) results := by
  intro first second related
  exact Eval.EnsuresBoth.locating (carries first second related)

theorem ofExcept {outcome : Except Cause α}
    (holds : ∀ result, outcome = .ok result → results result)
    (fails : ∀ cause, outcome = .error cause → coupling.fails cause) :
    coupling.Carries (Eval.ofExcept outcome) (Eval.ofExcept outcome) results := by
  cases outcome with
  | ok result => exact .pure (holds result rfl)
  | error cause => exact .fail (fails cause rfl)

end Carries

end Coupling

end BlockCalc
