import BlockCalc.Proofs.Guard
import BlockCalc.Proofs.Recording
import BlockCalc.Proofs.Scope

/-!
# Steady actions

Most actions of an evaluation neither read on in the program nor open or close a bracket: they
resolve operands, apply operators, change bindings, and record steps. They are steady, and this file
proves it together with the other things that hold of them in common: as long as no handler
complains, they do not fail for a guard, and as long as all complaints are caught, neither is
anything else that they fail for. Handlers may look on and end the evaluation, but they must not
change the workspace; without that condition a handler could leave a block of the evaluation.

Every operator on the stack of pending operators has an operand already. This is what keeps a
reduction from finding fewer than two of them.
-/

namespace BlockCalc

variable {σ α β : Type}

/-- How far an evaluation has come, and which brackets and blocks are open there. -/
structure Place where
  program : List Token
  position : Nat
  groups : List Group
  depth : Nat

/-- The place at which an evaluation is. -/
def Session.place (session : Session σ) : Place where
  program := session.program
  position := session.position
  groups := session.groups
  depth := session.scope.depth

/-- The sessions differ at most in the state of the observer. -/
def Session.Untouched (before after : Session σ) : Prop :=
  after = { before with observer := after.observer }

theorem Session.Untouched.trans {before middle after : Session σ}
    (first : before.Untouched middle) (second : middle.Untouched after) :
    before.Untouched after := by
  simp only [Untouched] at first second ⊢
  rw [second, first]

/--
The failure comes from no guard unless handlers complain, and it is caught unless they complain of
what is not.
-/
structure Failure.Ordinary (settings : Settings σ) (failure : Failure) : Prop where
  noGuard : settings.hooks.Silent → ¬failure.cause.IsGuard
  caught : settings.hooks.Catchable → failure.Caught

theorem Failure.caught_of_noGuard {failure : Failure} (noGuard : ¬failure.cause.IsGuard) :
    failure.Caught := by
  intro foreign
  rw [foreign] at noGuard
  exact noGuard trivial

theorem Failure.ordinary_of_noGuard {settings : Settings σ} {failure : Failure}
    (noGuard : ¬failure.cause.IsGuard) : failure.Ordinary settings where
  noGuard _ := noGuard
  caught _ := caught_of_noGuard noGuard

namespace Eval

variable {settings : Settings σ}

/--
The action ends at the place where it started, its results are all `good`, and its failures
ordinary.
-/
def Steady (settings : Settings σ) (action : Eval σ α) (good : α → Prop) : Prop :=
  ∀ session, Ensures action session
    (fun result after => after.place = session.place ∧ good result)
    (fun failure _ => failure.Ordinary settings)

namespace Steady

variable {good : α → Prop}

theorem pure {result : α} (holds : good result) :
    Steady settings (Pure.pure result) good := by
  intro session
  exact ⟨rfl, holds⟩

theorem fail {cause : Cause} {location : Option Location} (noGuard : ¬cause.IsGuard) :
    Steady settings (Eval.fail cause location) good :=
  fun _ => Failure.ordinary_of_noGuard noGuard

theorem bind {action : Eval σ α} {next : α → Eval σ β} {finally_ : β → Prop}
    (first : Steady settings action good)
    (second : ∀ result, good result → Steady settings (next result) finally_) :
    Steady settings (action >>= next) finally_ := by
  intro session
  apply (first session).bind
  rintro result middle ⟨samePlace, holds⟩
  apply (second result holds middle).imp
  rintro last after ⟨stillSame, lastHolds⟩
  exact ⟨stillSame.trans samePlace, lastHolds⟩

theorem get_bind {next : Session σ → Eval σ α}
    (steady : ∀ session, Steady settings (next session) good) :
    Steady settings (get >>= next) good := by
  intro session
  exact steady session session

theorem locating {location : Location} {action : Eval σ α}
    (steady : Steady settings action good) :
    Steady settings (Eval.locating location action) good := by
  intro session
  rw [ensures_locating]
  exact (steady session).mono (fun _ _ holds => holds)
    (fun _ _ ordinary => ⟨ordinary.noGuard, ordinary.caught⟩)

theorem ofExcept {outcome : Except Cause α} (unguarded : Unguarded outcome)
    (holds : ∀ result, outcome = .ok result → good result) :
    Steady settings (Eval.ofExcept outcome) good := by
  cases outcome with
  | ok result => exact .pure (holds result rfl)
  | error cause => exact .fail (unguarded cause rfl)

theorem locate (token : Token) :
    Steady settings (Eval.locate settings token) fun _ => True := by
  intro session
  exact ⟨rfl, trivial⟩

theorem fail_at (token : Token) {cause : Cause} (noGuard : ¬cause.IsGuard) :
    Steady settings (do Eval.fail cause (some (← Eval.locate settings token))) good :=
  (Steady.locate token).bind fun _ _ => .fail noGuard

end Steady

/--
The action calls handlers, which change nothing but their own state and fail as `fails` says.
-/
def Watches (action : Eval σ Unit) (fails : Failure → Prop) : Prop :=
  ∀ session, Ensures action session
    (fun _ after => session.Untouched after)
    (fun failure after => session.Untouched after ∧ fails failure)

/-- The failure comes from handlers that complain, and it is caught if their complaints are. -/
structure Raised (settings : Settings σ) (failure : Failure) : Prop where
  loud : ¬settings.hooks.Silent
  caught : settings.hooks.Catchable → failure.Caught

theorem Watches.forM {items : List β} {visit : β → Eval σ Unit} {fails : Failure → Prop}
    (watches : ∀ item ∈ items, Watches (visit item) fails) : Watches (items.forM visit) fails := by
  induction items with
  | nil =>
      intro session
      rfl
  | cons item rest ih =>
      intro session
      apply (watches item (by simp) session).bind
      intro _ middle untouched
      apply (ih (fun other member => watches other (by simp [member])) middle).mono
      · intro _ after still
        exact untouched.trans still
      · rintro _ after ⟨still, raised⟩
        exact ⟨untouched.trans still, raised⟩

theorem Watches.steady {action : Eval σ Unit} (watches : Watches action (Raised settings)) :
    Steady settings action fun _ => True := by
  intro session
  apply (watches session).mono
  · intro _ after untouched
    rw [untouched]
    exact ⟨rfl, trivial⟩
  · rintro failure _ ⟨_, raised⟩
    exact ⟨fun silent => absurd silent raised.loud, raised.caught⟩

/-- A handler that looks on fails only by complaining. -/
theorem watches_react {reaction : Session σ → Reaction σ} {discarded : Option (List String)}
    {crashed : Session σ → String → Failure} {fails : Failure → Prop}
    (observes : ∀ session, (reaction session).Observes session)
    (raises : ∀ session complaint, (reaction session).complaint = some complaint →
      fails (complaint.toFailure (crashed session))) :
    Watches (do let session ← get; react (reaction session) discarded (crashed session)) fails := by
  intro session
  simp only [react, ensures_bind, ensures_get, ensures_modify, (observes session).leave_eq]
  split
  · rfl
  · rename_i complaint complains
    exact ⟨rfl, raises session complaint complains⟩

/-- Whatever listeners that look on are told of, they leave the session as it is. -/
theorem watches_listeners (observing : settings.hooks.Observing) (notice : Notice) :
    Watches ((settings.hooks.listeners notice.event).forM (callListener notice))
      fun _ => True := by
  apply Watches.forM
  intro listener member
  exact watches_react (observing.listeners _ listener member notice) fun _ _ _ => trivial

theorem watches_emit (observing : settings.hooks.Observing) {notice : Notice}
    (noEnd : notice.event ≠ .parseEnd := by exact Event.noConfusion)
    (noError : notice.event ≠ .onError := by exact Event.noConfusion) :
    Watches (emit settings notice) (Raised settings) := by
  rw [emit_eq observing]
  apply Watches.forM
  intro listener member
  apply watches_react (observing.listeners _ listener member notice)
  intro session complaint complains
  constructor
  · intro silent
    rw [silent.listenersSilent _ listener member] at complains
    cases complains
  · intro catchable
    have caught :=
      catchable.listenersCaught _ noEnd noError listener member notice session complaint complains
    exact caught.toFailure fun _ => Failure.caught_of_unhandled rfl

theorem watches_afterStep (observing : settings.hooks.Observing) (notice : StepNotice) :
    Watches (afterStep settings notice) (Raised settings) := by
  apply Watches.forM
  intro rule member
  split
  · apply watches_react (observing.stepRules rule member notice)
    intro session complaint complains
    constructor
    · intro silent
      rw [silent.stepRulesSilent rule member] at complains
      cases complains
    · intro catchable
      have caught :=
        catchable.stepRulesCaught rule member notice session complaint complains
      exact caught.toFailure fun _ => Failure.caught_of_unhandled rfl
  · intro session
    rfl

theorem steady_record (observing : settings.hooks.Observing) (step : Step)
    (location : Option Location) :
    Steady settings (record settings step location) fun _ => True := by
  intro session
  rw [Ensures, record_eq observing]
  exact (watches_afterStep observing _).steady _

theorem steady_resolve (term : Term) : Steady settings (resolve term) fun _ => True := by
  induction term with
  | «variable» name location =>
      apply Steady.get_bind
      intro session
      exact .locating (.ofExcept (session.scope.operational_read name).unguarded fun _ _ => trivial)
  | value value location => exact .pure trivial
  | unary operator operand location ih =>
      apply ih.bind
      intro value _
      exact .locating (.ofExcept (operator.operational_apply value).unguarded fun _ _ => trivial)

theorem steady_combine {operator : BinaryOp} (plain : operator.isAssignment = false)
    (value : Value) (terms : List Term) :
    Steady settings (combine operator value terms) fun _ => True := by
  induction terms generalizing value with
  | nil => exact .pure trivial
  | cons term rest ih =>
      simp only [combine]
      split
      · exact .pure trivial
      · apply (steady_resolve term).bind
        intro right _
        have applies := (operator.operational_apply plain value right).unguarded
        apply (Steady.ofExcept applies fun _ _ => trivial).bind
        intro combined _
        exact ih combined

/-- Setting a variable changes a binding and opens or leaves no block. -/
theorem steady_store {operator : BinaryOp} (assigns : operator.isAssignment = true)
    (name : String) (right : Value) :
    Steady settings (store operator name right) fun _ => True := by
  simp only [store]
  split
  · apply (Steady.ofExcept right.operational_store.unguarded fun _ _ => trivial).bind
    intro value _ session
    simp only [ensures_bind, ensures_get]
    cases assigned : session.scope.assign name value with
    | ok scope =>
        simp [Session.place, Scope.depth_of_assign assigned]
    | error cause =>
        exact Failure.ordinary_of_noGuard
          ((session.scope.operational_assign name value).unguarded cause assigned)
  · intro session
    simp only [ensures_bind, ensures_get]
    cases updated : session.scope.update name (operator.assigned · right) with
    | ok result =>
        rcases result with ⟨value, scope⟩
        rcases Scope.update_eq_ok_iff.mp updated with ⟨_, _, _, assigned⟩
        simp [Session.place, Scope.depth_of_assign assigned]
    | error cause =>
        exact Failure.ordinary_of_noGuard ((session.scope.operational_update name
          (operator.operational_assigned assigns · right)).unguarded cause updated)

theorem steady_assignAll (observing : settings.hooks.Observing) {operator : BinaryOp}
    (assigns : operator.isAssignment = true) (right : Value) (targets : List Term) :
    Steady settings (assignAll settings operator right targets) fun _ => True := by
  induction targets generalizing right with
  | nil => exact .pure trivial
  | cons target rest ih =>
      cases target with
      | «variable» name location =>
          apply (steady_store assigns name right).bind
          intro value _
          apply (steady_record observing _ _).bind
          intro _ _
          exact ih value
      | value value location => exact .fail not_false
      | unary unary operand location => exact .fail not_false

/-- Two operands are enough for a reduction. -/
theorem steady_reduce (observing : settings.hooks.Observing) {pending : Pending}
    (enough : 2 ≤ pending.operands.length) :
    Steady settings (reduce settings pending) fun _ => True := by
  rcases pending with ⟨operator, operands, location⟩
  rcases operands with _ | ⟨first, _ | ⟨second, rest⟩⟩
  · simp at enough
  · simp at enough
  · apply (steady_record observing _ _).bind
    intro _ _
    apply Steady.locating
    cases assigns : operator.isAssignment with
    | true =>
        simp only [if_true]
        split
        · apply (steady_resolve _).bind
          intro value _
          apply (steady_assignAll observing assigns value _).bind
          intro _ _
          exact .pure trivial
        · exact .pure trivial
    | false =>
        simp only [Bool.false_eq_true, if_false]
        apply (steady_resolve first).bind
        intro value _
        exact steady_combine assigns value _

/-- Every operator has an operand already. -/
def Supplied (pending : List Pending) : Prop :=
  ∀ top ∈ pending, top.operands ≠ []

@[simp]
theorem supplied_nil : Supplied [] := by
  simp [Supplied]

@[simp]
theorem supplied_cons {top : Pending} {outer : List Pending} :
    Supplied (top :: outer) ↔ top.operands ≠ [] ∧ Supplied outer := by
  simp [Supplied]

theorem steady_reduce_push (observing : settings.hooks.Observing) {top : Pending}
    (supplied : top.operands ≠ []) (term : Term) :
    Steady settings (reduce settings (top.push term)) fun _ => True := by
  apply steady_reduce observing
  have positive := List.length_pos_iff.mpr supplied
  simp only [Pending.push, List.length_append, List.length_cons, List.length_nil]
  omega

theorem steady_collapse (observing : settings.hooks.Observing) {pending : List Pending}
    (supplied : Supplied pending) (term : Term) :
    Steady settings (collapse settings pending term) fun _ => True := by
  induction pending generalizing term with
  | nil => exact steady_resolve term
  | cons top outer ih =>
      rw [supplied_cons] at supplied
      apply (steady_reduce_push observing supplied.1 term).bind
      intro value _
      exact ih supplied.2 _

theorem steady_pushOperator (observing : settings.hooks.Observing) (operator : BinaryOp)
    (location : Location) {pending : List Pending} (supplied : Supplied pending) (term : Term) :
    Steady settings (pushOperator settings operator location pending term) Supplied := by
  induction pending generalizing term with
  | nil => exact .pure (by simp)
  | cons top outer ih =>
      rcases supplied_cons.mp supplied with ⟨topSupplied, outerSupplied⟩
      simp only [pushOperator]
      split
      · exact .pure (by simp [Pending.push, outerSupplied])
      · split
        · apply (steady_reduce_push observing topSupplied term).bind
          intro value _
          exact ih outerSupplied _
        · exact .pure (by simp [topSupplied, outerSupplied])

end Eval

end BlockCalc
