import BlockCalc.Proofs.Action

/-!
# Handlers that look on

A handler looks on if it leaves the workspace as it is and edits nothing of what it is told. Then
all handlers of an event or a step are told the same, so that calling them is calling each of them
on its own, one after the other. A handler that looks on may still end an evaluation; silent
handlers never do that, and harmless ones do nothing of it all. What a handler ends an evaluation
with is mostly caught where the evaluation ends, but not if it ends the whole program or gives no
reason.
-/

namespace BlockCalc

variable {σ : Type}

/-- The handler has left the workspace as it was and edited nothing. -/
structure Reaction.Observes (reaction : Reaction σ) (session : Session σ) : Prop where
  workspace : reaction.workspace = session.toWorkspace
  discarded : reaction.discarded = none
  failure : reaction.failure = none

namespace Hooks

/-- The handlers may look on and end an evaluation, but they change and edit nothing. -/
structure Observing (hooks : Hooks σ) : Prop where
  listeners : ∀ event, ∀ listener ∈ hooks.listeners event, ∀ notice session,
    (listener.handle notice session).Observes session
  stepRules : ∀ rule ∈ hooks.stepRules, ∀ notice session,
    (rule.handle notice session).Observes session

/-- The handlers never complain. -/
structure Silent (hooks : Hooks σ) : Prop where
  listenersSilent : ∀ event, ∀ listener ∈ hooks.listeners event, ∀ notice session,
    (listener.handle notice session).complaint = Option.none
  stepRulesSilent : ∀ rule ∈ hooks.stepRules, ∀ notice session,
    (rule.handle notice session).complaint = Option.none

end Hooks

/-- What ends the evaluation is a failure, or there is a reason that makes it one. -/
def Failure.Caught (failure : Failure) : Prop :=
  failure.cause ≠ .foreign Option.none

theorem Failure.caught_of_unhandled {failure : Failure} {incident : Incident}
    (unhandled : failure.cause = .unhandled incident) : failure.Caught := by
  simp [Caught, unhandled]

/--
An evaluation catches the complaint: it is a failure or has a reason, or else what is raised where
it is asked for its reason is so.
-/
def Complaint.Caught : Complaint → Prop
  | .failure raised => raised.Caught
  | .crash _ => True
  | .wordless (.failure raised) => raised.Caught
  | .wordless (.crash _) => True
  | _ => False

theorem Complaint.Caught.toFailure {complaint : Complaint} (caught : complaint.Caught)
    {crashed : String → Failure} (worded : ∀ reason, (crashed reason).Caught) :
    (complaint.toFailure crashed).Caught := by
  cases complaint with
  | failure raised => exact caught
  | crash reason => exact worded reason
  | wordless second =>
      cases second with
      | failure raised => exact caught
      | crash reason => simp [Complaint.toFailure, Failure.Caught]
      | _ => exact caught.elim
  | exit => exact caught.elim

namespace Hooks

/-- While an evaluation goes on, the handlers complain of nothing that it does not catch. -/
structure Catchable (hooks : Hooks σ) : Prop where
  listenersCaught : ∀ event, event ≠ .parseEnd → event ≠ .onError →
    ∀ listener ∈ hooks.listeners event, ∀ notice session complaint,
      (listener.handle notice session).complaint = some complaint → complaint.Caught
  stepRulesCaught : ∀ rule ∈ hooks.stepRules, ∀ notice session complaint,
    (rule.handle notice session).complaint = some complaint → complaint.Caught

theorem Silent.catchable {hooks : Hooks σ} (silent : hooks.Silent) : hooks.Catchable where
  listenersCaught := by
    intro event _ _ listener member notice session complaint complains
    rw [silent.listenersSilent event listener member] at complains
    cases complains
  stepRulesCaught := by
    intro rule member notice session complaint complains
    rw [silent.stepRulesSilent rule member] at complains
    cases complains

/-- The handlers change nothing but their own state, and they never complain. -/
structure Harmless (hooks : Hooks σ) : Prop extends hooks.Observing, hooks.Silent

theorem harmless_none : (none : Hooks σ).Harmless where
  listeners := by simp [none]
  stepRules := by simp [none]
  listenersSilent := by simp [none]
  stepRulesSilent := by simp [none]

theorem observing_none : (none : Hooks σ).Observing :=
  harmless_none.toObserving

theorem silent_none : (none : Hooks σ).Silent :=
  harmless_none.toSilent

end Hooks

namespace Reaction.Observes

variable {reaction : Reaction σ} {session : Session σ} (observes : reaction.Observes session)

include observes

theorem leave_eq (discarded : Option (List String)) :
    reaction.leave discarded session = { session with observer := reaction.observer } := by
  simp only [leave, observes.workspace, observes.discarded]

theorem edit_eq (notice : Notice) : reaction.edit notice = notice := by
  cases notice <;> simp [edit, observes.discarded, observes.failure]

theorem editStep_eq (step : Step) : reaction.editStep step = step := by
  cases step <;> simp [editStep, observes.discarded]

end Reaction.Observes

namespace Eval

/-- Calls a listener. -/
def callListener (notice : Notice) (listener : Listener σ) : Eval σ Unit := do
  let session ← get
  react (listener.handle notice session) notice.discarded? fun reason =>
    { cause := .unhandled (.handlerCrashed notice.event reason)
      location := session.log.lastLocation }

/-- Calls a step rule. -/
def callRule (notice : StepNotice) (rule : StepRule σ) : Eval σ Unit := do
  let session ← get
  react (rule.handle notice session) notice.step.discarded? fun reason =>
    { cause := .unhandled (.stepRuleCrashed reason), location := notice.location }

/-- Calls the step rules that are due after a step. -/
def afterStep (settings : Settings σ) (notice : StepNotice) : Eval σ Unit :=
  settings.hooks.stepRules.forM fun rule =>
    if notice.index % rule.period = 0 then callRule notice rule else pure ()

/-- A notice that no listener edits is told to each of them. -/
theorem tell_eq {notice : Notice} {listeners : List (Listener σ)}
    (observe : ∀ listener ∈ listeners, ∀ session,
      (listener.handle notice session).Observes session) :
    tell notice listeners = (do listeners.forM (callListener notice); return notice) := by
  induction listeners with
  | nil => rfl
  | cons listener rest ih =>
      rw [List.forall_mem_cons] at observe
      simp only [tell, (observe.1 _).edit_eq, ih observe.2, List.forM_eq_forM, List.forM_cons,
        callListener, bind_assoc]

theorem emit_eq {settings : Settings σ} (observing : settings.hooks.Observing) (notice : Notice) :
    emit settings notice = (settings.hooks.listeners notice.event).forM (callListener notice) := by
  simp only [emit, tell_eq fun listener member => observing.listeners _ listener member notice,
    bind_assoc, pure_bind, bind_pure_unit]

/-- A step that no step rule edits is followed by the step rules that are due. -/
theorem follow_eq {index : Nat} {location : Option Location} {step : Step}
    {rules : List (StepRule σ)}
    (observe : ∀ rule ∈ rules, ∀ session,
      (rule.handle { index, step, location } session).Observes session) :
    follow index location step rules = (do
      rules.forM fun rule =>
        if index % rule.period = 0 then callRule { index, step, location } rule else pure ()
      return step) := by
  induction rules with
  | nil => rfl
  | cons rule rest ih =>
      rw [List.forall_mem_cons] at observe
      simp only [follow, (observe.1 _).editStep_eq, ih observe.2, List.forM_eq_forM,
        List.forM_cons, callRule, bind_assoc]
      split <;> simp only [bind_assoc, pure_bind]

end Eval

end BlockCalc
