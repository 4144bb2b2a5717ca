import BlockCalc.Settings

/-!
# Actions of an evaluation

An evaluation is a sequence of actions on a session, each of which may fail. A failure keeps the
session as it was when the action failed, because bindings made before a failure survive it. This
module holds the actions that the rest is made of: locating a token, recording a step, and calling
handlers.
-/

namespace BlockCalc

/-- An action on a session that gives an `α` or fails. -/
abbrev Eval (σ α : Type) : Type :=
  EStateM Failure (Session σ) α

namespace Eval

variable {σ α : Type}

/-- Fails for a cause. -/
def fail (cause : Cause) (location : Option Location) : Eval σ α :=
  throw { cause, location }

/-- The outcome of an operation, which fails without a location. -/
def ofExcept (outcome : Except Cause α) : Eval σ α :=
  match outcome with
  | .ok result => pure result
  | .error cause => fail cause none

/-- The action with its failures at a location, except those that have one already. -/
def locating (location : Location) (action : Eval σ α) : Eval σ α :=
  action.adaptExcept (·.locate location)

/-- Puts other bindings in place of those of the session. -/
def setScope (scope : Scope) : Eval σ Unit :=
  modify fun session => { session with scope }

/-- Counts one more token as read. -/
def advance : Eval σ Unit :=
  modify fun session => { session with position := session.position + 1 }

/--
Takes over what a handler left behind, and ends as the handler did. The handler was told of the
discarded names, if there are any, and `crashed` words a crash.
-/
def react (reaction : Reaction σ) (discarded : Option (List String)) (crashed : String → Failure) :
    Eval σ Unit := do
  modify (reaction.leave discarded)
  match reaction.complaint with
  | none => pure ()
  | some complaint => throw (complaint.toFailure crashed)

/--
Calls listeners until one of them complains. Each hears the notice as those before it have left it,
and the result is the notice as the last one leaves it.
-/
def tell : Notice → List (Listener σ) → Eval σ Notice
  | notice, [] => pure notice
  | notice, listener :: rest => do
      let session ← get
      let reaction := listener.handle notice session
      react reaction notice.discarded? fun reason =>
        { cause := .unhandled (.handlerCrashed notice.event reason)
          location := session.log.lastLocation }
      tell (reaction.edit notice) rest

/--
Calls the step rules that are due after a step until one of them complains. The result is the step
as the last one leaves it.
-/
def follow (index : Nat) (location : Option Location) : Step → List (StepRule σ) → Eval σ Step
  | step, [] => pure step
  | step, rule :: rest => do
      if index % rule.period = 0 then
        let session ← get
        let reaction := rule.handle { index, step, location } session
        react reaction step.discarded? fun reason =>
          { cause := .unhandled (.stepRuleCrashed reason), location }
        follow index location (reaction.editStep step) rest
      else
        follow index location step rest

variable (settings : Settings σ)

/-- The location of a token in the source as it is now. -/
def locate (token : Token) : Eval σ Location := do
  let session ← get
  return {
    file := settings.fileName
    line := token.start.line
    column := token.start.column
    statement := session.source.statement token.start.line }

/-- Calls the listeners of an event. -/
def emit (notice : Notice) : Eval σ Unit := do
  let _ ← tell notice (settings.hooks.listeners notice.event)

/-- Records a step in the log and then calls the step rules; the result is what they leave of it. -/
def recordShared (step : Step) (location : Option Location) : Eval σ Step := do
  let session ← get
  let bindings := if settings.verbose then some session.scope.snapshot else none
  let entry :=
    session.log.nextEntry (.ofList (("rule", .text step.rule) :: step.details)) location
      (location.map (·.statement)) bindings
  set { session with log := session.log.add entry }
  follow entry.index location step settings.hooks.stepRules

/-- Records a step of which nobody keeps anything that step rules may edit. -/
def record (step : Step) (location : Option Location) : Eval σ Unit := do
  let _ ← recordShared settings step location

end Eval

end BlockCalc
