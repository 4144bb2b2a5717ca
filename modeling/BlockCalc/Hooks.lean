import BlockCalc.Session

/-!
# Hooks

Handlers that are called while an evaluation runs. A listener waits for an event, and a step rule is
called after every step whose index is a multiple of its period. The listeners of an event are kept
by descending priority, and those of equal priority in the order of registration. A handler sees the
session, may change its workspace and the observer's state, may edit some of what it is told, and
may end the evaluation.
-/

namespace BlockCalc

/-- What listeners are told. -/
inductive Notice where
  | parseStart
  | parseEnd (value : Value)
  | onError (failure : Failure)
  | scopeEnter (depth : Nat)
  | scopeExit (depth : Nat) (discarded : List String)

namespace Notice

/-- The event that a notice is about. -/
def event : Notice → Event
  | parseStart => .parseStart
  | parseEnd _ => .parseEnd
  | onError _ => .onError
  | scopeEnter _ => .scopeEnter
  | scopeExit _ _ => .scopeExit

/-- The names of the block that has been left. -/
def discarded? : Notice → Option (List String)
  | scopeExit _ discarded => some discarded
  | _ => none

/-- The failure that an evaluation ends with. -/
def failure? : Notice → Option Failure
  | onError failure => some failure
  | _ => none

end Notice

/-- What step rules are told. -/
structure StepNotice where
  index : Nat
  step : Step
  location : Option Location

/-- How a handler ends an evaluation. -/
inductive Complaint where
  /-- It fails as an evaluation fails. -/
  | failure (failure : Failure)
  /-- It breaks down for a reason of its own. -/
  | crash (reason : String)
  /-- It breaks down, and asking it for the reason makes it complain once more. -/
  | wordless (complaint : Complaint)
  /-- It ends the whole program, which no evaluation prevents. -/
  | exit

namespace Complaint

/-- The failure that a complaint amounts to; `crashed` words the reason of a crash. -/
def toFailure (crashed : String → Failure) : Complaint → Failure
  | .failure raised => raised
  | .crash reason => crashed reason
  -- The second complaint is made where the first one was to be worded, so nothing words it there.
  | .wordless (.failure raised) => raised
  | .wordless (.crash reason) => { cause := .foreign (some reason) }
  | .wordless (.wordless _) => { cause := .foreign none }
  | .wordless .exit => { cause := .foreign none }
  | .exit => { cause := .foreign none }

end Complaint

/--
What a handler leaves behind. The names of a block and a failure are no copies: a handler that is
told of them may edit them.
-/
structure Reaction (σ : Type) where
  workspace : Workspace
  observer : σ
  complaint : Option Complaint := none
  /-- The names of the block that has been left, if the handler edits them. -/
  discarded : Option (List String) := none
  /-- The failure that the evaluation ends with, if the handler edits it. -/
  failure : Option Failure := none

namespace Reaction

variable {σ : Type}

/-- What a notice says after the handler. -/
def edit (reaction : Reaction σ) : Notice → Notice
  | .scopeExit depth discarded => .scopeExit depth (reaction.discarded.getD discarded)
  | .onError failure => .onError (reaction.failure.getD failure)
  | notice => notice

/-- What a step says after the handler. -/
def editStep (reaction : Reaction σ) : Step → Step
  | .exitScope depth discarded => .exitScope depth (reaction.discarded.getD discarded)
  | step => step

/--
The session that a handler leaves. If it was told of the names of a block, these are the ones in the
last entry of the log.
-/
def leave (reaction : Reaction σ) (discarded : Option (List String)) (session : Session σ) :
    Session σ :=
  { session with
    toWorkspace := reaction.workspace
    observer := reaction.observer
    log := match reaction.discarded, discarded with
      | some edited, some _ => session.log.rediscard edited
      | _, _ => session.log }

end Reaction

/-- A handler that is called for an event. -/
structure Listener (σ : Type) where
  priority : Int := 0
  /-- The name under which the listener is registered; if it is empty, its function names it. -/
  name : String
  /-- The name of the function that handles the event. -/
  functionName : String := "handler"
  handle : Notice → Session σ → Reaction σ

namespace Listener

variable {σ : Type}

/-- Whether a listener is called before another one if it is registered before it. -/
def precedes (first second : Listener σ) : Bool :=
  second.priority ≤ first.priority

/-- The listener with its name, or that of its function if it has none. -/
def named (listener : Listener σ) : Listener σ :=
  if listener.name = "" then { listener with name := listener.functionName } else listener

end Listener

/-- A handler that is called after every step whose index is a multiple of `period`. -/
structure StepRule (σ : Type) where
  period : Nat
  period_pos : 0 < period := by decide
  name : String := ""
  handle : StepNotice → Session σ → Reaction σ

/-- Why a handler is not registered. -/
inductive RegistrationError where
  | unknownEvent (name : String)
  | periodTooSmall
deriving DecidableEq

/-- What a rejected registration is told. -/
def RegistrationError.message : RegistrationError → String
  | unknownEvent name => "Unknown event '" ++ name ++ "'"
  | periodTooSmall => "every_n must be >= 1"

/-- The handlers that have been registered. -/
structure Hooks (σ : Type) where
  /-- The listeners of an event in the order in which they are called. -/
  listeners : Event → List (Listener σ) := fun _ => []
  /-- The step rules in the order in which they are called. -/
  stepRules : List (StepRule σ) := []

namespace Hooks

variable {σ : Type}

/-- No handlers. -/
def none : Hooks σ := {}

/-- Adds a listener and sorts all listeners of its event again, by descending priority. -/
def listen (hooks : Hooks σ) (eventName : String) (listener : Listener σ) :
    Except RegistrationError (Hooks σ) :=
  match Event.ofName? eventName with
  | Option.none => .error (.unknownEvent eventName)
  | some event =>
      .ok { hooks with
        listeners := fun other =>
          if other = event then (hooks.listeners other ++ [listener.named]).mergeSort Listener.precedes
          else hooks.listeners other }

/-- Adds a step rule behind all others. -/
def addStepRule (hooks : Hooks σ) (name : String) (period : Int)
    (handle : StepNotice → Session σ → Reaction σ) : Except RegistrationError (Hooks σ) :=
  if positive : 0 < period then
    .ok { hooks with
      stepRules :=
        hooks.stepRules ++ [{ period := period.toNat, period_pos := by omega, name, handle }] }
  else .error .periodTooSmall

/-- The names of the listeners of an event in the order in which they are called. -/
def listenerNames (hooks : Hooks σ) (eventName : String) : List String :=
  match Event.ofName? eventName with
  | Option.none => []
  | some event => (hooks.listeners event).map (·.name)

end Hooks

end BlockCalc
