/-!
# Events

The moments of an evaluation at which listeners are called.
-/

namespace BlockCalc

/-- A moment that listeners can wait for. -/
inductive Event where
  | parseStart
  | parseEnd
  | onError
  | scopeEnter
  | scopeExit
deriving DecidableEq

namespace Event

/-- The name under which listeners register for an event. -/
def name : Event → String
  | parseStart => "parse_start"
  | parseEnd => "parse_end"
  | onError => "on_error"
  | scopeEnter => "scope_enter"
  | scopeExit => "scope_exit"

/-- The events in the order in which a refused registration lists them. -/
def all : List Event :=
  [parseStart, parseEnd, onError, scopeEnter, scopeExit]

/-- The event of a name. -/
def ofName? (name : String) : Option Event :=
  all.find? fun event => event.name == name

end Event

end BlockCalc
