import BlockCalc.Evaluation.Basic
import BlockCalc.Operation

/-!
# Pending operators

An expression is read from left to right without building a tree. Operators wait on a stack until
one that does not bind tighter follows, and are then reduced: their operands are resolved and
combined. Equal operators in a row share one place on the stack, so a reduction may have many
operands. Operands stay unresolved until their operator is reduced, which is when variables are
read, unary operators are applied, and assignments find their targets.
-/

namespace BlockCalc

/-- An operand that has been read but not resolved. -/
inductive Term where
  | variable (name : String) (location : Location)
  | value (value : Value) (location : Location)
  | unary (operator : UnaryOp) (operand : Term) (location : Location)

/-- The location of the first token of an operand, or of the operator that computed it. -/
def Term.location : Term → Location
  | .variable _ location => location
  | .value _ location => location
  | .unary _ _ location => location

/-- An operator that waits for its last operand, at the location of its first occurrence. -/
structure Pending where
  operator : BinaryOp
  /-- The operands in the order of reading. -/
  operands : List Term
  location : Location

/-- The operator with one more operand at the end. -/
def Pending.push (pending : Pending) (term : Term) : Pending :=
  { pending with operands := pending.operands ++ [term] }

/-- Whether a value decides a conjunction or a disjunction, so that what follows is not resolved. -/
def decides (operator : BinaryOp) (value : Value) : Bool :=
  match operator, value with
  | .and, .integer number => number == 0
  | .or, .integer number => number != 0
  | _, _ => false

namespace Eval

variable {σ : Type}

/-- The value of an operand, for which variables are read only now. -/
def resolve : Term → Eval σ Value
  | .variable name location => do locating location (ofExcept ((← get).scope.read name))
  | .value value _ => pure value
  | .unary operator operand location => do
      let value ← resolve operand
      locating location (ofExcept (operator.apply value))

/-- Combines a value with the operands that follow it, from left to right. -/
def combine (operator : BinaryOp) : Value → List Term → Eval σ Value
  | value, [] => pure value
  | value, term :: rest => do
      if decides operator value then
        pure value
      else
        let right ← resolve term
        combine operator (← ofExcept (operator.apply value right)) rest

variable (settings : Settings σ)

/-- Sets a variable as an assignment does and gives the value that it has then. -/
def store (operator : BinaryOp) (name : String) (right : Value) : Eval σ Value := do
  if operator = .assign then
    let value ← ofExcept right.store
    setScope (← ofExcept ((← get).scope.assign name value))
    return value
  else
    let (value, scope) ← ofExcept ((← get).scope.update name (operator.assigned · right))
    setScope scope
    return value

/-- Assigns to targets, the last one in the source first; each passes its new value on. -/
def assignAll (operator : BinaryOp) : Value → List Term → Eval σ Unit
  | _, [] => pure ()
  | right, .variable name location :: rest => do
      let value ← store operator name right
      record settings (.assign name operator value) (some location)
      assignAll operator value rest
  | _, target :: _ => fail (.invalidExpression .targetNotVariable) (some target.location)

/-- Applies an operator to its operands; there must be two at least. -/
def reduce (pending : Pending) : Eval σ Value :=
  match pending.operands with
  | first :: second :: rest => do
      record settings (.reduce pending.operator (rest.length + 2)) (some pending.location)
      locating pending.location do
        if pending.operator.isAssignment then
          match (first :: second :: rest).reverse with
          | last :: targets => do
              assignAll settings pending.operator (← resolve last) targets
              return .void
          | [] => return .void
        else
          combine pending.operator (← resolve first) (second :: rest)
  | few => fail (.unhandled (.tooFewOperands pending.operator few.length)) none

/-- Reduces all pending operators, innermost first, when an expression ends with an operand. -/
def collapse : List Pending → Term → Eval σ Value
  | [], term => resolve term
  | top :: outer, term => do
      let value ← reduce settings (top.push term)
      collapse outer (.value value top.location)

/--
Puts an operator on the stack after the operand before it, once the operators that bind before it
have been reduced.
-/
def pushOperator (operator : BinaryOp) (location : Location) :
    List Pending → Term → Eval σ (List Pending)
  | [], term => pure [{ operator, operands := [term], location }]
  | top :: outer, term => do
      if top.operator = operator then
        return top.push term :: outer
      else if top.operator.bindsBefore operator then
        let value ← reduce settings (top.push term)
        pushOperator operator location outer (.value value top.location)
      else
        return { operator, operands := [term], location } :: top :: outer

end Eval

end BlockCalc
