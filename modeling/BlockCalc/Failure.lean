import BlockCalc.Event
import BlockCalc.Location
import BlockCalc.Operator
import BlockCalc.Text.Numeral
import BlockCalc.Value

/-!
# Failures

Why an evaluation fails, in three layers: `Cause` names the kinds of failure, `Malformed` and
`Incident` say what was wrong with an expression and which guard gave way, and a `Failure` adds
where and when it happened. Every wording is here.
-/

namespace BlockCalc

/-- What is wrong with an expression. -/
inductive Malformed where
  | inapplicable (operator : BinaryOp) (left right : Value)
  | incomparable (left right : Value)
  | unaddable (left right : Value)
  /-- An assignment stands where an operator on two values is needed. -/
  | notBinary (operator : BinaryOp)
  | notAssignment (operator : BinaryOp)
  | notInteger (operator : UnaryOp) (operand : Value)
  | letWithoutName
  | misplacedLet
  | missingOperand
  | expectedOperator (found : String)
  | illegalOperator (symbol : String)
  | tooDeep (limit : Nat)
  | targetNotVariable
  | other (detail : String)
deriving DecidableEq

/-- What an evaluation cannot handle: a guard that gave way, or a handler that crashed. -/
inductive Incident where
  /-- A decimal literal has more digits than are converted. -/
  | tooManyDigits (count : Nat)
  | handlerCrashed (event : Event) (reason : String)
  | stepRuleCrashed (reason : String)
  /-- The outermost frame was to be left. -/
  | outermostExit
  | tooFewOperands (operator : BinaryOp) (count : Nat)
  /-- A bracket was to be closed while none was open. -/
  | noOpenGroup
  /-- Something broke down that is no part of the evaluation. -/
  | brokeDown (reason : String)
  | other (message : String)
deriving DecidableEq

/-- Why an evaluation fails. -/
inductive Cause where
  | bracketMismatch (bracket : String)
  | invalidExpression (reason : Malformed)
  | invalidDereference
  | invalidInteger (literal : String)
  | variableNotFound (name : String)
  | overflow
  | underflow
  | divideByZero
  | voidOperation (message : String)
  | uninitialized
  | noInput
  | unhandled (incident : Incident)
  /--
  A handler has raised what is no failure of an evaluation. With a reason it is turned into such a
  failure where the evaluation ends; without one it ends whatever called the evaluation, too.
  -/
  | foreign (reason : Option String)
  | other (message : String)
deriving DecidableEq

namespace Malformed

/-- What is said of an expression that is wrong. -/
def detail : Malformed → String
  | inapplicable operator left right =>
      "Operator \"" ++ operator.symbol ++ "\" cannot be applied to " ++ left.render ++ " and " ++
        right.render ++ "."
  | incomparable left right => "Cannot compare " ++ left.render ++ " and " ++ right.render ++ "."
  | unaddable left right => "Cannot add " ++ left.render ++ " and " ++ right.render ++ "."
  | notBinary operator => "Invalid operator \"" ++ operator.symbol ++ "\"."
  | notAssignment operator => "\"" ++ operator.symbol ++ "\" is not an assignment operator."
  | notInteger operator operand =>
      "Operator \"" ++ operator.symbol ++ "\" expects an integer operand, got " ++ operand.render ++
        "."
  | letWithoutName => "Next of \"let\" keyword must be variable name."
  | misplacedLet => "\"let\" must start a statement."
  | missingOperand => "Operator is missing its right-hand operand."
  | expectedOperator found => "Expected an operator but found \"" ++ found ++ "\"."
  | illegalOperator symbol => "Illegal operator \"" ++ symbol ++ "\"."
  | tooDeep limit => "Nesting deeper than " ++ limit.repr ++ " levels."
  | targetNotVariable => "The left-hand must be variable."
  | other detail => detail

end Malformed

namespace Incident

/-- What is said of an incident. -/
def message : Incident → String
  | tooManyDigits count =>
      "Internal interpreter error: Exceeds the limit (" ++ Text.numeralLimit.repr ++
        " digits) for integer string conversion: value has " ++ count.repr ++
        " digits; use sys.set_int_max_str_digits() to increase the limit"
  | handlerCrashed event reason => "Hook '" ++ event.name ++ "' failed: " ++ reason
  | stepRuleCrashed reason => "Step rule failed: " ++ reason
  | outermostExit => "Cannot exit the top-level scope"
  | tooFewOperands operator count =>
      "Operator \"" ++ operator.symbol ++ "\" reached reduction with " ++ count.repr ++
        " operand(s)"
  | noOpenGroup => "Internal interpreter error: list index out of range"
  | brokeDown reason => "Internal interpreter error: " ++ reason
  | other message => message

end Incident

namespace Cause

/-- The cause of all operations on void. -/
def voidOperand : Cause :=
  .voidOperation "Cannot operate with void."

/-- The name of a kind of failure. -/
def kind : Cause → String
  | bracketMismatch _ => "BracketMismatch"
  | invalidExpression _ => "InvalidExpression"
  | invalidDereference => "InvalidDereference"
  | invalidInteger _ => "InvalidInteger"
  | variableNotFound _ => "VariableNotFound"
  | overflow => "OperationOverflow"
  | underflow => "OperationUnderflow"
  | divideByZero => "DivideByZero"
  | voidOperation _ => "VoidOperation"
  | uninitialized => "Uninitialized"
  | noInput => "NoInput"
  | unhandled _ => "Unhandled"
  | foreign _ => "Foreign"
  | other _ => "Error"

/-- The name that a traceback gives to a kind of failure. -/
def title : Cause → String
  | other _ => "ExprError"
  | foreign _ => "Exception"
  | cause => cause.kind ++ "Error"

/-- What is wrong with the expression, for the kinds of failure that say so. -/
def detail? : Cause → Option String
  | invalidExpression reason => some reason.detail
  | invalidDereference => some "Invalid dereference."
  | _ => none

/-- What is said of a cause. -/
def message : Cause → String
  | bracketMismatch bracket => "There are no corresponding brackets to \"" ++ bracket ++ "\""
  | invalidExpression reason => "Invalid expression: " ++ reason.detail
  | invalidDereference => "Invalid expression: Invalid dereference."
  | invalidInteger literal => "Invalid integer \"" ++ literal ++ "\"."
  | variableNotFound name => "Variable \"" ++ name ++ "\" was not found."
  | overflow => "Overflow occurred"
  | underflow => "Underflow occurred"
  | divideByZero => "Divide by zero error"
  | voidOperation message => message
  | uninitialized => "Variable was uninitialized"
  | noInput => "No inputs."
  | unhandled incident => incident.message
  | foreign reason => reason.getD ""
  | other message => message

end Cause

/-- A cause with where it struck, the last step before it, and the groups that were open. -/
structure Failure where
  cause : Cause
  location : Option Location := none
  stepIndex : Option Nat := none
  /-- The groups open at the moment of the failure, outermost first. -/
  groups : List Group := []
deriving DecidableEq

namespace Failure

/-- The failure at a location, unless it has one already. -/
def locate (failure : Failure) (location : Location) : Failure :=
  { failure with location := failure.location <|> some location }

end Failure

end BlockCalc
