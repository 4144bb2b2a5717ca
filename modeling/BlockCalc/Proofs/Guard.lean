import BlockCalc.Operation
import BlockCalc.Scope
import Mathlib.Tactic.SplitIfs

/-!
# Guards

Some causes of failure blame the evaluator or a handler and not the program: an incident that it
cannot handle, a binary operation that is no operation on values, an assignment that does not
assign, and what a handler raises besides failures. The
operations of this file never fail for such a cause, but only for causes of a few kinds that speak
of their operands, or where a scope is asked, of a name that is not bound. Binary operators need the
hypothesis that they are no assignments, and assignments the hypothesis that they are; keeping the
two apart is up to the evaluator.
-/

namespace BlockCalc

/-- The cause blames the evaluator or a handler and not the program. -/
def Cause.IsGuard : Cause → Prop
  | .unhandled _ => True
  | .invalidExpression (.notBinary _) => True
  | .invalidExpression (.notAssignment _) => True
  | .foreign _ => True
  | _ => False

/-- The cause blames the brackets of a program for being nested too deep. -/
def Cause.IsTooDeep : Cause → Prop
  | .invalidExpression (.tooDeep _) => True
  | _ => False

/-- The cause blames a bracket for having no partner. -/
def Cause.IsMismatch : Cause → Prop
  | .bracketMismatch _ => True
  | _ => False

/--
The cause speaks of the operands of an operation, or of a name that is not bound if it may be one.
-/
def Cause.IsOperational (maybeUnbound : Prop) : Cause → Prop
  | .invalidExpression (.inapplicable _ _ _) => True
  | .invalidExpression (.incomparable _ _) => True
  | .invalidExpression (.unaddable _ _) => True
  | .invalidExpression (.notInteger _ _) => True
  | .invalidDereference => True
  | .variableNotFound _ => maybeUnbound
  | .overflow => True
  | .underflow => True
  | .divideByZero => True
  | .voidOperation _ => True
  | .uninitialized => True
  | _ => False

variable {maybeUnbound : Prop}

theorem Cause.IsOperational.noGuard {cause : Cause}
    (operational : cause.IsOperational maybeUnbound) : ¬cause.IsGuard := by
  cases cause with
  | invalidExpression reason => cases reason <;> first | exact not_false | exact operational.elim
  | _ => first | exact not_false | exact operational.elim

theorem Cause.IsOperational.not_tooDeep {cause : Cause}
    (operational : cause.IsOperational maybeUnbound) : ¬cause.IsTooDeep := by
  cases cause with
  | invalidExpression reason => cases reason <;> first | exact not_false | exact operational.elim
  | _ => exact not_false

theorem Cause.IsOperational.not_mismatch {cause : Cause}
    (operational : cause.IsOperational maybeUnbound) : ¬cause.IsMismatch := by
  cases cause <;> first | exact not_false | exact operational.elim

theorem Cause.IsOperational.ne_variableNotFound {cause : Cause}
    (operational : cause.IsOperational False) (name : String) : cause ≠ .variableNotFound name := by
  rintro rfl
  exact operational

/-- The outcome is a result or has a cause that is no guard. -/
def Unguarded {α : Type} (outcome : Except Cause α) : Prop :=
  ∀ cause, outcome = .error cause → ¬cause.IsGuard

/-- The outcome is a result or has a cause that speaks of operands, or of a name. -/
def Operational {α : Type} (maybeUnbound : Prop) (outcome : Except Cause α) : Prop :=
  ∀ cause, outcome = .error cause → cause.IsOperational maybeUnbound

theorem Operational.unguarded {α : Type} {outcome : Except Cause α}
    (operational : Operational True outcome) : Unguarded outcome := by
  intro cause failed
  exact (operational cause failed).noGuard

namespace Operational

variable {α β : Type}

@[simp]
theorem ok (result : α) : Operational maybeUnbound (.ok result) := by
  intro cause failed
  cases failed

@[simp]
theorem error_iff {cause : Cause} :
    Operational maybeUnbound (.error cause : Except Cause α) ↔
      cause.IsOperational maybeUnbound := by
  constructor
  · intro operational
    exact operational cause rfl
  · intro isOperational other failed
    cases failed
    exact isOperational

theorem bind {outcome : Except Cause α} {next : α → Except Cause β}
    (first : Operational maybeUnbound outcome)
    (second : ∀ result, Operational maybeUnbound (next result)) :
    Operational maybeUnbound (outcome >>= next) := by
  cases outcome with
  | ok result => exact second result
  | error cause => exact error_iff.mpr (error_iff.mp first)

end Operational

namespace Word

theorem operational_checked (result : Int) : Operational maybeUnbound (checked result) := by
  simp only [checked]
  split_ifs <;> simp [Cause.IsOperational]

theorem operational_quotient (dividend divisor : Int) :
    Operational maybeUnbound (quotient dividend divisor) := by
  simp only [quotient]
  split_ifs
  · simp [Cause.IsOperational]
  · exact operational_checked _

theorem operational_remainder (dividend divisor : Int) :
    Operational maybeUnbound (remainder dividend divisor) := by
  simp only [remainder]
  split_ifs <;> simp [Cause.IsOperational]

theorem operational_shiftLeft (number count : Int) :
    Operational maybeUnbound (shiftLeft number count) := by
  simp only [shiftLeft]
  split_ifs <;> simp [Cause.IsOperational]

theorem operational_shiftRight (number count : Int) :
    Operational maybeUnbound (shiftRight number count) := by
  simp only [shiftRight]
  split_ifs <;> simp [Cause.IsOperational]

end Word

namespace Value

theorem operational_expectPresent (value : Value) :
    Operational maybeUnbound value.expectPresent := by
  cases value <;> simp [expectPresent, Cause.voidOperand, Cause.IsOperational]

theorem operational_store (value : Value) : Operational maybeUnbound value.store :=
  value.operational_expectPresent.bind fun _ => .ok value

end Value

namespace BinaryOp

theorem operation_ne_assignment {operator : BinaryOp} (plain : operator.isAssignment = false) :
    operator.operation ≠ .assignment := by
  cases operator <;> simp_all [operation, isAssignment, priority]

theorem operational_arithmetic {operator : BinaryOp} {compute : Int → Int → Except Cause Int}
    (computes : operator.operation = .arithmetic compute) (left right : Int) :
    Operational maybeUnbound (compute left right) := by
  cases operator <;> simp only [operation, Operation.arithmetic.injEq, reduceCtorEq] at computes <;>
    subst computes
  case mul => exact Word.operational_checked _
  case sub => exact Word.operational_checked _
  case div => exact Word.operational_quotient _ _
  case rem => exact Word.operational_remainder _ _
  case shl => exact Word.operational_shiftLeft _ _
  case shr => exact Word.operational_shiftRight _ _
  all_goals exact Operational.ok _

theorem operational_combine {operator : BinaryOp} (plain : operator.isAssignment = false)
    (left right : Value) : Operational maybeUnbound (operator.combine left right) := by
  simp only [combine]
  split
  case h_1 computes => exact (operational_arithmetic computes _ _).bind fun _ => .ok _
  case h_6 => exact (Word.operational_checked _).bind fun _ => .ok _
  case h_9 assigns => exact absurd assigns (operation_ne_assignment plain)
  all_goals
    first
    | exact Operational.ok _
    | exact Operational.error_iff.mpr trivial

/-- An operator that is no assignment never fails for want of an operation. -/
theorem operational_apply {operator : BinaryOp} (plain : operator.isAssignment = false)
    (left right : Value) : Operational maybeUnbound (operator.apply left right) := by
  simp only [apply]
  simp only [plain, Bool.false_eq_true, if_false]
  apply Operational.bind left.operational_expectPresent
  intro _
  apply Operational.bind right.operational_expectPresent
  intro _
  exact operational_combine plain left right

theorem compoundBase?_of_isAssignment {operator : BinaryOp} (assigns : operator.isAssignment = true)
    (compound : operator ≠ assign) :
    ∃ base, operator.compoundBase? = some base ∧ base.isAssignment = false := by
  cases operator <;> first
    | exact absurd rfl compound
    | exact ⟨_, rfl, rfl⟩
    | simp [isAssignment, priority] at assigns

/-- An assignment never fails for not being one. -/
theorem operational_assigned {operator : BinaryOp} (assigns : operator.isAssignment = true)
    (current right : Value) : Operational maybeUnbound (operator.assigned current right) := by
  simp only [assigned]
  by_cases simple : operator = assign
  · simpa only [simple, if_true] using right.operational_store
  · rcases compoundBase?_of_isAssignment assigns simple with ⟨base, isBase, plain⟩
    simpa only [simple, if_false, isBase] using operational_apply plain current right

end BinaryOp

namespace UnaryOp

theorem operational_transform (operator : UnaryOp) (operand : Value) :
    Operational maybeUnbound (operator.transform operand) := by
  simp only [transform]
  split
  case h_6 => exact (Word.operational_checked _).bind fun _ => .ok _
  all_goals
    first
    | exact Operational.ok _
    | exact Operational.error_iff.mpr trivial

theorem operational_apply (operator : UnaryOp) (operand : Value) :
    Operational maybeUnbound (operator.apply operand) :=
  operand.operational_expectPresent.bind fun _ => operator.operational_transform operand

end UnaryOp

namespace Scope

theorem operational_read (scope : Scope) (name : String) : Operational True (scope.read name) := by
  simp only [read]
  split <;> simp [Cause.IsOperational]

theorem operational_assign (scope : Scope) (name : String) (value : Value) :
    Operational True (scope.assign name value) := by
  simp only [assign]
  split
  · exact Operational.ok _
  · split_ifs <;> simp [Cause.IsOperational]

theorem operational_update {change : Value → Except Cause Value} (scope : Scope) (name : String)
    (operational : ∀ value, Operational True (change value)) :
    Operational True (scope.update name change) := by
  simp only [update]
  apply Operational.bind (scope.operational_read name)
  intro current
  apply Operational.bind (operational current)
  intro value
  apply Operational.bind (scope.operational_assign name value)
  intro _
  exact Operational.ok _

end Scope

end BlockCalc
