import BlockCalc.Failure

/-!
# Operations on values

What each operator computes. Integers are signed words of 32 bits: results outside that range fail,
shifts and bitwise operators work on the two's complement of the word, and division goes toward
zero. Every operator first looks at whether its operands are present, the left one before the right
one.
-/

namespace BlockCalc

namespace Word

/-- The least number that a word holds. -/
def least : Int := -2147483648

/-- The greatest number that a word holds. -/
def greatest : Int := 2147483647

/-- A word holds the number. -/
def InRange (number : Int) : Prop :=
  least ≤ number ∧ number ≤ greatest

instance (number : Int) : Decidable (InRange number) :=
  inferInstanceAs (Decidable (_ ∧ _))

/-- The word of an integer in two's complement. -/
def ofInt (number : Int) : BitVec 32 :=
  BitVec.ofInt 32 number

/-- An exact result, which fails if no word can hold it. -/
def checked (result : Int) : Except Cause Int :=
  if greatest < result then .error .overflow
  else if result < least then .error .underflow
  else .ok result

/-- The quotient of the sizes of two integers, which is negative if their signs differ. -/
def truncated (dividend divisor : Int) : Int :=
  let size := dividend.natAbs / divisor.natAbs
  if decide (dividend < 0) ≠ decide (divisor < 0) then -size else size

/-- The quotient of two integers, rounded toward zero. -/
def quotient (dividend divisor : Int) : Except Cause Int :=
  if divisor = 0 then .error .divideByZero
  else checked (truncated dividend divisor)

/-- The remainder of two integers, with the sign of the dividend. -/
def remainder (dividend divisor : Int) : Except Cause Int :=
  if divisor = 0 then .error .divideByZero
  else if dividend = least ∧ divisor = -1 then .error .overflow
  else .ok (dividend - divisor * truncated dividend divisor)

/--
Shifts a word to the left; bits that pass the sign bit are lost. The assumption is that numpy's
`left_shift` of 32-bit integers does the same to the two's complement, for counts below 32.
-/
def shiftLeft (number count : Int) : Except Cause Int :=
  if 0 ≤ count ∧ count < 32 then .ok (ofInt number <<< count.toNat).toInt
  else .error .overflow

/--
Shifts a word to the right; the sign bit is repeated. The assumption is that numpy's `right_shift`
of 32-bit integers does the same to the two's complement, for counts below 32.
-/
def shiftRight (number count : Int) : Except Cause Int :=
  if 0 ≤ count ∧ count < 32 then .ok ((ofInt number).sshiftRight count.toNat).toInt
  else .error .underflow

end Word

namespace Value

/-- Truth is one, and falsehood is zero. -/
def ofBool (truth : Bool) : Value :=
  .integer (if truth then 1 else 0)

/-- Fails for a value that no operation can use. -/
def expectPresent : Value → Except Cause Unit
  | .uninitialized => .error .uninitialized
  | .void => .error .voidOperand
  | _ => .ok ()

/-- The value that a plain assignment stores. -/
def store (value : Value) : Except Cause Value := do
  value.expectPresent
  return value

end Value

/-- What operators of one sort have in common: which operands they take and what they give. -/
inductive Operation where
  | arithmetic (compute : Int → Int → Except Cause Int)
  | comparison (holds : Int → Int → Bool)
  /-- Tells whether two values of any kind are equal or, if not `expected`, different. -/
  | equality (expected : Bool)
  | sum
  | assignment

namespace BinaryOp

/-- What an operator computes. -/
def operation : BinaryOp → Operation
  | mul => .arithmetic fun left right => Word.checked (left * right)
  | div => .arithmetic Word.quotient
  | rem => .arithmetic Word.remainder
  | add => .sum
  | sub => .arithmetic fun left right => Word.checked (left - right)
  | shr => .arithmetic Word.shiftRight
  | shl => .arithmetic Word.shiftLeft
  | band => .arithmetic fun left right => .ok (Word.ofInt left &&& Word.ofInt right).toInt
  | bor => .arithmetic fun left right => .ok (Word.ofInt left ||| Word.ofInt right).toInt
  | bxor => .arithmetic fun left right => .ok (Word.ofInt left ^^^ Word.ofInt right).toInt
  | eq => .equality true
  | ne => .equality false
  | gt => .comparison fun left right => right < left
  | lt => .comparison fun left right => left < right
  | ge => .comparison fun left right => right ≤ left
  | le => .comparison fun left right => left ≤ right
  | and => .arithmetic fun left right => .ok (if left ≠ 0 ∧ right ≠ 0 then 1 else 0)
  | or => .arithmetic fun left right => .ok (if left ≠ 0 ∨ right ≠ 0 then 1 else 0)
  | assign | addAssign | subAssign | mulAssign | divAssign | remAssign | borAssign | bandAssign
  | bxorAssign | shrAssign | shlAssign => .assignment

/-- What an operator makes of two values that are present; kinds that do not fit fail. -/
def combine (operator : BinaryOp) (left right : Value) : Except Cause Value :=
  match operator.operation, left, right with
  | .arithmetic compute, .integer left, .integer right => return .integer (← compute left right)
  | .arithmetic _, left, right => .error (.invalidExpression (.inapplicable operator left right))
  | .comparison holds, .integer left, .integer right => return .ofBool (holds left right)
  | .comparison _, left, right => .error (.invalidExpression (.incomparable left right))
  | .equality expected, left, right => return .ofBool (decide (left = right) == expected)
  | .sum, .integer left, .integer right => return .integer (← Word.checked (left + right))
  | .sum, .text left, .text right => return .text (left ++ right)
  | .sum, left, right => .error (.invalidExpression (.unaddable left right))
  | .assignment, _, _ => .error (.invalidExpression (.notBinary operator))

/-- The value of an operator on two operands; an assignment has none. -/
def apply (operator : BinaryOp) (left right : Value) : Except Cause Value := do
  if operator.isAssignment then
    throw (.invalidExpression (.notBinary operator))
  left.expectPresent
  right.expectPresent
  operator.combine left right

/-- The value that an assignment stores in a variable that holds `current`. -/
def assigned (operator : BinaryOp) (current right : Value) : Except Cause Value :=
  if operator = assign then right.store
  else match operator.compoundBase? with
    | some base => base.apply current right
    | none => .error (.invalidExpression (.notAssignment operator))

end BinaryOp

namespace UnaryOp

/-- What a unary operator makes of a value that is present. -/
def transform (operator : UnaryOp) (operand : Value) : Except Cause Value :=
  match operator, operand with
  | addr, operand => .ok (.pointer operand)
  | addrAddr, operand => .ok (.pointer (.pointer operand))
  | deref, .pointer target => .ok target
  | deref, _ => .error .invalidDereference
  | pos, .integer number => .ok (.integer number)
  | neg, .integer number => return .integer (← Word.checked (-number))
  | compl, .integer number => .ok (.integer (~~~Word.ofInt number).toInt)
  | not, .integer number => .ok (.ofBool (number == 0))
  | operator, operand => .error (.invalidExpression (.notInteger operator operand))

/-- The value of a unary operator on an operand. -/
def apply (operator : UnaryOp) (operand : Value) : Except Cause Value := do
  operand.expectPresent
  operator.transform operand

end UnaryOp

end BlockCalc
