/-!
# Operators

The operators with their symbols and the order in which they bind. A lower priority number binds
tighter. Operators of equal priority associate to the left, except assignments, which nest to the
right.
-/

namespace BlockCalc

/-- The operators that stand between operands. -/
inductive BinaryOp where
  | mul | div | rem
  | add | sub
  | shr | shl
  | band | bor | bxor
  | eq | ne | gt | lt | ge | le
  | and | or
  | assign
  | addAssign | subAssign | mulAssign | divAssign | remAssign
  | borAssign | bandAssign | bxorAssign | shrAssign | shlAssign
deriving DecidableEq, Repr

/-- The operators that stand before an operand. -/
inductive UnaryOp where
  | pos | neg
  /-- Makes a pointer. -/
  | addr
  /-- Makes a pointer to a pointer. -/
  | addrAddr
  | deref
  | not
  | compl
deriving DecidableEq, Repr

namespace BinaryOp

/-- All binary operators. -/
def all : List BinaryOp :=
  [mul, div, rem, add, sub, shr, shl, band, bor, bxor, eq, ne, gt, lt, ge, le, and, or, assign,
    addAssign, subAssign, mulAssign, divAssign, remAssign, borAssign, bandAssign, bxorAssign,
    shrAssign, shlAssign]

/-- How a binary operator is written. -/
def symbol : BinaryOp → String
  | mul => "*" | div => "/" | rem => "%"
  | add => "+" | sub => "-"
  | shr => ">>" | shl => "<<"
  | band => "&" | bor => "|" | bxor => "^"
  | eq => "==" | ne => "!=" | gt => ">" | lt => "<" | ge => ">=" | le => "<="
  | and => "&&" | or => "||"
  | assign => "="
  | addAssign => "+=" | subAssign => "-=" | mulAssign => "*=" | divAssign => "/="
  | remAssign => "%=" | borAssign => "|=" | bandAssign => "&=" | bxorAssign => "^="
  | shrAssign => ">>=" | shlAssign => "<<="

/-- The place of an operator in the order of binding; a lower one binds tighter. -/
def priority : BinaryOp → Nat
  | mul | div | rem => 0
  | add | sub => 1
  | shr | shl => 2
  | band | bor | bxor => 3
  | eq | ne | gt | lt | ge | le => 4
  | and | or => 5
  | assign | addAssign | subAssign | mulAssign | divAssign | remAssign | borAssign | bandAssign
  | bxorAssign | shrAssign | shlAssign => 6

/-- The operator that a compound assignment applies before it stores. -/
def compoundBase? : BinaryOp → Option BinaryOp
  | addAssign => some add
  | subAssign => some sub
  | mulAssign => some mul
  | divAssign => some div
  | remAssign => some rem
  | borAssign => some bor
  | bandAssign => some band
  | bxorAssign => some bxor
  | shrAssign => some shr
  | shlAssign => some shl
  | _ => none

/-- Assignments are the operators that bind most loosely. -/
def isAssignment (operator : BinaryOp) : Bool :=
  operator.priority == 6

/-- A pending operator is applied before `upcoming` is looked at further. -/
def bindsBefore (pending upcoming : BinaryOp) : Bool :=
  pending.priority < upcoming.priority ||
    (pending.priority == upcoming.priority && !upcoming.isAssignment)

/-- The binary operator that is written in a given way. -/
def ofSymbol? (symbol : String) : Option BinaryOp :=
  all.find? fun operator => operator.symbol == symbol

theorem mem_all (operator : BinaryOp) : operator ∈ all := by
  cases operator <;> decide

end BinaryOp

namespace UnaryOp

/-- All unary operators. -/
def all : List UnaryOp :=
  [pos, neg, addr, addrAddr, deref, not, compl]

/-- How a unary operator is written. Some binary operators are written in the same way. -/
def symbol : UnaryOp → String
  | pos => "+" | neg => "-" | addr => "&" | addrAddr => "&&" | deref => "*" | not => "!"
  | compl => "~"

/-- The unary operator that is written in a given way. -/
def ofSymbol? (symbol : String) : Option UnaryOp :=
  all.find? fun operator => operator.symbol == symbol

theorem mem_all (operator : UnaryOp) : operator ∈ all := by
  cases operator <;> decide

end UnaryOp

end BlockCalc
