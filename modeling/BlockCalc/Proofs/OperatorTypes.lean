import BlockCalc.Proofs.Effect

/-!
# Operators and the kinds of their operands

Which operands an operator takes, and which failure wins where several are due. An operand that is
not present comes first, the left one before the right one, whatever the operator is. Then equality
takes operands of any kinds, a sum takes two texts, and all other binary operators take two integers
and complain about any other pair. An assignment asks no more than its operator does, and a plain
one does not look at the old value.
-/

namespace BlockCalc

namespace Value

/-- The failure of an operation on a value that is not present. -/
def absence? : Value → Option Cause
  | .uninitialized => some .uninitialized
  | .void => some .voidOperand
  | _ => none

/-- The value is an integer. -/
def IsInteger (value : Value) : Prop :=
  ∃ number, value = .integer number

/-- The value is a text. -/
def IsText (value : Value) : Prop :=
  ∃ content, value = .text content

/-- The value is a pointer. -/
def IsPointer (value : Value) : Prop :=
  ∃ target, value = .pointer target

theorem expectPresent_of_absence? {value : Value} {cause : Cause}
    (absent : value.absence? = some cause) : value.expectPresent = .error cause := by
  cases value <;> simp_all [absence?, expectPresent]

theorem expectPresent_of_present {value : Value} (present : value.Present) :
    value.expectPresent = .ok () := by
  cases value <;> simp_all [Present, expectPresent]

end Value

namespace BinaryOp

/-- The integer that an operator makes of two integers; an assignment makes none. -/
def onIntegers (operator : BinaryOp) (left right : Int) : Except Cause Int :=
  match operator with
  | mul => Word.checked (left * right)
  | div => Word.quotient left right
  | rem => Word.remainder left right
  | add => Word.checked (left + right)
  | sub => Word.checked (left - right)
  | shr => Word.shiftRight left right
  | shl => Word.shiftLeft left right
  | band => .ok (Word.ofInt left &&& Word.ofInt right).toInt
  | bor => .ok (Word.ofInt left ||| Word.ofInt right).toInt
  | bxor => .ok (Word.ofInt left ^^^ Word.ofInt right).toInt
  | eq => .ok (if left = right then 1 else 0)
  | ne => .ok (if left = right then 0 else 1)
  | gt => .ok (if right < left then 1 else 0)
  | lt => .ok (if left < right then 1 else 0)
  | ge => .ok (if right ≤ left then 1 else 0)
  | le => .ok (if left ≤ right then 1 else 0)
  | and => .ok (if left ≠ 0 ∧ right ≠ 0 then 1 else 0)
  | or => .ok (if left ≠ 0 ∨ right ≠ 0 then 1 else 0)
  | operator => .error (.invalidExpression (.notBinary operator))

/-- What an operator complains about where it takes integers, or for a sum texts as well. -/
def complaint (operator : BinaryOp) (left right : Value) : Malformed :=
  match operator with
  | add => .unaddable left right
  | gt | lt | ge | le => .incomparable left right
  | operator => .inapplicable operator left right

/-- The outcome is what an operator that is no assignment makes of two operands. -/
structure Typed (operator : BinaryOp) (left right : Value) (outcome : Except Cause Value) :
    Prop where
  leftAbsent : ∀ cause, left.absence? = some cause → outcome = .error cause
  rightAbsent : left.Present → ∀ cause, right.absence? = some cause → outcome = .error cause
  equality : left.Present → right.Present → operator = eq →
    outcome = .ok (.integer (if left = right then 1 else 0))
  difference : left.Present → right.Present → operator = ne →
    outcome = .ok (.integer (if left = right then 0 else 1))
  concatenation : operator = add → ∀ front back, left = .text front → right = .text back →
    outcome = .ok (.text (front ++ back))
  integers : ∀ first second, left = .integer first → right = .integer second →
    outcome = .integer <$> operator.onIntegers first second
  mistyped : left.Present → right.Present → operator ≠ eq → operator ≠ ne →
    ¬(left.IsInteger ∧ right.IsInteger) → ¬(operator = add ∧ left.IsText ∧ right.IsText) →
      outcome = .error (.invalidExpression (operator.complaint left right))

section Plain

variable {operator : BinaryOp} (plain : operator.isAssignment = false) {left right : Value}

include plain

theorem apply_of_left_absent {cause : Cause} (absent : left.absence? = some cause) :
    operator.apply left right = .error cause := by
  simp only [apply, plain, Value.expectPresent_of_absence? absent]
  rfl

theorem apply_of_right_absent (present : left.Present) {cause : Cause}
    (absent : right.absence? = some cause) : operator.apply left right = .error cause := by
  simp only [apply, plain, Value.expectPresent_of_present present,
    Value.expectPresent_of_absence? absent]
  rfl

theorem apply_of_present (leftPresent : left.Present) (rightPresent : right.Present) :
    operator.apply left right = operator.combine left right := by
  simp only [apply, plain, Value.expectPresent_of_present leftPresent,
    Value.expectPresent_of_present rightPresent]
  rfl

theorem apply_integers (first second : Int) :
    operator.apply (.integer first) (.integer second) =
      .integer <$> operator.onIntegers first second := by
  have present (number : Int) : (Value.integer number).Present := by simp [Value.Present]
  rw [apply_of_present plain (present first) (present second)]
  cases operator with
  | eq | ne | gt | lt | ge | le =>
      simp [combine, operation, onIntegers, Value.ofBool, Functor.map, Except.map, pure,
        Except.pure]
  | assign | addAssign | subAssign | mulAssign | divAssign | remAssign | borAssign | bandAssign
  | bxorAssign | shrAssign | shlAssign => exact absurd plain (by decide)
  | _ => rfl

theorem apply_mistyped (leftPresent : left.Present) (rightPresent : right.Present)
    (noEquality : operator ≠ eq) (noDifference : operator ≠ ne)
    (noIntegers : ¬(left.IsInteger ∧ right.IsInteger))
    (noTexts : ¬(operator = add ∧ left.IsText ∧ right.IsText)) :
    operator.apply left right = .error (.invalidExpression (operator.complaint left right)) := by
  simp only [apply_of_present plain leftPresent rightPresent, combine]
  split
  case h_1 | h_3 | h_6 => exact absurd ⟨⟨_, rfl⟩, ⟨_, rfl⟩⟩ noIntegers
  case h_2 isArithmetic => cases operator <;> simp_all [operation, complaint]
  case h_4 isComparison => cases operator <;> simp_all [operation, complaint]
  case h_5 isEquality => cases operator <;> simp_all [operation]
  case h_7 isSum =>
    have sum : operator = add := by cases operator <;> simp_all [operation]
    exact absurd ⟨sum, ⟨_, rfl⟩, ⟨_, rfl⟩⟩ noTexts
  case h_8 isSum => cases operator <;> simp_all [operation, complaint]
  case h_9 assigns => exact absurd assigns (operation_ne_assignment plain)

theorem typed_apply (left right : Value) :
    operator.Typed left right (operator.apply left right) where
  leftAbsent _ absent := apply_of_left_absent plain absent
  rightAbsent present _ absent := apply_of_right_absent plain present absent
  equality leftPresent rightPresent isEq := by
    subst isEq
    rw [apply_of_present plain leftPresent rightPresent]
    simp [combine, operation, Value.ofBool, pure, Except.pure]
  difference leftPresent rightPresent isNe := by
    subst isNe
    rw [apply_of_present plain leftPresent rightPresent]
    simp [combine, operation, Value.ofBool, pure, Except.pure]
  concatenation := by
    rintro rfl front back rfl rfl
    rfl
  integers := by
    rintro first second rfl rfl
    exact apply_integers plain first second
  mistyped := apply_mistyped plain

end Plain

/-- An assignment other than the plain one is written as its operator with an equals sign. -/
theorem exists_base {operator : BinaryOp} (assigns : operator.isAssignment = true)
    (compound : operator ≠ assign) :
    ∃ base : BinaryOp, base.isAssignment = false ∧ operator.symbol = base.symbol ++ "=" ∧
      ∀ current right, operator.assigned current right = base.apply current right := by
  rcases compoundBase?_of_isAssignment assigns compound with ⟨base, isBase, plain⟩
  refine ⟨base, plain, ?_, fun current right => by simp only [assigned, compound, isBase, if_false]⟩
  cases operator <;> cases isBase <;> rfl

end BinaryOp

namespace UnaryOp

/-- The outcome is what an operator makes of one operand. -/
structure Typed (operator : UnaryOp) (operand : Value) (outcome : Except Cause Value) : Prop where
  absent : ∀ cause, operand.absence? = some cause → outcome = .error cause
  pointer : operator = addr → operand.Present →
    ∃ made, outcome = .ok made ∧ deref.apply made = .ok operand
  pointerToPointer : operator = addrAddr → operand.Present →
    ∃ made target, outcome = .ok made ∧ deref.apply made = .ok target ∧
      deref.apply target = .ok operand
  noPointer : operator = deref → operand.Present → ¬operand.IsPointer →
    outcome = .error .invalidDereference
  noInteger : operator ∈ [pos, neg, not, compl] → operand.Present → ¬operand.IsInteger →
    outcome = .error (.invalidExpression (.notInteger operator operand))

theorem apply_of_present (operator : UnaryOp) {operand : Value} (present : operand.Present) :
    operator.apply operand = operator.transform operand := by
  simp only [apply, Value.expectPresent_of_present present]
  rfl

theorem typed_apply (operator : UnaryOp) (operand : Value) :
    operator.Typed operand (operator.apply operand) where
  absent _ absent := by
    simp only [apply, Value.expectPresent_of_absence? absent]
    rfl
  pointer := by
    rintro rfl present
    exact ⟨.pointer operand, apply_of_present addr present, rfl⟩
  pointerToPointer := by
    rintro rfl present
    exact ⟨.pointer (.pointer operand), .pointer operand, apply_of_present addrAddr present, rfl,
      rfl⟩
  noPointer := by
    rintro rfl present noPointer
    rw [apply_of_present deref present]
    cases operand with
    | pointer target => exact absurd ⟨target, rfl⟩ noPointer
    | _ => rfl
  noInteger := by
    intro isIntegerOperator present noInteger
    rw [apply_of_present operator present]
    simp only [List.mem_cons, List.not_mem_nil, or_false] at isIntegerOperator
    cases operand with
    | integer number => exact absurd ⟨number, rfl⟩ noInteger
    | _ => rcases isIntegerOperator with rfl | rfl | rfl | rfl <;> rfl

end UnaryOp

/--
Operators and the kinds of their operands. Whatever the operands are, a binary operator that is no
assignment and a unary operator do what `Typed` says of them. A compound assignment does what its
operator does with the old value and the new one, and a plain one takes any value that is present,
whatever the old one is.
-/
theorem operators_on_kinds :
    (∀ operator : BinaryOp, operator.isAssignment = false → ∀ left right,
      operator.Typed left right (operator.apply left right)) ∧
    (∀ operator : BinaryOp, operator.isAssignment = true → operator ≠ .assign →
      ∃ base : BinaryOp, base.isAssignment = false ∧ operator.symbol = base.symbol ++ "=" ∧
        ∀ current right, operator.assigned current right = base.apply current right) ∧
    (∀ current right : Value,
      (∀ other, BinaryOp.assign.assigned current right = BinaryOp.assign.assigned other right) ∧
      (right.Present → BinaryOp.assign.assigned current right = .ok right) ∧
      ∀ cause, right.absence? = some cause →
        BinaryOp.assign.assigned current right = .error cause) ∧
    ∀ (operator : UnaryOp) (operand : Value),
      operator.Typed operand (operator.apply operand) := by
  refine ⟨fun operator plain left right => BinaryOp.typed_apply plain left right,
    fun operator assigns compound => BinaryOp.exists_base assigns compound, ?_,
    UnaryOp.typed_apply⟩
  intro current right
  refine ⟨fun other => rfl, Value.store_of_present, fun cause absent => ?_⟩
  simp only [BinaryOp.assigned, Value.store, Value.expectPresent_of_absence? absent]
  rfl

theorem operators_on_kinds_void_before_uninitialized :
    BinaryOp.div.apply .void .uninitialized = .error .voidOperand ∧
      BinaryOp.divAssign.assigned (.text "a") (.integer 0) =
        .error (.invalidExpression (.inapplicable .div (.text "a") (.integer 0))) := by
  rcases operators_on_kinds with ⟨binary, compound, _⟩
  refine ⟨(binary .div rfl .void .uninitialized).leftAbsent _ rfl, ?_⟩
  have applies : BinaryOp.div.apply (.text "a") (.integer 0) = _ :=
    (binary .div rfl (.text "a") (.integer 0)).mistyped (by simp [Value.Present])
      (by simp [Value.Present]) (by decide) (by decide) (by simp [Value.IsInteger]) (by simp)
  rcases compound .divAssign rfl (by decide) with ⟨base, _, symbol, same⟩
  have isDiv : base = .div := by
    cases base <;> first | rfl | exact absurd symbol (by decide)
  rw [same, isDiv, applies]
  rfl

end BlockCalc
