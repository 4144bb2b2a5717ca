import BlockCalc.Proofs.Action
import BlockCalc.Proofs.Guard
import BlockCalc.Proofs.Scope

/-!
# What steps do to the scope

A step that is recorded has changed the scope in a way that the step tells, and the scope changes in
no other way: `Scope.Takes` says how. An assignment stores a value that is present: a plain one the
value on its right, which it checks, and a compound one what its operator gives, which is a number
or a text. So a variable never becomes void, nor uninitialized again.
-/

namespace BlockCalc

namespace Value

/-- The value is one that operators take and variables are assigned. -/
def Present (value : Value) : Prop :=
  value ≠ .void ∧ value ≠ .uninitialized

theorem present_of_expectPresent {value : Value} (expected : value.expectPresent = .ok ()) :
    value.Present := by
  cases value <;> simp_all [expectPresent, Present]

theorem store_of_present {value : Value} (present : value.Present) : value.store = .ok value := by
  cases value with
  | uninitialized => exact absurd rfl present.2
  | void => exact absurd rfl present.1
  | _ => rfl

theorem store_eq_ok {value stored : Value} (stores : value.store = .ok stored) :
    stored = value ∧ value.Present := by
  rcases bind_eq_ok_iff.mp stores with ⟨_, expected, result⟩
  cases result
  exact ⟨rfl, present_of_expectPresent expected⟩

end Value

namespace BinaryOp

theorem present_of_combine {operator : BinaryOp} {left right value : Value}
    (combines : operator.combine left right = .ok value) : value.Present := by
  simp only [combine] at combines
  split at combines
  case h_1 | h_6 =>
    rcases bind_eq_ok_iff.mp combines with ⟨number, _, result⟩
    cases result
    simp [Value.Present]
  case h_3 | h_5 | h_7 =>
    cases combines
    simp [Value.Present, Value.ofBool]
  all_goals cases combines

theorem present_of_apply {operator : BinaryOp} {left right value : Value}
    (applies : operator.apply left right = .ok value) : value.Present := by
  simp only [apply] at applies
  split at applies
  · cases applies
  · rcases bind_eq_ok_iff.mp applies with ⟨_, _, rest⟩
    rcases bind_eq_ok_iff.mp rest with ⟨_, _, combines⟩
    exact present_of_combine combines

theorem assigned_eq_ok {operator : BinaryOp} {current right value : Value}
    (assigns : operator.assigned current right = .ok value) :
    value.Present ∧
      (value = right ∨ ∃ base : BinaryOp, base.apply current right = .ok value) := by
  simp only [assigned] at assigns
  split at assigns
  · rcases Value.store_eq_ok assigns with ⟨rfl, present⟩
    exact ⟨present, Or.inl rfl⟩
  · split at assigns
    · rename_i base _
      exact ⟨present_of_apply assigns, Or.inr ⟨base, assigns⟩⟩
    · cases assigns

end BinaryOp

/-- The value that an assignment gives to a name, and the scope that has it. -/
def Scope.stored (scope : Scope) (operator : BinaryOp) (name : String) (right : Value) :
    Except Cause (Value × Scope) :=
  if operator = .assign then do
    let value ← right.store
    return (value, ← scope.assign name value)
  else scope.update name (operator.assigned · right)

/-- The value that an assignment gives to a name, which only the old value has a say in. -/
def Scope.newValue (scope : Scope) (operator : BinaryOp) (name : String) (right : Value) :
    Except Cause Value :=
  if operator = .assign then right.store
  else do operator.assigned (← scope.read name) right

namespace Scope

variable {scope changed : Scope} {operator : BinaryOp} {name : String} {right value : Value}

theorem stored_eq (scope : Scope) (operator : BinaryOp) (name : String) (right : Value) :
    scope.stored operator name right = (do
      let value ← scope.newValue operator name right
      return (value, ← scope.assign name value)) := by
  by_cases plain : operator = .assign
  · simp only [stored, newValue, plain, if_true]
  · simp only [stored, newValue, plain, if_false, update, bind_assoc]

theorem operational_newValue (assigns : operator.isAssignment = true) (scope : Scope)
    (name : String) (right : Value) :
    Operational True (scope.newValue operator name right) := by
  simp only [newValue]
  split
  · exact right.operational_store
  · apply Operational.bind (scope.operational_read name)
    intro current
    exact operator.operational_assigned assigns current right

theorem newValue_eq_ok (chosen : scope.newValue operator name right = .ok value) :
    value.Present ∧
      (value = right ∨ ∃ base : BinaryOp, ∃ current,
        scope.read name = .ok current ∧ base.apply current right = .ok value) := by
  simp only [newValue] at chosen
  split at chosen
  · rcases Value.store_eq_ok chosen with ⟨rfl, present⟩
    exact ⟨present, Or.inl rfl⟩
  · rcases bind_eq_ok_iff.mp chosen with ⟨current, reads, changes⟩
    rcases BinaryOp.assigned_eq_ok changes with ⟨present, same | ⟨base, applies⟩⟩
    · exact ⟨present, Or.inl same⟩
    · exact ⟨present, Or.inr ⟨base, current, reads, applies⟩⟩

theorem stored_eq_ok (stores : scope.stored operator name right = .ok (value, changed)) :
    scope.newValue operator name right = .ok value ∧ scope.assign name value = .ok changed := by
  rw [stored_eq] at stores
  rcases bind_eq_ok_iff.mp stores with ⟨chosen, isChosen, rest⟩
  rcases bind_eq_ok_iff.mp rest with ⟨other, assigned, result⟩
  cases result
  exact ⟨isChosen, assigned⟩

end Scope

/-- Literals are `good`, and so is what operators make of operands that are. -/
structure Value.Closed (good : Value → Prop) : Prop where
  void : good .void
  text : ∀ content, good (.text content)
  integer : ∀ {literal number}, Literal.integer literal = .ok number → good (.integer number)
  binary : ∀ {operator : BinaryOp} {left right value}, good left → good right →
    operator.apply left right = .ok value → good value
  unary : ∀ {operator : UnaryOp} {operand value}, good operand →
    operator.apply operand = .ok value → good value

theorem Value.closed_true : Closed fun _ => True := by
  constructor <;> intros <;> trivial

/--
The step leads from one scope to another. The scope that it leads to is the one in which it is
recorded, and `good` holds of the values that are assigned.
-/
inductive Scope.Takes (good : Value → Prop) (scope : Scope) : Step → Scope → Prop where
  | parse (tokens : Nat) : Takes good scope (.parse tokens) scope
  | declare (name : String) :
      Takes good scope (.declare name scope.depth (scope.isNew name)) (scope.declare name)
  | enterScope : Takes good scope (.enterScope scope.enter.depth) scope.enter
  | exitScope {frame : Frame} {outer : Scope} (left : scope.exit = .ok (frame, outer)) :
      Takes good scope (.exitScope scope.depth (Text.sortNames frame.names)) outer
  | reduce (operator : BinaryOp) (operands : Nat) :
      Takes good scope (.reduce operator operands) scope
  | assign {name : String} {value : Value} {changed : Scope} (operator : BinaryOp)
      (holds : good value) (present : value.Present)
      (assigned : scope.assign name value = .ok changed) :
      Takes good scope (.assign name operator value) changed

/-- The step belongs to the inside of a bracket or block. -/
def Step.Inner : Step → Prop
  | .declare _ _ _ | .reduce _ _ | .assign _ _ _ => True
  | _ => False

theorem Scope.Takes.depth_of_inner {good : Value → Prop} {scope changed : Scope} {step : Step}
    (takes : scope.Takes good step changed) (inner : step.Inner) :
    changed.depth = scope.depth := by
  cases takes with
  | declare name => exact scope.depth_declare name
  | reduce operator operands => rfl
  | assign operator holds present assigned => exact depth_of_assign assigned
  | _ => exact inner.elim

namespace Eval

variable {σ α β : Type}

theorem ofExcept_ok (result : α) : (ofExcept (.ok result) : Eval σ α) = pure result :=
  rfl

theorem ofExcept_bind (outcome : Except Cause α) (next : α → Except Cause β) :
    (ofExcept (outcome >>= next) : Eval σ β) =
      ofExcept outcome >>= fun result => ofExcept (next result) := by
  cases outcome <;> rfl

theorem ofExcept_get (outcome : Except Cause α) (next : Session σ → α → Eval σ β) :
    (do let result ← ofExcept outcome; let session ← get; next session result) =
      (do let session ← get; let result ← ofExcept outcome; next session result) := by
  cases outcome <;> rfl

/-- Setting a variable is choosing its value, from the scope, and then changing the scope. -/
theorem store_eq (operator : BinaryOp) (name : String) (right : Value) :
    (store operator name right : Eval σ Value) = (do
      let session ← get
      let (value, scope) ← ofExcept (session.scope.stored operator name right)
      setScope scope
      return value) := by
  by_cases plain : operator = .assign
  · simp only [store, Scope.stored, plain, if_true, ofExcept_bind, bind_assoc]
    rw [ofExcept_get]
    rfl
  · simp only [store, Scope.stored, plain, if_false]

/-- Declares a name and records that. -/
def declare (settings : Settings σ) (name : String) (location : Location) : Eval σ Unit := do
  let scope := (← get).scope
  setScope (scope.declare name)
  record settings (.declare name scope.depth (scope.isNew name)) (some location)

/-- Assigns a value to a name and records that. -/
def assign (settings : Settings σ) (operator : BinaryOp) (name : String) (value : Value)
    (location : Location) : Eval σ Unit := do
  setScope (← ofExcept ((← get).scope.assign name value))
  record settings (.assign name operator value) (some location)

theorem readName_eq (settings : Settings σ) (keyword token : Token) :
    readName settings keyword token = (do
      if token.isIdentifier then
        let location ← locate settings token
        declare settings token.text location
        return .named token
      else
        fail (.invalidExpression .letWithoutName) (some (← locate settings keyword))) := by
  simp only [readName, declare, bind_assoc]

theorem assignAll_variable (settings : Settings σ) (operator : BinaryOp) (right : Value)
    (name : String) (location : Location) (rest : List Term) :
    assignAll settings operator right (.variable name location :: rest) = (do
      let session ← get
      let value ← ofExcept (session.scope.newValue operator name right)
      assign settings operator name value location
      assignAll settings operator value rest) := by
  simp only [assignAll, assign, store_eq, Scope.stored_eq, ofExcept_bind, bind_assoc]
  funext session
  change (ofExcept (session.scope.newValue operator name right) >>= _ : Eval σ Unit) session =
    (ofExcept (session.scope.newValue operator name right) >>= _ : Eval σ Unit) session
  cases session.scope.newValue operator name right with
  | error cause => rfl
  | ok value =>
      change (ofExcept (session.scope.assign name value) >>= _ : Eval σ Unit) session =
        (ofExcept (session.scope.assign name value) >>= _ : Eval σ Unit) session
      cases session.scope.assign name value <;> rfl

theorem enterBlock_eq (settings : Settings σ) (location : Location) :
    enterBlock settings location = (do
      let session ← get
      setScope session.scope.enter
      record settings (.enterScope session.scope.enter.depth) (some location)
      emit settings (.scopeEnter (← get).scope.depth)) :=
  rfl

end Eval

end BlockCalc
