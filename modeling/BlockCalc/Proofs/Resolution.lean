import BlockCalc.Proofs.Effect
import BlockCalc.Proofs.Quiet
import BlockCalc.Proofs.Turns

/-!
# Variables resolved beforehand

An operand that names a variable is looked up when its operator is reduced, which may be long after
it was read. It could as well be looked up once for all when it is read: from the names of the
frames alone one tells in which frame a variable is bound, and a reduction that goes straight to
these frames, as `Eval.collapseIn` and `Eval.pushOperatorIn` do, is the same. The reason is that
reductions change the values in frames, but neither the frames nor their names. So they do not miss
a variable either.
-/

namespace BlockCalc

/-- The number of the innermost frame with a name, where the frames have some names. -/
def homeIn (names : List (List String)) (name : String) : Option Nat :=
  names.findIdx? (name ∈ ·)

namespace Scope

/-- The scope after a change of the frame of a number, counted from the innermost one. -/
def changeFrame (scope : Scope) (home : Nat) (change : Frame → Frame) : Scope :=
  if home < scope.blocks.length then { scope with blocks := scope.blocks.modify home change }
  else { scope with top := change scope.top }

/-- The value of a variable in the frame that is its home where the frames have some names. -/
def readIn (names : List (List String)) (scope : Scope) (name : String) : Except Cause Value :=
  match (homeIn names name).bind fun home => scope.innermostFirst[home]?.bind (·.get? name) with
  | some value => .ok value
  | none => .error (.variableNotFound name)

/-- Sets a variable in the frame that is its home where the frames have some names. -/
def assignIn (names : List (List String)) (scope : Scope) (name : String) (value : Value) :
    Except Cause Scope :=
  match homeIn names name with
  | some home => .ok (scope.changeFrame home (·.insert name value))
  | none => .error (.variableNotFound name)

/-- What an assignment stores and the scope after it, with names looked up in given frames. -/
def storedIn (names : List (List String)) (scope : Scope) (operator : BinaryOp) (name : String)
    (right : Value) : Except Cause (Value × Scope) :=
  if operator = .assign then do
    let value ← right.store
    return (value, ← scope.assignIn names name value)
  else do
    let value ← operator.assigned (← scope.readIn names name) right
    return (value, ← scope.assignIn names name value)

end Scope

namespace Eval

variable {σ : Type}

section Definitions

variable (names : List (List String)) (settings : Settings σ)

/-- The value of an operand, with names looked up in given frames. -/
def resolveIn : Term → Eval σ Value
  | .variable name location => do
      locating location (ofExcept ((← get).scope.readIn names name))
  | .value value _ => pure value
  | .unary operator operand location => do
      let value ← resolveIn operand
      locating location (ofExcept (operator.apply value))

/-- Combines a value with operands, with names looked up in given frames. -/
def combineIn (operator : BinaryOp) : Value → List Term → Eval σ Value
  | value, [] => pure value
  | value, term :: rest => do
      if decides operator value then
        pure value
      else
        let right ← resolveIn names term
        combineIn operator (← ofExcept (operator.apply value right)) rest

/-- Sets a variable as an assignment does, with names looked up in given frames. -/
def storeIn (operator : BinaryOp) (name : String) (right : Value) : Eval σ Value := do
  let (value, scope) ← ofExcept ((← get).scope.storedIn names operator name right)
  setScope scope
  return value

/-- Assigns to targets, with names looked up in given frames. -/
def assignAllIn (operator : BinaryOp) : Value → List Term → Eval σ Unit
  | _, [] => pure ()
  | right, .variable name location :: rest => do
      let value ← storeIn names operator name right
      record settings (.assign name operator value) (some location)
      assignAllIn operator value rest
  | _, target :: _ => fail (.invalidExpression .targetNotVariable) (some target.location)

/-- Applies an operator to its operands, with names looked up in given frames. -/
def reduceIn (pending : Pending) : Eval σ Value :=
  match pending.operands with
  | first :: second :: rest => do
      record settings (.reduce pending.operator (rest.length + 2)) (some pending.location)
      locating pending.location do
        if pending.operator.isAssignment then
          match (first :: second :: rest).reverse with
          | last :: targets => do
              assignAllIn names settings pending.operator (← resolveIn names last) targets
              return .void
          | [] => return .void
        else
          combineIn names pending.operator (← resolveIn names first) (second :: rest)
  | few => fail (.unhandled (.tooFewOperands pending.operator few.length)) none

/-- Reduces all pending operators with variables resolved by the names of the frames. -/
def collapseIn : List Pending → Term → Eval σ Value
  | [], term => resolveIn names term
  | top :: outer, term => do
      let value ← reduceIn names settings (top.push term)
      collapseIn outer (.value value top.location)

/-- Puts an operator on the stack with variables resolved by the names of the frames. -/
def pushOperatorIn (operator : BinaryOp) (location : Location) :
    List Pending → Term → Eval σ (List Pending)
  | [], term => pure [{ operator, operands := [term], location }]
  | top :: outer, term => do
      if top.operator = operator then
        return top.push term :: outer
      else if top.operator.bindsBefore operator then
        let value ← reduceIn names settings (top.push term)
        pushOperatorIn operator location outer (.value value top.location)
      else
        return { operator, operands := [term], location } :: top :: outer

end Definitions

end Eval

/-- The variables in an operand are all `allowed`. -/
def Term.Uses (allowed : String → Prop) : Term → Prop
  | .variable name _ => allowed name
  | .value _ _ => True
  | .unary _ operand _ => operand.Uses allowed

/-- The operands that wait use allowed names only. -/
def Pending.Uses (allowed : String → Prop) (pending : List Pending) : Prop :=
  ∀ top ∈ pending, ∀ term ∈ top.operands, term.Uses allowed

/-- The variables in a phase, and the name that is being declared, are all `allowed`. -/
def Phase.Uses (allowed : String → Prop) : Phase → Prop
  | .named name => allowed name.text
  | .operand pending _ => Pending.Uses allowed pending
  | .operator pending term => Pending.Uses allowed pending ∧ term.Uses allowed
  | _ => True

section Uses

variable {allowed weaker : String → Prop}

theorem Term.Uses.mono {term : Term} (uses : term.Uses allowed)
    (imp : ∀ name, allowed name → weaker name) : term.Uses weaker := by
  induction term with
  | «variable» name location => exact imp name uses
  | value value location => trivial
  | unary operator operand location ih => exact ih uses

theorem Pending.Uses.mono {pending : List Pending} (uses : Pending.Uses allowed pending)
    (imp : ∀ name, allowed name → weaker name) : Pending.Uses weaker pending :=
  fun top member term isOperand => (uses top member term isOperand).mono imp

theorem Phase.Uses.mono {phase : Phase} (uses : phase.Uses allowed)
    (imp : ∀ name, allowed name → weaker name) : phase.Uses weaker := by
  cases phase with
  | named name => exact imp name.text uses
  | operand pending unary => exact Pending.Uses.mono uses imp
  | operator pending term => exact ⟨uses.1.mono imp, uses.2.mono imp⟩
  | _ => trivial

theorem Pending.uses_nil : Pending.Uses allowed [] := by
  simp [Pending.Uses]

theorem Pending.uses_cons {top : Pending} {outer : List Pending} :
    Pending.Uses allowed (top :: outer) ↔
      (∀ term ∈ top.operands, term.Uses allowed) ∧ Pending.Uses allowed outer := by
  simp [Pending.Uses]

theorem Pending.uses_push {top : Pending} {term : Term}
    (operands : ∀ term ∈ top.operands, term.Uses allowed) (uses : term.Uses allowed) :
    ∀ other ∈ (top.push term).operands, other.Uses allowed := by
  simp only [Pending.push, List.forall_mem_append, List.forall_mem_singleton]
  exact ⟨operands, uses⟩

end Uses

theorem homeIn_cons (frame : Frame) (names : List (List String)) (name : String) :
    homeIn (frame.names :: names) name =
      if frame.contains name then some 0 else (homeIn names name).map (· + 1) := by
  simp only [homeIn, List.findIdx?_cons, ← Table.contains_iff_mem_names, Bool.decide_eq_true]

theorem findSome?_eq_home (frames : List Frame) (name : String) :
    frames.findSome? (·.get? name) =
      (homeIn (frames.map Table.names) name).bind fun home => frames[home]?.bind (·.get? name) := by
  induction frames with
  | nil => rfl
  | cons frame rest ih =>
      rw [List.findSome?_cons, List.map_cons, homeIn_cons, ih]
      cases found : frame.get? name with
      | some value => simp [Table.contains, found]
      | none =>
          have absent : ¬frame.contains name = true := by simp [Table.contains, found]
          rw [if_neg absent, Option.bind_map]
          rfl

theorem assignFirst?_eq_home (name : String) (value : Value) (frames : List Frame) :
    assignFirst? name value frames =
      (homeIn (frames.map Table.names) name).map fun home =>
        frames.modify home (·.insert name value) := by
  induction frames with
  | nil => rfl
  | cons frame rest ih =>
      rw [assignFirst?, List.map_cons, homeIn_cons, ih]
      split
      · rfl
      · simp [Function.comp_def]

namespace Scope

theorem read_eq_readIn (scope : Scope) (name : String) :
    scope.read name = scope.readIn scope.names name := by
  have search : scope.read? name = (homeIn scope.names name).bind fun home =>
      scope.innermostFirst[home]?.bind (·.get? name) :=
    findSome?_eq_home scope.innermostFirst name
  rw [read, search]
  rfl

theorem assign_eq_assignIn (scope : Scope) (name : String) (value : Value) :
    scope.assign name value = scope.assignIn scope.names name value := by
  have split : homeIn scope.names name =
      (homeIn (scope.blocks.map Table.names) name).or
        (if scope.top.contains name then some scope.blocks.length else none) := by
    have atTop : [scope.top.names].findIdx? (name ∈ ·) =
        if scope.top.contains name then some 0 else none :=
      homeIn_cons scope.top [] name
    simp only [homeIn, names, innermostFirst, List.map_append, List.map_cons, List.map_nil,
      List.findIdx?_append, atTop, List.length_map]
    split <;> simp
  simp only [assign, assignIn, split, assignFirst?_eq_home]
  cases found : homeIn (scope.blocks.map Table.names) name with
  | some home =>
      have inside : home < scope.blocks.length := by
        simpa using (List.findIdx?_eq_some_iff_findIdx_eq.mp found).1
      simp [changeFrame, inside]
  | none =>
      by_cases present : scope.top.contains name = true
      · simp [present, changeFrame]
      · simp [present]

theorem stored_eq_storedIn (scope : Scope) (operator : BinaryOp) (name : String) (right : Value) :
    scope.stored operator name right = scope.storedIn scope.names operator name right := by
  simp only [stored, storedIn, update, read_eq_readIn, assign_eq_assignIn]

theorem has_iff_exists_home {scope : Scope} {name : String} :
    scope.has name = true ↔ ∃ home, homeIn scope.names name = some home := by
  rw [← Option.isSome_iff_exists, homeIn, List.findIdx?_isSome, has, names, List.any_map]
  simp only [← Table.contains_iff_mem_names, Function.comp_def, Bool.decide_eq_true]

section Bound

variable {scope : Scope} {name : String} (bound : scope.has name = true)

include bound

theorem exists_read_of_has : ∃ value, scope.read name = .ok value := by
  rcases exists_read?_of_has bound with ⟨value, found⟩
  exact ⟨value, by rw [read, found]⟩

theorem exists_assign_of_has (value : Value) :
    ∃ changed, scope.assign name value = .ok changed := by
  rcases has_iff_exists_home.mp bound with ⟨home, found⟩
  exact ⟨_, by rw [assign_eq_assignIn, assignIn, found]⟩

/-- A variable that is bound is set, or its operator fails for its operands. -/
theorem operational_stored_of_has {operator : BinaryOp} (assigns : operator.isAssignment = true)
    (right : Value) : Operational False (scope.stored operator name right) := by
  have assigned (value : Value) : Operational False (scope.assign name value) := by
    rcases exists_assign_of_has bound value with ⟨changed, same⟩
    rw [same]
    exact .ok changed
  simp only [stored, update]
  split
  · apply Operational.bind right.operational_store
    intro value
    exact (assigned value).bind fun _ => .ok _
  · rcases exists_read_of_has bound with ⟨current, reads⟩
    rw [reads]
    apply Operational.bind (operator.operational_assigned assigns current right)
    intro value
    exact (assigned value).bind fun _ => .ok _

end Bound

end Scope

/-- The name is one of the `named` ones, and bound where the frames have some names. -/
def Usable (named : String → Prop) (names : List (List String)) (name : String) : Prop :=
  named name ∧ ∃ home, homeIn names name = some home

theorem Usable.bound {named : String → Prop} {names : List (List String)} {name : String}
    (usable : Usable named names name) {scope : Scope} (sameNames : scope.names = names) :
    scope.has name = true := by
  rw [Scope.has_iff_exists_home, sameNames]
  exact usable.2

/-- A name that is bound stays so. -/
theorem Scope.Turns.usable {named : String → Prop} {declared : List String} {scope after : Scope}
    (turns : scope.Turns named declared after) {name : String}
    (usable : Usable named scope.names name) : Usable named after.names name :=
  ⟨usable.1, has_iff_exists_home.mp (turns.has (usable.bound rfl))⟩

namespace Eval

variable {σ α β : Type}

/--
Where the frames have some names, the left action does what the right one does. It changes nothing
but values of `named` variables, and does not fail for want of a variable.
-/
def ActsAs (named : String → Prop) (names : List (List String)) (left right : Eval σ α) : Prop :=
  ∀ session, session.scope.names = names →
    Ensures left session
      (fun result after => right session = .ok result after ∧
        session.scope.Turns named [] after.scope)
      (fun failure after => right session = .error failure after ∧
        session.scope.Turns named [] after.scope ∧ ∀ name, failure.cause ≠ .variableNotFound name)

namespace ActsAs

variable {named : String → Prop} {names : List (List String)} {left right : Eval σ α}

theorem eq (actsAs : ActsAs named names left right) {session : Session σ}
    (sameNames : session.scope.names = names) : left session = right session := by
  have together := actsAs session sameNames
  cases ran : left session with
  | ok result after => exact (together.of_ok ran).1.symm
  | error failure after => exact (together.of_error ran).1.symm

theorem pure (result : α) :
    ActsAs named names (Pure.pure result : Eval σ α) (Pure.pure result) :=
  fun session _ => ⟨rfl, .refl session.scope⟩

theorem fail {cause : Cause} (noMiss : ∀ name, cause ≠ .variableNotFound name)
    (location : Option Location) :
    ActsAs named names (Eval.fail cause location : Eval σ α) (Eval.fail cause location) :=
  fun session _ => ⟨rfl, .refl session.scope, noMiss⟩

theorem ofExcept {outcome : Except Cause α} (operational : Operational False outcome) :
    ActsAs named names (Eval.ofExcept outcome : Eval σ α) (Eval.ofExcept outcome) := by
  cases outcome with
  | ok result => exact .pure result
  | error cause => exact .fail (operational cause rfl).ne_variableNotFound none

theorem bind {next otherNext : α → Eval σ β} (start : ActsAs named names left right)
    (continues : ∀ result, ActsAs named names (next result) (otherNext result)) :
    ActsAs named names (left >>= next) (right >>= otherNext) := by
  intro session sameNames
  rw [ensures_bind]
  apply (start session sameNames).mono
  · rintro result after ⟨ran, turns⟩
    apply (continues result after (turns.names_eq.trans sameNames)).mono
    · rintro last finished ⟨ranNext, more⟩
      exact ⟨by rw [bind_of_ok ran, ranNext], turns.trans more⟩
    · rintro failure stopped ⟨ranNext, more, noMiss⟩
      exact ⟨by rw [bind_of_ok ran, ranNext], turns.trans more, noMiss⟩
  · rintro failure stopped ⟨ran, turns, noMiss⟩
    exact ⟨bind_of_error ran, turns, noMiss⟩

theorem locating (location : Location) (actsAs : ActsAs named names left right) :
    ActsAs named names (Eval.locating location left) (Eval.locating location right) := by
  intro session sameNames
  rw [ensures_locating]
  apply (actsAs session sameNames).mono
  · rintro result after ⟨ran, turns⟩
    exact ⟨by simp only [Eval.locating, EStateM.adaptExcept, ran], turns⟩
  · rintro failure stopped ⟨ran, turns, noMiss⟩
    exact ⟨by simp only [Eval.locating, EStateM.adaptExcept, ran], turns, noMiss⟩

theorem record {settings : Settings σ} (quiet : settings.hooks = .none) (step : Step)
    (location : Option Location) :
    ActsAs named names (Eval.record settings step location)
      (Eval.record settings step location) := by
  intro session _
  simp only [Ensures, record_logged quiet]
  exact ⟨trivial, .refl session.scope⟩

end ActsAs

section Reductions

variable {named : String → Prop} {names : List (List String)} {settings : Settings σ}
  (quiet : settings.hooks = .none)

theorem resolve_actsAs {term : Term} (uses : term.Uses (Usable named names)) :
    ActsAs named names (resolve term : Eval σ Value) (resolveIn names term) := by
  induction term with
  | «variable» name location =>
      intro session sameNames
      rcases Scope.exists_read_of_has (uses.bound sameNames) with ⟨value, reads⟩
      have readsIn : session.scope.readIn names name = .ok value := by
        rw [← sameNames, ← Scope.read_eq_readIn, reads]
      simp only [resolve, resolveIn, ensures_bind, ensures_get, ensures_locating, reads,
        ensures_ofExcept_ok]
      refine ⟨?_, .refl session.scope⟩
      change locating location (ofExcept (session.scope.readIn names name)) session = _
      rw [readsIn]
      rfl
  | value value location => exact .pure value
  | unary operator operand location ih =>
      apply (ih uses).bind
      intro value
      exact .locating location (.ofExcept (operator.operational_apply value))

theorem combine_actsAs {operator : BinaryOp} (plain : operator.isAssignment = false)
    {terms : List Term} (uses : ∀ term ∈ terms, term.Uses (Usable named names)) (value : Value) :
    ActsAs named names (combine operator value terms : Eval σ Value)
      (combineIn names operator value terms) := by
  induction terms generalizing value with
  | nil => exact .pure value
  | cons term rest ih =>
      rw [List.forall_mem_cons] at uses
      simp only [combine, combineIn]
      split
      · exact .pure value
      · apply (resolve_actsAs uses.1).bind
        intro right
        apply (ActsAs.ofExcept (operator.operational_apply plain value right)).bind
        intro combined
        exact ih uses.2 combined

theorem store_actsAs {operator : BinaryOp} (assigns : operator.isAssignment = true)
    {name : String} (usable : Usable named names name) (right : Value) :
    ActsAs named names (store operator name right : Eval σ Value)
      (storeIn names operator name right) := by
  intro session sameNames
  have bound := usable.bound sameNames
  have sameStored := session.scope.stored_eq_storedIn operator name right
  rw [sameNames] at sameStored
  have runIn : (storeIn names operator name right : Eval σ Value) session =
      (do
        let (value, scope) ← ofExcept (session.scope.storedIn names operator name right)
        setScope scope
        return value : Eval σ Value) session := rfl
  rw [store_eq, runIn, ← sameStored]
  simp only [ensures_bind, ensures_get]
  cases stores : session.scope.stored operator name right with
  | error cause =>
      have operational := Scope.operational_stored_of_has bound assigns right
      exact ⟨rfl, .refl session.scope, (operational cause stores).ne_variableNotFound⟩
  | ok result =>
      have assigned := (Scope.stored_eq_ok stores).2
      exact ⟨rfl, .assign usable.1 assigned (.refl _)⟩

include quiet

theorem assignAll_actsAs {operator : BinaryOp} (assigns : operator.isAssignment = true)
    {targets : List Term} (uses : ∀ term ∈ targets, term.Uses (Usable named names))
    (right : Value) :
    ActsAs named names (assignAll settings operator right targets)
      (assignAllIn names settings operator right targets) := by
  induction targets generalizing right with
  | nil => exact .pure ()
  | cons target rest ih =>
      rw [List.forall_mem_cons] at uses
      cases target with
      | «variable» name location =>
          apply (store_actsAs assigns uses.1 right).bind
          intro value
          apply (ActsAs.record quiet _ _).bind
          intro _
          exact ih uses.2 value
      | value value location => exact .fail (by simp) _
      | unary unary operand location => exact .fail (by simp) _

theorem reduce_actsAs {pending : Pending}
    (uses : ∀ term ∈ pending.operands, term.Uses (Usable named names)) :
    ActsAs named names (reduce settings pending) (reduceIn names settings pending) := by
  rcases pending with ⟨operator, operands, location⟩
  rcases operands with _ | ⟨first, _ | ⟨second, rest⟩⟩
  · exact .fail (by simp) _
  · exact .fail (by simp) _
  · apply (ActsAs.record quiet _ _).bind
    intro _
    apply ActsAs.locating
    cases assigns : operator.isAssignment with
    | true =>
        have usesReversed : ∀ term ∈ (first :: second :: rest).reverse,
            term.Uses (Usable named names) :=
          fun term member => uses term (List.mem_reverse.mp member)
        simp only [if_true]
        revert usesReversed
        generalize List.reverse _ = reversed
        intro usesReversed
        cases reversed with
        | nil => exact .pure _
        | cons last targets =>
            rw [List.forall_mem_cons] at usesReversed
            apply (resolve_actsAs usesReversed.1).bind
            intro value
            apply (assignAll_actsAs quiet assigns usesReversed.2 value).bind
            intro _
            exact .pure _
    | false =>
        simp only [Bool.false_eq_true, if_false]
        rw [List.forall_mem_cons] at uses
        apply (resolve_actsAs uses.1).bind
        intro value
        exact combine_actsAs assigns uses.2 value

theorem collapse_actsAs {pending : List Pending}
    (usesPending : Pending.Uses (Usable named names) pending) {term : Term}
    (uses : term.Uses (Usable named names)) :
    ActsAs named names (collapse settings pending term)
      (collapseIn names settings pending term) := by
  induction pending generalizing term with
  | nil => exact resolve_actsAs uses
  | cons top outer ih =>
      rw [Pending.uses_cons] at usesPending
      apply (reduce_actsAs quiet (Pending.uses_push usesPending.1 uses)).bind
      intro value
      exact ih usesPending.2 trivial

theorem pushOperator_actsAs (operator : BinaryOp) (location : Location) {pending : List Pending}
    (usesPending : Pending.Uses (Usable named names) pending) {term : Term}
    (uses : term.Uses (Usable named names)) :
    ActsAs named names (pushOperator settings operator location pending term)
      (pushOperatorIn names settings operator location pending term) := by
  induction pending generalizing term with
  | nil => exact .pure _
  | cons top outer ih =>
      rw [Pending.uses_cons] at usesPending
      simp only [pushOperator, pushOperatorIn]
      split
      · exact .pure _
      · split
        · apply (reduce_actsAs quiet (Pending.uses_push usesPending.1 uses)).bind
          intro value
          exact ih usesPending.2 trivial
        · exact .pure _

end Reductions

end Eval

end BlockCalc
