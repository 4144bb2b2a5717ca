import BlockCalc.Proofs.RightHand
import BlockCalc.Proofs.Script

/-!
# What an assignment does

An assignment to several targets is evaluated from the right: first the right-hand side, whose value
does not depend on the targets, and then one target after the other, each of which passes on the
value that it has got. `assignNext` is one such step on what an evaluation shows. If the value
cannot be stored in a target, the targets behind it keep what they have been assigned, and those
before it are left alone.
-/

namespace BlockCalc

variable {σ : Type}

/-- The operand is a variable of that name. -/
def Term.Names (name : String) (term : Term) : Prop :=
  ∃ location, term = .variable name location

/-- An assignment waits with the targets that have been read. -/
structure Awaits (operator : BinaryOp) (names : List String) (base : Pending) : Prop where
  operator : base.operator = operator
  targets : names.Forall₂ Term.Names base.operands

/-- Stores the value that has been reached in one more target, if there is a value. -/
def assignNext (operator : BinaryOp) (name : String) :
    Except Cause Value × Scope → Except Cause Value × Scope
  | (.error cause, scope) => (.error cause, scope)
  | (.ok right, scope) =>
      match scope.stored operator name right with
      | .error cause => (.error cause, scope.unwind)
      | .ok (value, changed) => (.ok value, changed)

/-- An assignment has no value of its own. -/
def asStatement (reached : Except Cause Value × Scope) : Except Cause Value × Scope :=
  (reached.1.map fun _ => .void, reached.2)

/-- What is left of what a run shows if it does not matter why a run fails. -/
def ended (reached : Except Cause Value × Scope) : Option Value × Scope :=
  (reached.1.toOption, reached.2)

theorem assignNext_of_ok {operator : BinaryOp} {name : String} {right value : Value}
    {scope changed : Scope} (stores : scope.stored operator name right = .ok (value, changed)) :
    assignNext operator name (.ok right, scope) = (.ok value, changed) := by
  simp only [assignNext, stores]

theorem assignNext_of_error {operator : BinaryOp} {name : String} {right : Value} {scope : Scope}
    {cause : Cause} (stores : scope.stored operator name right = .error cause) :
    assignNext operator name (.ok right, scope) = (.error cause, scope.unwind) := by
  simp only [assignNext, stores]

theorem foldr_assignNext_error (operator : BinaryOp) (names : List String) (cause : Cause)
    (scope : Scope) :
    names.foldr (assignNext operator) (.error cause, scope) = (.error cause, scope) := by
  induction names with
  | nil => rfl
  | cons name rest ih => rw [List.foldr_cons, ih]; rfl

namespace Eval

variable {settings : Settings σ}

theorem shown_locating (location : Location) (action : Eval σ Value) (session : Session σ) :
    shown (locating location action session) = shown (action session) := by
  simp only [locating, EStateM.adaptExcept]
  cases action session <;> rfl

section Store

variable {operator : BinaryOp} {name : String} {right value : Value} {session : Session σ}
  {changed : Scope} {cause : Cause}

theorem store_of_ok (stores : session.scope.stored operator name right = .ok (value, changed)) :
    store operator name right session = .ok value { session with scope := changed } := by
  have reads : (get : Eval σ (Session σ)) session = .ok session session := rfl
  rw [store_eq, bind_of_ok reads, stores]
  rfl

theorem store_of_error (stores : session.scope.stored operator name right = .error cause) :
    store operator name right session = .error { cause } session := by
  have reads : (get : Eval σ (Session σ)) session = .ok session session := rfl
  rw [store_eq, bind_of_ok reads, stores]
  rfl

end Store

/-- Assigning to targets is storing in one after the other. -/
theorem shown_assignAll (quiet : settings.hooks = .none) (operator : BinaryOp) (right : Value)
    {names : List String} {targets : List Term} (named : names.Forall₂ Term.Names targets)
    (session : Session σ) :
    shown ((do assignAll settings operator right targets; return Value.void) session) =
      asStatement (names.foldl (fun reached name => assignNext operator name reached)
        (.ok right, session.scope)) := by
  induction named generalizing right session with
  | nil => rfl
  | @cons name target names targets names_target _ ih =>
      rcases names_target with ⟨location, rfl⟩
      simp only [assignAll, bind_assoc, List.foldl_cons]
      cases stores : session.scope.stored operator name right with
      | error cause =>
          rw [bind_of_error (store_of_error stores), assignNext_of_error stores,
            ← List.foldr_reverse, foldr_assignNext_error]
          rfl
      | ok stored =>
          rcases stored with ⟨value, changed⟩
          rw [bind_of_ok (store_of_ok stores), bind_of_ok (record_logged quiet _ _ _), ih,
            assignNext_of_ok stores]
          rfl

/-- An assignment resolves its last operand and assigns to the others, the last of them first. -/
theorem reduce_assignment {base : Pending} (assigns : base.operator.isAssignment = true)
    (targets : base.operands ≠ []) (term : Term) :
    reduce settings (base.push term) = (do
      record settings (.reduce base.operator (base.operands.length + 1)) (some base.location)
      locating base.location do
        assignAll settings base.operator (← resolve term) base.operands.reverse
        return Value.void) := by
  rcases base with ⟨operator, _ | ⟨first, _ | ⟨second, rest⟩⟩, location⟩
  · exact absurd rfl targets
  · simp [reduce, Pending.push, assigns]
  · simp [reduce, Pending.push, assigns]

/-- What an assignment shows is what storing in its targets from the right shows. -/
theorem shown_reduce_assignment (quiet : settings.hooks = .none) {operator : BinaryOp}
    (assigns : operator.isAssignment = true) {names : List String} (targeted : names ≠ [])
    {base : Pending} (awaits : Awaits operator names base) (term : Term) (session : Session σ) :
    shown (reduce settings (base.push term) session) =
      asStatement (names.foldr (assignNext operator) (shown (resolve term session))) := by
  rcases awaits with ⟨rfl, named⟩
  have operands : base.operands ≠ [] := by
    intro none
    rw [none] at named
    cases named
    exact targeted rfl
  rw [reduce_assignment assigns operands, bind_of_ok (record_logged quiet _ _ session),
    shown_locating]
  generalize recordedIs : session.logged _ = recorded
  have alike : recorded.Alike session := by
    rw [← recordedIs]
    exact ⟨rfl, rfl⟩
  have resolved : shown (resolve term recorded) = shown (resolve term session) :=
    (matches_resolve (.refl term)).shown_eq alike
  rw [← resolved]
  cases ran : resolve term recorded with
  | error failure stopped =>
      rw [bind_of_error ran, shown, foldr_assignNext_error]
      rfl
  | ok value after =>
      rw [bind_of_ok ran, shown_assignAll quiet _ value (List.rel_reverse named),
        List.foldl_reverse]
      rfl

/-- An expression that ends behind an assignment gives it its last operand. -/
theorem shown_finish_behind (base : Pending) {phase : Phase} (inside : phase.InExpression)
    (next : Option Token) (session : Session σ) :
    shown (finish settings next (phase.behind base) session) =
      shown ((do reduce settings (base.push (← rightOperand settings phase))) session) := by
  cases phase with
  | operand pending unary =>
      rcases unary with _ | ⟨operator, outer⟩
      · rcases pending with _ | ⟨top, others⟩ <;> rfl
      · rfl
  | operator pending term =>
      have ends : collapse settings [base] = fun term => reduce settings (base.push term) :=
        funext (collapse_single base)
      simp only [Phase.behind, finish, collapse_append, ends, rightOperand]
  | block value location =>
      simp only [Phase.behind, finish, collapse_single, rightOperand, pure_bind]
  | _ => exact inside.elim

/-- Up to a round bracket that closes, an expression ends as it ends for an assignment. -/
theorem ended_finish {phase : Phase} (inside : phase.InExpression) (closer : Token)
    (session : Session σ) :
    ended (shown (finish settings (some closer) phase session)) =
      ended (shown ((do resolve (← rightOperand settings phase)) session)) := by
  cases phase with
  | operand pending unary =>
      rcases unary with _ | ⟨operator, outer⟩
      · rcases pending with _ | ⟨top, others⟩ <;> rfl
      · rfl
  | operator pending term => simp only [finish, rightOperand, collapse_eq_settle]
  | block value location => rfl
  | _ => exact inside.elim

/--
The value that a right-hand side ends with, and the bindings at that time, which are also what it
ends with in round brackets.
-/
theorem exists_evaluated (quiet : settings.hooks = .none) {forest : Forest}
    (rightHand : forest.IsRightHand) (session : Session σ) :
    ∃ evaluated,
      (∀ {operator : BinaryOp} {names : List String} {base : Pending},
        operator.isAssignment = true → names ≠ [] → Awaits operator names base → ∀ next,
          shown ((do
            finish settings next (← read settings .statements forest (.operand [base] [])))
              session) = asStatement (names.foldr (assignNext operator) evaluated)) ∧
      ∀ group : Group, group.bracket = .round → ∀ closer, ended (shown ((do
        finish settings (some closer)
          (← read settings (.parenthesis group) forest (.operand [] []))) session)) =
            ended evaluated := by
  -- The expression is read as it is in round brackets, whichever these are.
  let anyRound : Group :=
    { bracket := .round, location := { file := "", line := 1, column := 1, statement := "" },
      depth := 1 }
  have inside : (Phase.operand [] []).InExpression := trivial
  have lifts : Lifts (read settings (.parenthesis anyRound) forest (.operand [] [])) _ _ _
      session := lifts_read rightHand inside session
  have sameInRound {group : Group} (round : group.bracket = .round) (closer : Token) :
      shown ((do
        finish settings (some closer)
          (← read settings (.parenthesis group) forest (.operand [] []))) session) =
      shown ((do
        finish settings (some closer)
          (← read settings (.parenthesis anyRound) forest (.operand [] []))) session) :=
    ((matches_read (.refl quiet) (.refl forest) (.parenthesis round) (.refl _)).bind
      fun _ _ => matches_finish (.refl quiet) (some closer) (some closer)).shown_eq (.refl session)
  cases ran : read settings (.parenthesis anyRound) forest (.operand [] []) session with
  | error failure stopped =>
      rcases lifts.of_error ran with ⟨other, ranBehind⟩
      refine ⟨(.error other.cause, stopped.scope.unwind), ?_, ?_⟩
      · intro operator names base assigns _ awaits next
        have ranHere : read settings .statements forest (.operand [base] []) session =
            .error other stopped := ranBehind base (awaits.operator ▸ assigns)
        rw [bind_of_error ranHere, foldr_assignNext_error]
        rfl
      · intro group round closer
        rw [sameInRound round, bind_of_error ran]
        rfl
  | ok phase after =>
      rcases lifts.of_ok ran with ⟨phaseInside, ranBehind⟩
      refine ⟨shown ((do resolve (← rightOperand settings phase)) after), ?_, ?_⟩
      · intro operator names base assigns targeted awaits next
        have ranHere : read settings .statements forest (.operand [base] []) session =
            .ok (phase.behind base) after := ranBehind base (awaits.operator ▸ assigns)
        rw [bind_of_ok ranHere, shown_finish_behind base phaseInside]
        cases settled : rightOperand settings phase after with
        | error failure stopped =>
            rw [bind_of_error settled, bind_of_error settled, shown, foldr_assignNext_error]
            rfl
        | ok term finished =>
            rw [bind_of_ok settled, bind_of_ok settled]
            exact shown_reduce_assignment quiet assigns targeted awaits term finished
      · intro group round closer
        rw [sameInRound round, bind_of_ok ran]
        exact ended_finish phaseInside closer after

end Eval

end BlockCalc
