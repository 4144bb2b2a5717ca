import BlockCalc.Proofs.Assigning

/-!
# Operators that fail

The reduction of an operator resolves its operands and applies the operator to them. Either can
fail: a unary operator while an operand is resolved, at its own place, or the operator itself, at
the place of the reduction. `Term.Fails` and `Pending.Fails` say when, on the bindings alone, and no
other failure of a reduction speaks of what an operator is applied to.
-/

namespace BlockCalc

variable {σ : Type}

/-- An operand cannot be resolved, as one of its unary operators cannot be applied to its value. -/
inductive Term.Fails (scope : Scope) (cause : Cause) : Term → Term → Prop where
  | here {operator : UnaryOp} {operand : Term} {location : Location} {value : Value}
      (resolves : operand.value? scope = some value) (fails : operator.apply value = .error cause) :
      Fails scope cause (.unary operator operand location) (.unary operator operand location)
  | inside {operator : UnaryOp} {operand failing : Term} {location : Location}
      (fails : Fails scope cause operand failing) :
      Fails scope cause (.unary operator operand location) failing

/-- The value and the scope that assigning to targets ends with, if it succeeds. -/
def assigned? (operator : BinaryOp) : Value → Scope → List Term → Option (Value × Scope)
  | right, scope, [] => some (right, scope)
  | right, scope, .variable name _ :: rest => do
      let stored ← (scope.stored operator name right).toOption
      assigned? operator stored.1 stored.2 rest
  | _, _, _ :: _ => none

namespace Pending

variable (scope : Scope) (pending : Pending)

/-- The operands before the next one combine to a value that does not decide the result. -/
structure Meets (left : Value) (next : Term) : Prop where
  plain : pending.operator.isAssignment = false
  operands : ∃ before behind, pending.operands = before ++ next :: behind ∧
    gathered? scope pending.operator before = some left
  undecided : decides pending.operator left = false

/-- The reduction of the operator resolves an operand. -/
inductive Resolves : Term → Prop where
  | first {first second : Term} {rest : List Term}
      (plain : pending.operator.isAssignment = false)
      (operands : pending.operands = first :: second :: rest) : Resolves first
  | next {left : Value} {next : Term} (meets : pending.Meets scope left next) : Resolves next
  | last {targets : List Term} {last : Term} (assigns : pending.operator.isAssignment = true)
      (operands : pending.operands = targets ++ [last]) (targeted : targets ≠ []) : Resolves last

/-- The operator is applied and fails: to two values, or for a variable that it assigns to. -/
inductive Fails (cause : Cause) : Prop where
  | apply {left right : Value} {next : Term} (meets : pending.Meets scope left next)
      (resolves : next.value? scope = some right)
      (fails : pending.operator.apply left right = .error cause)
  | store {before behind : List Term} {name : String} {location : Location} {last : Term}
      {value right : Value} {reached : Scope} (assigns : pending.operator.isAssignment = true)
      (operands : pending.operands = before ++ .variable name location :: (behind ++ [last]))
      (resolves : last.value? scope = some value)
      (stores : assigned? pending.operator value scope behind.reverse = some (right, reached))
      (fails : reached.stored pending.operator name right = .error cause)

/-- The reduction of the operator fails on what it or a unary operator is applied to. -/
def Misapplied (cause : Cause) : Prop :=
  pending.Fails scope cause ∨
    ∃ term failing, pending.Resolves scope term ∧ term.Fails scope cause failing

end Pending

namespace Eval

variable {settings : Settings σ} {session stopped : Session σ} {cause : Cause} {failure : Failure}

theorem locating_of_error {α : Type} {action : Eval σ α} (location : Location)
    (failed : action session = .error failure stopped) :
    locating location action session = .error (failure.locate location) stopped := by
  simp only [locating, EStateM.adaptExcept, failed]

theorem locating_of_eq {α : Type} {action other : Eval σ α} (location : Location)
    (same : action session = other session) :
    locating location action session = locating location other session := by
  simp only [locating, EStateM.adaptExcept, same]

theorem exists_of_locating_error {α : Type} {action : Eval σ α} {location : Location}
    (failed : locating location action session = .error failure stopped) :
    ∃ raised, action session = .error raised stopped ∧ failure = raised.locate location := by
  cases ran : action session with
  | ok result after => simp [locating, EStateM.adaptExcept, ran] at failed
  | error raised broken =>
      rw [locating_of_error location ran] at failed
      cases failed
      exact ⟨raised, rfl, rfl⟩

section Operands

theorem resolve_of_value? {term : Term} {value : Value}
    (resolves : term.value? session.scope = some value) :
    resolve term session = .ok value session := by
  have ensures := ensures_resolve term session
  cases ran : resolve term session with
  | ok result after =>
      rcases ensures.of_ok ran with ⟨rfl, resolved⟩
      cases resolves.symm.trans resolved
      rfl
  | error raised broken => simp [ensures.of_error ran] at resolves

theorem combine_of_combine? {operator : BinaryOp} {value result : Value} {terms : List Term}
    (combines : combine? session.scope operator value terms = some result) :
    combine operator value terms session = .ok result session := by
  have ensures := ensures_combine operator value terms session
  cases ran : combine operator value terms session with
  | ok other after =>
      rcases ensures.of_ok ran with ⟨rfl, combined⟩
      cases combines.symm.trans combined
      rfl
  | error raised broken => simp [ensures.of_error ran] at combines

theorem resolve_of_fails {term failing : Term} (fails : term.Fails session.scope cause failing) :
    resolve term session = .error { cause, location := some failing.location } session := by
  induction fails with
  | @here operator operand location value resolves fails =>
      simp only [resolve]
      rw [bind_of_ok (resolve_of_value? resolves), fails]
      rfl
  | inside _ ih =>
      simp only [resolve]
      exact bind_of_error ih

theorem exists_fails_of_resolve {term : Term}
    (failed : resolve term session = .error failure stopped)
    (operational : failure.cause.IsOperational False) :
    ∃ failing, term.Fails session.scope failure.cause failing := by
  induction term with
  | «variable» name location =>
      rcases exists_of_locating_error failed with ⟨raised, reads, rfl⟩
      simp only [Scope.read] at reads
      cases found : session.scope.read? name with
      | some value =>
          rw [found] at reads
          cases reads
      | none =>
          rw [found] at reads
          cases reads
          exact operational.elim
  | value value location => cases failed
  | unary operator operand location ih =>
      simp only [resolve] at failed
      rcases exists_of_bind_error failed with unresolved | ⟨value, after, resolved, unapplied⟩
      · rcases ih unresolved with ⟨failing, fails⟩
        exact ⟨failing, .inside fails⟩
      · rcases (ensures_resolve operand session).of_ok resolved with ⟨rfl, resolves⟩
        rcases exists_of_locating_error unapplied with ⟨raised, applies, rfl⟩
        cases applied : operator.apply value with
        | ok result =>
            rw [applied] at applies
            cases applies
        | error cause =>
            rw [applied] at applies
            cases applies
            exact ⟨_, .here resolves applied⟩

theorem combine_append (operator : BinaryOp) (value : Value) (terms others : List Term) :
    (combine operator value (terms ++ others) : Eval σ Value) = (do
      combine operator (← combine operator value terms) others) := by
  induction terms generalizing value with
  | nil => simp [combine]
  | cons term rest ih =>
      cases decided : decides operator value with
      | true =>
          have settled : (combine operator value others : Eval σ Value) = pure value := by
            cases others <;> simp [combine, decided]
          simp [combine, decided, settled]
      | false => simp [combine, decided, ih]

/-- Where combining operands fails for an operator, it is when an operand is met. -/
theorem exists_met_of_combine {operator : BinaryOp} {value : Value} {terms : List Term}
    (failed : combine operator value terms session = .error failure stopped)
    (operational : failure.cause.IsOperational False) :
    ∃ before left next behind, terms = before ++ next :: behind ∧
      combine? session.scope operator value before = some left ∧ decides operator left = false ∧
      ((∃ right, next.value? session.scope = some right ∧
          operator.apply left right = .error failure.cause) ∨
        ∃ failing, next.Fails session.scope failure.cause failing) := by
  induction terms generalizing value with
  | nil => cases failed
  | cons term rest ih =>
      simp only [combine] at failed
      cases decided : decides operator value with
      | true =>
          rw [decided] at failed
          cases failed
      | false =>
          simp only [decided, Bool.false_eq_true, if_false] at failed
          rcases exists_of_bind_error failed with unresolved | ⟨right, after, resolved, further⟩
          · exact ⟨[], value, term, rest, rfl, rfl, decided,
              .inr (exists_fails_of_resolve unresolved operational)⟩
          · rcases (ensures_resolve term session).of_ok resolved with ⟨rfl, resolves⟩
            cases applied : operator.apply value right with
            | error cause =>
                rw [applied] at further
                cases further
                exact ⟨[], value, term, rest, rfl, rfl, decided, .inl ⟨right, resolves, applied⟩⟩
            | ok combined =>
                rw [applied] at further
                rcases ih further with ⟨before, left, next, behind, rfl, combines, others⟩
                refine ⟨term :: before, left, next, behind, rfl, ?_, others⟩
                simp [combine?, decided, resolves, applied, combines, Except.toOption]

end Operands

section Reductions

variable {pending : Pending}

variable (quiet : settings.hooks = .none)

include quiet

theorem assignAll_append (operator : BinaryOp) {right last : Value} {reached : Scope}
    {targets : List Term}
    (assigns : assigned? operator right session.scope targets = some (last, reached))
    (others : List Term) :
    ∃ log, assignAll settings operator right (targets ++ others) session =
      assignAll settings operator last others { session with scope := reached, log } := by
  induction targets generalizing right session with
  | nil =>
      cases assigns
      exact ⟨session.log, rfl⟩
  | cons target rest ih =>
      cases target with
      | «variable» name location =>
          simp only [assigned?] at assigns
          cases stores : session.scope.stored operator name right with
          | error cause => simp [stores, Except.toOption] at assigns
          | ok stored =>
              rcases stored with ⟨value, changed⟩
              simp only [stores, Except.toOption, Option.bind_eq_bind, Option.bind_some] at assigns
              simp only [List.cons_append, assignAll]
              rw [bind_of_ok (store_of_ok stores), bind_of_ok (record_logged quiet _ _ _)]
              exact ih assigns
      | value value location => cases assigns
      | unary unary operand location => cases assigns

/-- Where assigning fails for an operator, it is when a target is met. -/
theorem exists_met_of_assignAll {operator : BinaryOp} {right : Value} {targets : List Term}
    (failed : assignAll settings operator right targets session = .error failure stopped)
    (operational : failure.cause.IsOperational False) :
    ∃ before name location behind last reached,
      targets = before ++ .variable name location :: behind ∧
      assigned? operator right session.scope before = some (last, reached) ∧
      reached.stored operator name last = .error failure.cause := by
  induction targets generalizing right session with
  | nil => cases failed
  | cons target rest ih =>
      cases target with
      | «variable» name location =>
          simp only [assignAll] at failed
          cases stores : session.scope.stored operator name right with
          | error cause =>
              rw [bind_of_error (store_of_error stores)] at failed
              cases failed
              exact ⟨[], name, location, rest, right, _, rfl, rfl, stores⟩
          | ok stored =>
              rcases stored with ⟨value, changed⟩
              rw [bind_of_ok (store_of_ok stores), bind_of_ok (record_logged quiet _ _ _)] at failed
              rcases ih failed with
                ⟨before, other, place, behind, last, reached, rfl, assigns, fails⟩
              refine ⟨.variable name location :: before, other, place, behind, last, reached, rfl,
                ?_, fails⟩
              simp only [assigned?, stores, Except.toOption, Option.bind_eq_bind, Option.bind_some]
              exact assigns
      | value value location =>
          cases failed
          exact operational.elim
      | unary unary operand location =>
          cases failed
          exact operational.elim

/-- Behind its step, the reduction of an operator on values combines them. -/
theorem exists_reduce_of_plain (plain : pending.operator.isAssignment = false) {first : Term}
    {others : List Term} (operands : pending.operands = first :: others) (several : others ≠ [])
    (session : Session σ) :
    ∃ recorded : Session σ, recorded.scope = session.scope ∧
      reduce settings pending session =
        locating pending.location (do
          combine pending.operator (← resolve first) others) recorded := by
  rcases pending with ⟨operator, _, location⟩
  cases operands
  rcases others with _ | ⟨second, rest⟩
  · exact absurd rfl several
  · simp only at plain
    simp only [reduce, plain, Bool.false_eq_true, if_false]
    refine ⟨_, ?_, bind_of_ok (record_logged quiet _ _ session)⟩
    rfl

/-- An operand that is met is resolved, and then the operator is applied. -/
theorem exists_reduce_of_meets {left : Value} {next : Term}
    (meets : pending.Meets session.scope left next) :
    ∃ recorded : Session σ, recorded.scope = session.scope ∧ ∃ behind,
      reduce settings pending session =
        locating pending.location (do
          let right ← resolve next
          combine pending.operator (← ofExcept (pending.operator.apply left right)) behind)
          recorded := by
  rcases meets with ⟨plain, ⟨before, behind, operands, gathers⟩, undecided⟩
  rcases before with _ | ⟨first, before⟩
  · cases gathers
  · rw [List.cons_append] at operands
    rcases Option.bind_eq_some_iff.mp gathers with ⟨value, resolves, combines⟩
    have several : before ++ next :: behind ≠ [] := by simp
    rcases exists_reduce_of_plain quiet plain operands several session with
      ⟨recorded, sameScope, reduces⟩
    rw [← sameScope] at resolves combines
    refine ⟨recorded, sameScope, behind, reduces.trans (locating_of_eq _ ?_)⟩
    rw [bind_of_ok (resolve_of_value? resolves), combine_append,
      bind_of_ok (combine_of_combine? combines)]
    simp only [combine, undecided, Bool.false_eq_true, if_false]

/-- Behind its step, the reduction of an assignment assigns to its targets from the right. -/
theorem exists_reduce_of_assigns (assigns : pending.operator.isAssignment = true)
    {targets : List Term} {last : Term} (operands : pending.operands = targets ++ [last])
    (targeted : targets ≠ []) (session : Session σ) :
    ∃ recorded : Session σ, recorded.scope = session.scope ∧
      reduce settings pending session =
        locating pending.location (do
          assignAll settings pending.operator (← resolve last) targets.reverse
          return Value.void) recorded := by
  let base : Pending := { pending with operands := targets }
  have pushed : pending = base.push last := by
    simp only [base, Pending.push, ← operands]
  have baseAssigns : base.operator.isAssignment = true := assigns
  have reduces : reduce settings (base.push last) = _ :=
    reduce_assignment baseAssigns targeted last
  rw [← pushed] at reduces
  refine ⟨_, ?_, (congrFun reduces session).trans (bind_of_ok (record_logged quiet _ _ session))⟩
  rfl

/-- A reduction in which the operator fails does so at the place of the reduction. -/
theorem reduce_of_fails (fails : pending.Fails session.scope cause) :
    ∃ stopped, reduce settings pending session =
      .error { cause, location := some pending.location } stopped := by
  cases fails with
  | apply meets resolves fails =>
      rcases exists_reduce_of_meets quiet meets with ⟨recorded, sameScope, behind, reduces⟩
      rw [← sameScope] at resolves
      rw [reduces, locating_of_eq _ (bind_of_ok (resolve_of_value? resolves)), fails]
      exact ⟨recorded, rfl⟩
  | @store before behind name location last value right reached assigns operands resolves stores
      fails =>
      have pushed : pending.operands = (before ++ .variable name location :: behind) ++ [last] := by
        simp [operands]
      rcases exists_reduce_of_assigns quiet assigns pushed (by simp) session with
        ⟨recorded, sameScope, reduces⟩
      rw [← sameScope] at resolves stores
      rcases assignAll_append quiet pending.operator stores
        (.variable name location :: before.reverse) with ⟨log, assignsTo⟩
      let assigned : Session σ := { recorded with scope := reached, log }
      have failed : assignAll settings pending.operator value
          (before ++ .variable name location :: behind).reverse recorded =
            .error { cause } assigned := by
        rw [List.reverse_append, List.reverse_cons, List.append_assoc, List.singleton_append,
          assignsTo, assignAll]
        exact bind_of_error (store_of_error fails)
      rw [reduces, locating_of_eq _ (bind_of_ok (resolve_of_value? resolves))]
      exact ⟨assigned, locating_of_error _ (bind_of_error failed)⟩

/-- A reduction in which an operand cannot be resolved fails at the operator of that operand. -/
theorem reduce_of_resolves {term failing : Term} (resolves : pending.Resolves session.scope term)
    (fails : term.Fails session.scope cause failing) :
    ∃ stopped, reduce settings pending session =
      .error { cause, location := some failing.location } stopped := by
  have located {recorded : Session σ} (sameScope : recorded.scope = session.scope)
      (next : Value → Eval σ Value) :
      locating pending.location (resolve term >>= next) recorded =
        .error { cause, location := some failing.location } recorded := by
    rw [← sameScope] at fails
    exact locating_of_error _ (bind_of_error (resolve_of_fails fails))
  cases resolves with
  | first plain operands =>
      rcases exists_reduce_of_plain quiet plain operands (by simp) session with
        ⟨recorded, sameScope, reduces⟩
      exact ⟨recorded, reduces.trans (located sameScope _)⟩
  | next meets =>
      rcases exists_reduce_of_meets quiet meets with ⟨recorded, sameScope, behind, reduces⟩
      exact ⟨recorded, reduces.trans (located sameScope _)⟩
  | last assigns operands targeted =>
      rcases exists_reduce_of_assigns quiet assigns operands targeted session with
        ⟨recorded, sameScope, reduces⟩
      exact ⟨recorded, reduces.trans (located sameScope _)⟩

/-- What combines operands speaks of them for the operator or for one of the operands. -/
theorem exists_origin_of_plain (plain : pending.operator.isAssignment = false) {first : Term}
    {others : List Term} (operands : pending.operands = first :: others) (several : others ≠ [])
    (failed : reduce settings pending session = .error failure stopped)
    (operational : failure.cause.IsOperational False) :
    pending.Misapplied session.scope failure.cause := by
  rcases exists_reduce_of_plain quiet plain operands several session with
    ⟨recorded, sameScope, reduces⟩
  rw [reduces] at failed
  rcases exists_of_locating_error failed with ⟨raised, failedInside, rfl⟩
  rcases List.exists_cons_of_ne_nil several with ⟨second, rest, rfl⟩
  rcases exists_of_bind_error failedInside with unresolved | ⟨value, after, resolved, uncombined⟩
  · rcases exists_fails_of_resolve unresolved operational with ⟨failing, fails⟩
    rw [sameScope] at fails
    exact Or.inr ⟨first, failing, .first plain operands, fails⟩
  · rcases (ensures_resolve first recorded).of_ok resolved with ⟨rfl, resolves⟩
    rcases exists_met_of_combine uncombined operational with
      ⟨before, left, next, behind, split, combines, undecided, fails⟩
    rw [sameScope] at resolves combines fails
    have meets : pending.Meets session.scope left next := by
      refine ⟨plain, ⟨first :: before, behind, ?_, ?_⟩, undecided⟩
      · rw [operands, split, List.cons_append]
      · simp [gathered?, resolves, combines]
    rcases fails with ⟨right, nextResolves, fails⟩ | ⟨failing, fails⟩
    · exact Or.inl (.apply meets nextResolves fails)
    · exact Or.inr ⟨next, failing, .next meets, fails⟩

theorem exists_origin_of_assigns (assigns : pending.operator.isAssignment = true)
    {targets : List Term} {last : Term} (operands : pending.operands = targets ++ [last])
    (targeted : targets ≠ [])
    (failed : reduce settings pending session = .error failure stopped)
    (operational : failure.cause.IsOperational False) :
    pending.Misapplied session.scope failure.cause := by
  rcases exists_reduce_of_assigns quiet assigns operands targeted session with
    ⟨recorded, sameScope, reduces⟩
  rw [reduces] at failed
  rcases exists_of_locating_error failed with ⟨raised, failedInside, rfl⟩
  rcases exists_of_bind_error failedInside with unresolved | ⟨value, after, resolved, unassigned⟩
  · rcases exists_fails_of_resolve unresolved operational with ⟨failing, fails⟩
    rw [sameScope] at fails
    exact Or.inr ⟨last, failing, .last assigns operands targeted, fails⟩
  · rcases (ensures_resolve last recorded).of_ok resolved with ⟨rfl, resolves⟩
    rcases exists_of_bind_error unassigned with unassigned | ⟨_, _, _, impossible⟩
    · rcases exists_met_of_assignAll quiet unassigned operational with
        ⟨before, name, location, behind, right, reached, split, stores, fails⟩
      rw [sameScope] at resolves stores
      have sourceOrder : pending.operands =
          behind.reverse ++ .variable name location :: (before.reverse ++ [last]) := by
        rw [operands, ← targets.reverse_reverse, split]
        simp
      rw [← before.reverse_reverse] at stores
      exact Or.inl (.store assigns sourceOrder resolves stores fails)
    · cases impossible

/-- Where a reduction speaks of operands, the operator fails or an operand cannot be resolved. -/
theorem exists_origin_of_reduce (failed : reduce settings pending session = .error failure stopped)
    (operational : failure.cause.IsOperational False) :
    pending.Misapplied session.scope failure.cause := by
  rcases operands : pending.operands with _ | ⟨first, _ | ⟨second, rest⟩⟩
  · simp only [reduce, operands] at failed
    cases failed
    exact operational.elim
  · simp only [reduce, operands] at failed
    cases failed
    exact operational.elim
  · cases assigns : pending.operator.isAssignment with
    | false => exact exists_origin_of_plain quiet assigns operands (by simp) failed operational
    | true =>
        have split := List.dropLast_append_getLast (l := pending.operands) (by simp [operands])
        exact exists_origin_of_assigns quiet assigns split.symm (by simp [operands]) failed
          operational

end Reductions

end Eval

end BlockCalc
