import BlockCalc.Proofs.Reach

/-!
# Names are resolved when they are read

Operands that are variables wait unresolved until their operator is reduced, and meanwhile blocks
may have been entered that declare the same names. Nevertheless each of them denotes the variable
that it denoted when it was read: the part of an expression in between leaves the frames and their
names as they were, so that the home of each name is still the same frame.
-/

namespace BlockCalc

variable {σ : Type}

/-- Reductions find all variables, and find them where they are bound where frames have `names`. -/
structure Eval.ResolvesIn (names : List (List String)) (settings : Settings σ)
    (pending : List Pending) (term : Term) (session : Session σ) : Prop where
  collapse : collapse settings pending term session =
    collapseIn names settings pending term session
  pushOperator : ∀ operator location,
    pushOperator settings operator location pending term session =
      pushOperatorIn names settings operator location pending term session
  collapse_finds : ∀ failure stopped,
    Eval.collapse settings pending term session = .error failure stopped →
      ∀ name, failure.cause ≠ .variableNotFound name
  pushOperator_finds : ∀ operator location failure stopped,
    Eval.pushOperator settings operator location pending term session = .error failure stopped →
      ∀ name, failure.cause ≠ .variableNotFound name

theorem Eval.resolvesIn_of_uses {named : String → Prop} {names : List (List String)}
    {settings : Settings σ} (quiet : settings.hooks = .none) {pending : List Pending}
    (usesPending : Pending.Uses (Usable named names) pending) {term : Term}
    (uses : term.Uses (Usable named names)) {session : Session σ}
    (sameNames : session.scope.names = names) : ResolvesIn names settings pending term session where
  collapse := (collapse_actsAs quiet usesPending uses).eq sameNames
  pushOperator operator location :=
    (pushOperator_actsAs quiet operator location usesPending uses).eq sameNames
  collapse_finds _ _ failed :=
    ((collapse_actsAs quiet usesPending uses session sameNames).of_error failed).2.2
  pushOperator_finds operator location _ _ failed :=
    ((pushOperator_actsAs quiet operator location usesPending uses session sameNames).of_error
      failed).2.2

namespace Session

/--
Wherever the evaluation of a text is, a part that it reads adds names to the innermost frame at
most, and ending a statement adds none. A part that declares nothing outside its brackets, as no
expression does, adds none either. So the variables that wait after it are bound where they were
bound before it, and are found there when they are read or assigned.
-/
theorem names_resolved_statically {settings : Settings σ} (quiet : settings.hooks = .none)
    {session : Session σ} {text : String} {moment : Moment σ}
    (comes : session.Comes settings text moment) {part : Forest} {next : Phase}
    {after : Session σ}
    (ran : Eval.read settings moment.enclosure part moment.phase moment.session =
      .ok next after) :
    (∃ added, after.scope.names =
      (moment.session.scope.innermost.names ++ added) :: moment.session.scope.names.tail) ∧
    (∀ closer value finished, Eval.finish settings closer next after = .ok value finished →
      finished.scope.names = after.scope.names) ∧
    (moment.phase.isNaming = false → part.declared false = [] →
      after.scope.names = moment.session.scope.names ∧
      next.Uses (fun name => ∃ home, homeIn moment.session.scope.names name = some home) ∧
      ∀ pending term, next = .operator pending term →
        Eval.ResolvesIn moment.session.scope.names settings pending term after) := by
  have everyName : ∀ token ∈ part.tokens, token.kind = .word → True := fun _ _ _ => trivial
  rcases (Eval.turnsTo_read quiet everyName (comes.uses quiet)).of_ok ran with ⟨turns, remains⟩
  refine ⟨turns.names_grow, fun closer value finished finishes => ?_, fun noName noLet => ?_⟩
  · have still := ((Eval.turnsTo_finish quiet closer remains.uses).of_ok finishes).1
    exact still.names_eq
  · rw [noName, noLet] at turns
    have sameNames : after.scope.names = moment.session.scope.names := turns.names_eq
    have uses := remains.uses
    rw [sameNames] at uses
    refine ⟨sameNames, uses.mono fun _ usable => usable.2, ?_⟩
    rintro pending term rfl
    exact Eval.resolvesIn_of_uses quiet uses.1 uses.2 sameNames

/-- The tokens declare nothing at the top level and leave these operators waiting. -/
def EndsWaiting (settings : Settings σ) (session : Session σ) (tokens : List Token)
    (operators : List BinaryOp) : Prop :=
  (match Forest.ofTokens tokens with
    | .error _ => false
    | .ok forest =>
        Eval.LeavesWaiting settings session forest operators ∧ forest.declared false = []) = true

instance (settings : Settings σ) (session : Session σ) (tokens : List Token)
    (operators : List BinaryOp) : Decidable (EndsWaiting settings session tokens operators) :=
  inferInstanceAs (Decidable (_ = true))

theorem EndsWaiting.exists_forest {settings : Settings σ} {session : Session σ}
    {tokens : List Token} {operators : List BinaryOp}
    (ends : EndsWaiting settings session tokens operators) :
    ∃ forest, Forest.ofTokens tokens = .ok forest ∧
      Eval.LeavesWaiting settings session forest operators ∧ forest.declared false = [] := by
  simp only [EndsWaiting] at ends
  split at ends
  · cases ends
  · exact ⟨_, ‹_›, of_decide_eq_true ends⟩

theorem names_resolved_statically_around_block :
    let settings : Settings Unit := {}
    let session : Session Unit := { fresh () with scope := Scope.empty.declare "a" }
    let text := "a = \x7b let a = 5; a \x7d * 2"
    ∃ moment part pending term after, session.Comes settings text moment ∧
      Eval.read settings moment.enclosure part moment.phase moment.session =
        .ok (.operator pending term) after ∧
      pending.length = 2 ∧ after.scope.names = [["a"]] ∧
      Eval.ResolvesIn [["a"]] settings pending term after := by
  intro settings session text
  let begun : Session Unit := (session.feed text).prepare.begun settings
  have ends : EndsWaiting settings begun (session.feed text).lexer.tokens [.mul, .assign] := by
    decide +kernel
  rcases ends.exists_forest with ⟨forest, found, leaves, noDeclaration⟩
  rcases leaves.exists_read with ⟨pending, term, after, ran, operators⟩
  have two : pending.length = 2 := by
    rw [← List.length_map, operators]
    rfl
  have comes : session.Comes settings text ⟨.statements, .statement .void, forest, begun⟩ :=
    ⟨forest, found, .refl _⟩
  have resolved := (names_resolved_statically rfl comes ran).2.2 rfl noDeclaration
  exact ⟨_, forest, pending, term, after, comes, ran, two, resolved.1,
    resolved.2.2 pending term rfl⟩

end Session

end BlockCalc
