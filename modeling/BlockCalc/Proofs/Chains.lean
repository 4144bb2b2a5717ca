import BlockCalc.Proofs.Assigning
import BlockCalc.Proofs.Carrying
import BlockCalc.Proofs.Precedence
import BlockCalc.Proofs.Shadowing
import BlockCalc.Proofs.Unmatched

/-!
# Chains of assignments

An assignment to several targets is read as one pending operator, which collects the targets while
it waits for the right-hand side. It does nothing to them before the right-hand side has been
evaluated, so that what this ends with depends on neither the targets nor the operator.
-/

namespace BlockCalc

variable {σ : Type}

/-- The tokens of an assignment to some targets, from left to right. -/
def assignmentTokens (symbol : Token) (right targets : List Token) : List Token :=
  targets.foldr (fun target rest => target :: symbol :: rest) right

namespace Forest

/-- Assignments by one symbol to targets, the first one outermost. -/
def assignment (symbol : Token) (right : Forest) (targets : List Token) : Forest :=
  targets.foldr (fun target rest => .leaf target (.leaf symbol rest)) right

@[simp]
theorem tokens_assignment (symbol : Token) (right : Forest) (targets : List Token) :
    (assignment symbol right targets).tokens = assignmentTokens symbol right.tokens targets := by
  induction targets with
  | nil => rfl
  | cons target rest ih =>
      simp only [assignment, assignmentTokens, List.foldr_cons, tokens] at ih ⊢
      rw [ih]

end Forest

/-- What it takes to assign to some targets: an operator, and variables that are bound. -/
structure Assignable (scope : Scope) (operator : BinaryOp) (symbol : Token)
    (targets : List Token) : Prop where
  writes : symbol.binary? = some operator
  assigns : operator.isAssignment = true
  identifiers : ∀ target ∈ targets, target.isIdentifier = true
  visible : ∀ target ∈ targets, scope.has target.text = true

namespace Assignable

variable {scope : Scope} {operator : BinaryOp} {symbol : Token} {targets : List Token}

theorem matched_assignment (assignable : Assignable scope operator symbol targets) {right : Forest}
    (matched : right.Matched) : (Forest.assignment symbol right targets).Matched := by
  have plain := Token.plain_of_binary? assignable.writes
  have identifiers := assignable.identifiers
  clear assignable
  induction targets with
  | nil => exact matched
  | cons target rest ih =>
      rw [List.forall_mem_cons] at identifiers
      have plainTarget := Token.plain_of_isIdentifier identifiers.1
      exact ⟨plainTarget.opens, plainTarget.closes, plain.opens, plain.closes, ih identifiers.2⟩

theorem ofTokens_assignment (assignable : Assignable scope operator symbol targets)
    {right : Forest} (matched : right.Matched) :
    Forest.ofTokens (assignmentTokens symbol right.tokens targets) =
      .ok (.assignment symbol right targets) :=
  Forest.ofTokens_eq_ok_iff.mpr
    ⟨assignable.matched_assignment matched, Forest.tokens_assignment symbol right targets⟩

theorem of_subset (assignable : Assignable scope operator symbol targets) {others : List Token}
    (subset : others ⊆ targets) {later : Scope}
    (stays : ∀ name, scope.has name = true → later.has name = true) :
    Assignable later operator symbol others where
  writes := assignable.writes
  assigns := assignable.assigns
  identifiers target member := assignable.identifiers target (subset member)
  visible target member := stays _ (assignable.visible target (subset member))

end Assignable

theorem Awaits.push {operator : BinaryOp} {names : List String} {base : Pending}
    (awaits : Awaits operator names base) (name : String) (location : Location) :
    Awaits operator (names ++ [name]) (base.push (.variable name location)) where
  operator := awaits.operator
  targets := List.rel_append awaits.targets (.cons ⟨location, rfl⟩ .nil)

namespace Eval

variable {settings : Settings σ} {session : Session σ}

/-- A variable that is bound is an operand that is read later. -/
theorem readToken_target (settings : Settings σ) {target : Token}
    (identifier : target.isIdentifier = true) (visible : session.scope.has target.text = true)
    {phase : Phase} {pending : List Pending}
    (awaits : phase.Awaits .statements target.binary? pending []) :
    readToken settings .statements target phase session =
      .ok (.operator pending (.variable target.text (session.site settings target))) session := by
  have isTerm : target.IsTerm settings session _ :=
    .variable (Token.startsWithDigit_of_isIdentifier identifier)
      (Token.isLet_eq_false_of_isIdentifier identifier) visible
  exact (Leads.word awaits (Token.kind_of_isIdentifier identifier) isTerm).run_eq

/-- A variable is read together with the operator behind it, which joins those that wait. -/
theorem exists_read_variable (settings : Settings σ) {target symbol : Token}
    {operator : BinaryOp} (identifier : target.isIdentifier = true)
    (visible : session.scope.has target.text = true) (writes : symbol.binary? = some operator)
    {phase : Phase} {pending : List Pending}
    (expects : phase.Awaits .statements target.binary? pending []) :
    ∃ variableLocation location position, ∀ rest,
      read settings .statements (.leaf target (.leaf symbol rest)) phase session =
        (do
          let joined ← pushOperator settings operator location pending
            (.variable target.text variableLocation)
          read settings .statements rest (.operand joined [])) { session with position } := by
  let advanced : Session σ := { session with position := session.position + 1 }
  have visibleThere : advanced.scope.has target.text = true := visible
  refine ⟨session.site settings target, session.site settings symbol, advanced.position + 1,
    fun rest => ?_⟩
  rw [read_leaf_of_ok (readToken_target settings identifier visibleThere expects), read_leaf,
    bind_of_ok (advance_eq_ok advanced),
    bind_of_eq (Does.pushes (.operator pending _) writes).run_eq, Deed.run, bind_assoc]
  rfl

/-- Nothing waits yet, or the assignment with the targets before. -/
def Waiting (operator : BinaryOp) (names : List String) (pending : List Pending) : Prop :=
  (pending = [] ∧ names = []) ∨ ∃ base, pending = [base] ∧ Awaits operator names base

theorem Waiting.exists_pushOperator (settings : Settings σ) {operator : BinaryOp}
    {names : List String} {pending : List Pending} (waiting : Waiting operator names pending)
    (name : String) (variableLocation location : Location) :
    ∃ base, Awaits operator (names ++ [name]) base ∧
      pushOperator settings operator location pending (.variable name variableLocation) =
        pure [base] := by
  rcases waiting with ⟨rfl, rfl⟩ | ⟨base, rfl, awaits⟩
  · exact ⟨{ operator, operands := [.variable name variableLocation], location },
      ⟨rfl, .cons ⟨variableLocation, rfl⟩ .nil⟩, rfl⟩
  · refine ⟨base.push (.variable name variableLocation), awaits.push name variableLocation, ?_⟩
    simp only [pushOperator, awaits.operator, if_true]

/-- A target and the operator behind it join the targets before them. -/
theorem exists_read_target (settings : Settings σ) {target symbol : Token} {operator : BinaryOp}
    (identifier : target.isIdentifier = true) (visible : session.scope.has target.text = true)
    (writes : symbol.binary? = some operator) {names : List String} {pending : List Pending}
    (waiting : Waiting operator names pending) {phase : Phase}
    (expects : phase.Awaits .statements target.binary? pending []) :
    ∃ base position, Awaits operator (names ++ [target.text]) base ∧
      ∀ rest, read settings .statements (.leaf target (.leaf symbol rest)) phase session =
        read settings .statements rest (.operand [base] []) { session with position } := by
  rcases exists_read_variable settings identifier visible writes expects with
    ⟨variableLocation, location, position, reads⟩
  rcases waiting.exists_pushOperator settings target.text variableLocation location with
    ⟨base, awaits, pushes⟩
  refine ⟨base, position, awaits, fun rest => ?_⟩
  rw [reads, pushes, pure_bind]

/-- The targets of an assignment and the operators behind them are read one after the other. -/
theorem exists_read_targets (settings : Settings σ) {operator : BinaryOp} {symbol : Token}
    {targets : List Token} (assignable : Assignable session.scope operator symbol targets)
    {names : List String} {base : Pending} (awaits : Awaits operator names base) :
    ∃ last position, Awaits operator (names ++ targets.map (·.text)) last ∧
      ∀ right, read settings .statements (.assignment symbol right targets) (.operand [base] [])
        session = read settings .statements right (.operand [last] [])
          { session with position } := by
  induction targets generalizing names base session with
  | nil => exact ⟨base, session.position, by simpa using awaits, fun _ => rfl⟩
  | cons target others ih =>
      have member : target ∈ target :: others := List.mem_cons_self
      have waiting : Waiting operator names [base] := Or.inr ⟨base, rfl, awaits⟩
      rcases exists_read_target settings (assignable.identifiers target member)
        (assignable.visible target member) assignable.writes waiting (.operand [base] []) with
        ⟨joined, position, awaitsJoined, readsFirst⟩
      have further : Assignable ({ session with position } : Session σ).scope operator symbol
          others := assignable.of_subset (List.subset_cons_self target others) fun _ => id
      rcases ih further awaitsJoined with ⟨last, behind, awaitsLast, readsRest⟩
      exact ⟨last, behind, by simpa using awaitsLast,
        fun right => (readsFirst _).trans (readsRest right)⟩

/-- An assignment is read from the start of a statement up to its right-hand side. -/
theorem exists_read_assignment (settings : Settings σ) {operator : BinaryOp} {symbol : Token}
    {targets : List Token} (targeted : targets ≠ [])
    (assignable : Assignable session.scope operator symbol targets) (last : Value) :
    ∃ base position, Awaits operator (targets.map (·.text)) base ∧
      ∀ right, read settings .statements (.assignment symbol right targets) (.statement last)
        session = read settings .statements right (.operand [base] [])
          { session with position } := by
  rcases targets with _ | ⟨target, others⟩
  · exact absurd rfl targeted
  · have member : target ∈ target :: others := List.mem_cons_self
    have identifier := assignable.identifiers target member
    have waiting : Waiting operator [] [] := Or.inl ⟨rfl, rfl⟩
    rcases exists_read_target settings identifier (assignable.visible target member)
      assignable.writes waiting (.begins (.first last)) with
      ⟨first, position, awaitsFirst, readsFirst⟩
    have further : Assignable ({ session with position } : Session σ).scope operator symbol
        others := assignable.of_subset (List.subset_cons_self target others) fun _ => id
    rcases exists_read_targets settings further awaitsFirst with ⟨base, behind, awaits, readsRest⟩
    exact ⟨base, behind, awaits, fun right => (readsFirst _).trans (readsRest right)⟩

section Quiet

variable (quiet : settings.hooks = .none)

include quiet

/--
Whatever is assigned, and with whichever operator, the right-hand side is evaluated before any of
the targets gets a value, and as it is evaluated in round brackets.
-/
theorem exists_shown_assignment {right : Forest} (rightHand : right.IsRightHand)
    (session : Session σ) :
    ∃ evaluated,
      (∀ operator symbol targets, targets ≠ [] →
        Assignable session.scope operator symbol targets →
        shown (statements settings (.assignment symbol right targets) session) =
          asStatement ((targets.map (·.text)).foldr (assignNext operator) evaluated)) ∧
      ∀ group : Group, group.bracket = .round → ∀ closer, ended (shown ((do
        finish settings (some closer)
          (← read settings (.parenthesis group) right (.operand [] []))) session)) =
            ended evaluated := by
  rcases exists_evaluated quiet rightHand session with ⟨evaluated, evaluates, inRound⟩
  refine ⟨evaluated, ?_, inRound⟩
  intro operator symbol targets targeted assignable
  rcases exists_read_assignment settings targeted assignable .void with
    ⟨base, position, awaits, reads⟩
  have runs : statements settings (.assignment symbol right targets) session =
      (do finish settings none (← read settings .statements right (.operand [base] [])))
        { session with position } := bind_of_eq (reads right) _
  have someNames : targets.map (·.text) ≠ [] := by simpa using targeted
  -- How far the program has been read shows in nothing.
  have sameRun := (matches_read (.refl quiet) (.refl right) .statements
    (Phase.Alike.refl (.operand [base] []))).bind fun _ _ => matches_finish (.refl quiet) none none
  have alike : session.Alike { session with position } := ⟨rfl, rfl⟩
  rw [runs, ← sameRun.shown_eq alike, evaluates assignable.assigns someNames awaits]

end Quiet

end Eval

end BlockCalc
