import BlockCalc.Proofs.Chains
import BlockCalc.Proofs.Turning
import BlockCalc.Proofs.WellFormed

/-!
# Chains of assignments as statements

A chain of assignments does what the statements do that assign to its targets one by one from the
right, each from the one behind it. Statements are evaluated one after the other, and the bindings
that there are when one of them ends are there when the next one starts. So the target that has been
assigned last is read with the value that the chain would have passed on. Where the value cannot be
stored, both forms end with the same failure, and the targets before that one are left alone.
-/

namespace BlockCalc

variable {σ : Type}

/-- The tokens of the statements that assign to the same targets one by one, from the right. -/
def stepwiseTokens (symbol separator : Token) (right : List Token) : List Token → List Token
  | [] => right
  | [target] => assignmentTokens symbol right [target]
  | target :: next :: others =>
      stepwiseTokens symbol separator right (next :: others) ++
        separator :: assignmentTokens symbol [next] [target]

namespace Forest

/-- The statements that assign to the targets one by one, each from the target behind it. -/
def stepwise (symbol separator : Token) (right : Forest) : List Token → Forest
  | [] => right
  | [target] => assignment symbol right [target]
  | target :: next :: others =>
      (stepwise symbol separator right (next :: others)).append
        (.leaf separator (assignment symbol (.leaf next .nil) [target]))

@[simp]
theorem tokens_stepwise (symbol separator : Token) (right : Forest) (targets : List Token) :
    (stepwise symbol separator right targets).tokens =
      stepwiseTokens symbol separator right.tokens targets := by
  induction targets using stepwise.induct with
  | case1 => rfl
  | case2 target => simp [stepwise, stepwiseTokens]
  | case3 target next others ih => simp [stepwise, stepwiseTokens, tokens, ih]

end Forest

namespace Assignable

variable {scope : Scope} {operator : BinaryOp} {symbol separator : Token} {targets : List Token}
  {right : Forest}

theorem matched_stepwise (assignable : Assignable scope operator symbol targets)
    (isSeparator : separator.isSeparator = true) (matched : right.Matched) :
    (Forest.stepwise symbol separator right targets).Matched := by
  induction targets using Forest.stepwise.induct with
  | case1 => exact matched
  | case2 target => exact assignable.matched_assignment matched
  | case3 target next others ih =>
      have plainSymbol := Token.plain_of_binary? assignable.writes
      rcases List.forall_mem_cons.mp assignable.identifiers with ⟨identifier, identifiers⟩
      rcases List.forall_mem_cons.mp assignable.visible with ⟨_, visible⟩
      have plainTarget := Token.plain_of_isIdentifier identifier
      have plainNext := Token.plain_of_isIdentifier (identifiers next List.mem_cons_self)
      apply (ih ⟨assignable.writes, assignable.assigns, identifiers, visible⟩).append
      exact ⟨Token.opens?_of_isSeparator isSeparator, Token.closes?_of_isSeparator isSeparator,
        plainTarget.opens, plainTarget.closes, plainSymbol.opens, plainSymbol.closes,
        plainNext.opens, plainNext.closes, trivial⟩

theorem ofTokens_stepwise (assignable : Assignable scope operator symbol targets)
    (isSeparator : separator.isSeparator = true) (matched : right.Matched) :
    Forest.ofTokens (stepwiseTokens symbol separator right.tokens targets) =
      .ok (.stepwise symbol separator right targets) :=
  Forest.ofTokens_eq_ok_iff.mpr ⟨assignable.matched_stepwise isSeparator matched,
    Forest.tokens_stepwise symbol separator right targets⟩

end Assignable

/-- A target that has got a value has that value. -/
theorem read?_of_assignNext_eq_ok {operator : BinaryOp} {name : String}
    {reached : Except Cause Value × Scope} {value : Value} {scope : Scope}
    (assigned : assignNext operator name reached = (.ok value, scope)) :
    scope.read? name = some value := by
  rcases reached with ⟨_ | right, before⟩
  · cases assigned
  · cases stores : before.stored operator name right with
    | error cause =>
        rw [assignNext_of_error stores] at assigned
        cases assigned
    | ok stored =>
        rw [assignNext_of_ok stores] at assigned
        cases assigned
        exact Scope.read?_of_assign (Scope.stored_eq_ok stores).2

theorem eq_error_of_asStatement {reached : Except Cause Value × Scope} {cause : Cause}
    {scope : Scope} (ended : (.error cause, scope) = asStatement reached) :
    reached = (.error cause, scope) := by
  rcases reached with ⟨_ | value, after⟩ <;> cases ended
  rfl

theorem exists_eq_ok_of_asStatement {reached : Except Cause Value × Scope} {value : Value}
    {scope : Scope} (ended : (.ok value, scope) = asStatement reached) :
    ∃ last, reached = (.ok last, scope) := by
  rcases reached with ⟨_ | last, after⟩ <;> cases ended
  exact ⟨last, rfl⟩

namespace Eval

/-- Evaluates statements up to a separator, which ends the last of them. -/
def statementsBefore (settings : Settings σ) (separator : Token) (first : Forest) :
    Eval σ Value := do
  let phase ← read settings .statements first (.statement .void)
  advance
  finish settings (some separator) phase

variable {settings : Settings σ} {session : Session σ}

theorem statements_append_leaf {separator : Token} (isSeparator : separator.isSeparator = true)
    (first second : Forest) :
    statements settings (first.append (.leaf separator second)) = (do
      let _ ← statementsBefore settings separator first
      statements settings second) := by
  simp only [statements, statementsBefore, read_append, read_leaf, readToken, isSeparator, if_true,
    endExpression, bind_assoc, pure_bind]

section Quiet

variable (quiet : settings.hooks = .none)

include quiet

/-- Statements end in front of a separator as they end at the end. -/
theorem matches_statementsBefore (separator : Token) (first : Forest) :
    Matches (fun _ _ => True) Eq (statementsBefore settings separator first)
      (statements settings first) := by
  apply (matches_read (.refl quiet) (.refl first) .statements (.refl _)).bind
  intro phase other alike before behind beside
  exact matches_finish (.refl quiet) (some separator) none alike _ _
    ⟨beside.scope, beside.brackets, beside.log⟩

/-- What is bound before some statements is bound behind them. -/
theorem ensures_statementsBefore_has (separator : Token) (first : Forest) :
    Ensures (statementsBefore settings separator first) session
      (fun _ after => ∀ name, session.scope.has name = true → after.scope.has name = true)
      (fun _ _ => True) := by
  have uses : (Phase.statement .void).Uses (Usable (fun _ => True) session.scope.names) := trivial
  have turnsTo : TurnsTo (fun _ => True) (first.declared false ++ [])
      (statementsBefore settings separator first) session fun _ _ => True := by
    apply (turnsTo_read quiet (fun _ _ _ => trivial) uses).bind
    intro phase after _ remains
    apply TurnsTo.advance_bind
    intro advanced sameScope
    apply (turnsTo_finish quiet (some separator) (sameScope ▸ remains.uses)).imp
    exact fun _ _ _ => trivial
  exact turnsTo.mono (fun _ _ ⟨turns, _⟩ _ => turns.has) fun _ _ _ => trivial

/-- The statements behind a separator are evaluated with the bindings that those before it leave. -/
theorem shown_statements_append_leaf {separator : Token}
    (isSeparator : separator.isSeparator = true) (first second : Forest) (session : Session σ) :
    (∃ cause scope, shown (statements settings first session) = (.error cause, scope) ∧
      shown (statements settings (first.append (.leaf separator second)) session) =
        (.error cause, scope)) ∨
    ∃ value after, shown (statements settings first session) = (.ok value, after.scope) ∧
      (∀ name, session.scope.has name = true → after.scope.has name = true) ∧
      statements settings (first.append (.leaf separator second)) session =
        statements settings second after := by
  have sameShown := (matches_statementsBefore quiet separator first).shown_eq (.refl session)
  rw [statements_append_leaf isSeparator, ← sameShown]
  cases ran : statementsBefore settings separator first session with
  | error failure stopped =>
      rw [bind_of_error ran]
      exact Or.inl ⟨failure.cause, stopped.scope.unwind, rfl, rfl⟩
  | ok value after =>
      rw [bind_of_ok ran]
      have stays := (ensures_statementsBefore_has quiet separator first).of_ok ran
      exact Or.inr ⟨value, after, rfl, stays, rfl⟩

/-- Assigning from a variable is assigning the value that it has. -/
theorem shown_copy {operator : BinaryOp} {symbol target source : Token}
    (assignable : Assignable session.scope operator symbol [target])
    (identifier : source.isIdentifier = true) {value : Value}
    (reads : session.scope.read? source.text = some value) :
    shown (statements settings (.assignment symbol (.leaf source .nil) [target]) session) =
      asStatement (assignNext operator target.text (.ok value, session.scope)) := by
  have visible : session.scope.has source.text = true := by
    rw [Scope.has_eq_isSome_read?, reads, Option.isSome_some]
  rcases exists_read_assignment settings (List.cons_ne_nil target []) assignable .void with
    ⟨base, position, awaits, readsTarget⟩
  let advanced : Session σ := { session with position := position + 1 }
  have visibleThere : advanced.scope.has source.text = true := visible
  let location := source.location settings.fileName session.source
  have readsRight : read settings .statements (.leaf source .nil) (.operand [base] [])
      { session with position } =
        .ok (.operator [base] (.variable source.text location)) advanced := by
    rw [read_leaf_of_ok (readToken_target settings identifier visibleThere (.operand [base] []))]
    rfl
  have runs : statements settings (.assignment symbol (.leaf source .nil) [target]) session =
      reduce settings (base.push (.variable source.text location)) advanced := by
    rw [statements, bind_of_ok ((readsTarget _).trans readsRight)]
    exact congrFun (collapse_single base _) advanced
  have resolves : shown (resolve (.variable source.text location) advanced) =
      (.ok value, session.scope) := by
    have readsThere : session.scope.read source.text = .ok value := by
      simp only [Scope.read, reads]
    have resolved : resolve (.variable source.text location) advanced =
        locating location (ofExcept (session.scope.read source.text)) advanced := rfl
    rw [resolved, readsThere]
    rfl
  rw [runs, shown_reduce_assignment quiet assignable.assigns (List.cons_ne_nil _ _) awaits,
    resolves]
  rfl

/-- Assigning to targets one by one shows what assigning to all of them at once shows. -/
theorem shown_stepwise {operator : BinaryOp} {symbol separator : Token} {right : Forest}
    {targets : List Token} (targeted : targets ≠ [])
    (assignable : Assignable session.scope operator symbol targets)
    (isSeparator : separator.isSeparator = true) {evaluated : Except Cause Value × Scope}
    (single : ∀ target ∈ targets,
      shown (statements settings (.assignment symbol right [target]) session) =
        asStatement (assignNext operator target.text evaluated)) :
    shown (statements settings (.stepwise symbol separator right targets) session) =
      asStatement ((targets.map (·.text)).foldr (assignNext operator) evaluated) := by
  induction targets using Forest.stepwise.induct with
  | case1 => exact absurd rfl targeted
  | case2 target => exact single target List.mem_cons_self
  | case3 target next others ih =>
      have further : Assignable session.scope operator symbol (next :: others) :=
        assignable.of_subset (List.subset_cons_self target _) fun _ => id
      have before := ih (List.cons_ne_nil next others) further fun other member =>
        single other (List.mem_cons_of_mem target member)
      rw [List.map_cons, List.foldr_cons]
      generalize reachedIs : ((next :: others).map (·.text)).foldr (assignNext operator) evaluated =
        reached at before
      rcases shown_statements_append_leaf quiet isSeparator
        (.stepwise symbol separator right (next :: others))
        (.assignment symbol (.leaf next .nil) [target]) session with
        ⟨cause, scope, failed, stillFailed⟩ | ⟨value, after, ended, stays, continues⟩
      · rw [failed] at before
        rw [eq_error_of_asStatement before]
        exact stillFailed
      · rw [ended] at before
        rcases exists_eq_ok_of_asStatement before with ⟨last, rfl⟩
        have isNext : next ∈ target :: next :: others :=
          List.mem_cons_of_mem target List.mem_cons_self
        have copies : Assignable after.scope operator symbol [target] :=
          assignable.of_subset (by simp) stays
        have reads : after.scope.read? next.text = some last :=
          read?_of_assignNext_eq_ok reachedIs
        exact (congrArg shown continues).trans
          (shown_copy quiet copies (assignable.identifiers next isNext) reads)

end Quiet

end Eval

namespace Session

/--
With no hooks, an assignment to several variables ends as the statements end that assign to these
variables one by one from the right, each from the one behind it, and leaves the same bindings: what
the right-hand side evaluates to, before any variable is changed and whatever the variables are, is
stored in one variable after the other. If it cannot be stored in one of them, those behind it keep
what they have been assigned.
-/
theorem parse_assignment_chain {settings : Settings σ} (quiet : settings.hooks = .none)
    (session : Session σ) {right : List Token} {forest : Forest}
    (rightMatches : Forest.ofTokens right = .ok forest) (rightHand : forest.IsRightHand) :
    ∃ evaluated : Except Cause Value × Scope,
      ∀ {operator : BinaryOp} {symbol separator : Token} {targets chain steps : List Token},
        targets ≠ [] → Assignable session.scope operator symbol targets →
        separator.isSeparator = true →
        (assignmentTokens symbol right targets).Forall₂ Token.Alike chain →
        (stepwiseTokens symbol separator right targets).Forall₂ Token.Alike steps →
        ∀ chainSource stepsSource : Source,
          let atOnce := (session.holding chain chainSource).parse settings ""
          let oneByOne := (session.holding steps stepsSource).parse settings ""
          shown atOnce = shown oneByOne ∧
            shown atOnce =
              asStatement ((targets.map (·.text)).foldr (assignNext operator) evaluated) ∧
            ∀ {before after : List Token} {target : Token} {value : Value} {scope : Scope}
              {cause : Cause}, targets = before ++ target :: after →
              (after.map (·.text)).foldr (assignNext operator) evaluated = (.ok value, scope) →
              scope.stored operator target.text value = .error cause →
              shown atOnce = (.error cause, scope.unwind) := by
  rcases Forest.ofTokens_eq_ok_iff.mp rightMatches with ⟨matched, rfl⟩
  rcases Eval.exists_shown_assignment quiet rightHand session.prepare with
    ⟨evaluated, evaluates, _⟩
  refine ⟨evaluated, ?_⟩
  intro operator symbol separator targets chain steps targeted assignable isSeparator alikeChain
    alikeSteps chainSource stepsSource atOnce oneByOne
  have sameScope : session.prepare.scope = session.scope := rfl
  have atStart : Assignable session.prepare.scope operator symbol targets := assignable
  have chainShown : shown atOnce =
      asStatement ((targets.map (·.text)).foldr (assignNext operator) evaluated) :=
    (shown_parse_alike quiet session (assignable.ofTokens_assignment matched) alikeChain chainSource
      sameScope rfl).trans
      (evaluates operator symbol targets targeted atStart)
  have single : ∀ target ∈ targets,
      Eval.shown (Eval.statements settings (.assignment symbol forest [target]) session.prepare) =
        asStatement (assignNext operator target.text evaluated) := by
    intro target member
    exact evaluates operator symbol [target] (List.cons_ne_nil target [])
      (assignable.of_subset (by simpa using member) fun _ => id)
  have stepsShown : shown oneByOne =
      asStatement ((targets.map (·.text)).foldr (assignNext operator) evaluated) :=
    (shown_parse_alike quiet session (assignable.ofTokens_stepwise isSeparator matched) alikeSteps
      stepsSource sameScope rfl).trans
      (Eval.shown_stepwise quiet targeted atStart isSeparator single)
  refine ⟨chainShown.trans stepsShown.symm, chainShown, ?_⟩
  rintro before after target value scope cause rfl stored refused
  rw [chainShown, List.map_append, List.map_cons, List.foldr_append, List.foldr_cons, stored,
    assignNext_of_error refused, foldr_assignNext_error]
  rfl

theorem parse_assignment_chain_refused :
    let settings : Settings Unit := {}
    let c : Token := { kind := .word, text := "c", start := {} }
    let a : Token := { kind := .word, text := "a", start := {} }
    let b : Token := { kind := .word, text := "b", start := {} }
    let one : Token := { kind := .word, text := "1", start := {} }
    let add : Token := { kind := .punctuation, text := "+=", start := {} }
    let separator : Token := { kind := .punctuation, text := ";", start := {} }
    let scope (last : Int) : Scope :=
      { top := .ofList [("c", .integer 0), ("a", .text "x"), ("b", .integer last)] }
    let session : Session Unit := { fresh () with scope := scope 1 }
    let atOnce := (session.holding [c, add, a, add, b, add, one] .empty).parse settings ""
    let oneByOne := (session.holding
      [b, add, one, separator, a, add, b, separator, c, add, a] .empty).parse settings ""
    shown atOnce = shown oneByOne ∧
      shown atOnce =
        (.error (.invalidExpression (.unaddable (.text "x") (.integer 2))), scope 2) := by
  intro settings c a b one add separator scope session atOnce oneByOne
  have quiet : settings.hooks = .none := rfl
  have same := Token.forall₂_alike_refl
  have assignable (targets : List Token) (subset : targets ⊆ [c, a, b]) :
      Assignable session.scope .addAssign add targets :=
    Assignable.of_subset ⟨rfl, rfl, by decide, by decide⟩ subset fun _ => id
  rcases parse_assignment_chain quiet session (rfl : Forest.ofTokens [one] = .ok _)
    ⟨rfl, by decide, trivial⟩ with ⟨evaluated, outcome⟩
  -- The last variable alone shows what it is assigned.
  have isSeparator : separator.isSeparator = true := rfl
  have last := (outcome (List.cons_ne_nil b []) (assignable [b] (by simp)) isSeparator (same _)
    (same [b, add, one]) .empty .empty).2.1
  have computed : shown ((session.holding [b, add, one] .empty).parse settings "") =
      (.ok .void, scope 2) := by decide +kernel
  rcases exists_eq_ok_of_asStatement (computed.symm.trans last) with ⟨value, reached⟩
  have isTwo : some (.integer 2) = some value := read?_of_assignNext_eq_ok reached
  cases isTwo
  have refused : (scope 2).stored .addAssign a.text (.integer 2) =
      .error (.invalidExpression (.unaddable (.text "x") (.integer 2))) := rfl
  have split : [c, a, b] = [c] ++ a :: [b] := rfl
  have ended := outcome (List.cons_ne_nil c [a, b]) (assignable [c, a, b] (fun _ => id))
    isSeparator (same _) (same _) .empty .empty
  exact ⟨ended.1, ended.2.2 split reached refused⟩

end Session

end BlockCalc
