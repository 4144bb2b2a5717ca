import BlockCalc.Proofs.Chains
import BlockCalc.Proofs.Elsewhere

/-!
# Compound assignments

A compound assignment does what the plain assignment does that spells it out: the variable, its
operator and the right-hand side in round brackets. Both read the variable after the right-hand side
has been evaluated, since an operand is not resolved before its operator is reduced. The brackets
let the right-hand side be what it is behind an assignment, but take one level of the nesting.
-/

namespace BlockCalc

variable {σ : Type}

namespace BinaryOp

variable {compound base : BinaryOp}

theorem isAssignment_of_compoundBase? (compoundBase : compound.compoundBase? = some base) :
    compound.isAssignment = true := by
  cases compound <;> cases compoundBase <;> rfl

theorem ne_assign_of_compoundBase? (compoundBase : compound.compoundBase? = some base) :
    compound ≠ .assign := by
  rintro rfl
  cases compoundBase

/-- What a compound assignment applies is an operator that resolves all its operands. -/
theorem plain_of_compoundBase? (compoundBase : compound.compoundBase? = some base) :
    base.isAssignment = false ∧ ∀ value, decides base value = false := by
  cases compound <;> cases compoundBase <;> exact ⟨rfl, fun _ => rfl⟩

end BinaryOp

/-- A compound assignment stores what a plain one stores that gets the result of the operator. -/
theorem Scope.stored_compound {compound base : BinaryOp}
    (compoundBase : compound.compoundBase? = some base) (scope : Scope) (name : String)
    (right : Value) :
    scope.stored compound name right = (do
      let current ← scope.read name
      let value ← base.apply current right
      scope.stored .assign name value) := by
  have noAssign := BinaryOp.ne_assign_of_compoundBase? compoundBase
  simp only [stored, noAssign, if_false, update, BinaryOp.assigned, compoundBase, if_true]
  cases scope.read name with
  | error cause => rfl
  | ok current =>
      cases applies : base.apply current right with
      | error cause => simp only [bind, Except.bind, applies]
      | ok value =>
          have stores := Value.store_of_present (BinaryOp.present_of_apply applies)
          simp only [bind, Except.bind, applies, stores]

/-- The tokens of an assignment to a variable of what an operator makes of it and something else. -/
def spelledOutTokens (target equals symbol opener closer : Token) (right : List Token) :
    List Token :=
  [target, equals, target, symbol, opener] ++ right ++ [closer]

/-- A plain assignment of what an operator makes of the target and a bracketed right side. -/
def Forest.spelledOut (target equals symbol opener closer : Token) (right : Forest) : Forest :=
  .assignment equals (.leaf target (.leaf symbol (.nest .round opener right closer .nil))) [target]

theorem Forest.tokens_spelledOut (target equals symbol opener closer : Token) (right : Forest) :
    (spelledOut target equals symbol opener closer right).tokens =
      spelledOutTokens target equals symbol opener closer right.tokens := by
  simp only [spelledOut, assignment, List.foldr_cons, List.foldr_nil, tokens, spelledOutTokens,
    Option.toList_some, List.cons_append, List.nil_append, List.append_nil]

theorem Assignable.ofTokens_spelledOut {scope : Scope} {target equals symbol opener closer : Token}
    (assignable : Assignable scope .assign equals [target]) {operator : BinaryOp}
    (applies : symbol.binary? = some operator) (opens : opener.opens? = some .round)
    (closes : closer.closes? = some .round) {right : Forest} (matched : right.Matched) :
    Forest.ofTokens (spelledOutTokens target equals symbol opener closer right.tokens) =
      .ok (.spelledOut target equals symbol opener closer right) := by
  have plainTarget :=
    Token.plain_of_isIdentifier (assignable.identifiers target (List.mem_singleton_self target))
  have plainSymbol := Token.plain_of_binary? applies
  have behindEquals :
      (Forest.leaf target (.leaf symbol (.nest .round opener right closer .nil))).Matched :=
    ⟨plainTarget.opens, plainTarget.closes, plainSymbol.opens, plainSymbol.closes, opens,
      ⟨closer, rfl, closes⟩, matched, trivial⟩
  rw [Forest.ofTokens_eq_ok_iff]
  exact ⟨assignable.matched_assignment behindEquals, Forest.tokens_spelledOut ..⟩

theorem ended_assignNext {operator : BinaryOp} {name : String}
    {reached other : Except Cause Value × Scope} (same : ended reached = ended other) :
    ended (asStatement (assignNext operator name reached)) =
      ended (asStatement (assignNext operator name other)) := by
  rcases reached with ⟨_ | value, scope⟩ <;> rcases other with ⟨_ | otherValue, otherScope⟩ <;>
    cases same <;> rfl

namespace Eval

variable {settings : Settings σ} {session : Session σ}

/-- A spelled-out assignment is read up to its brackets, and ends behind them. -/
theorem exists_statements_spelledOut {base : BinaryOp} (plain : base.isAssignment = false)
    {target equals symbol : Token} (assignable : Assignable session.scope .assign equals [target])
    (writes : symbol.binary? = some base) (opener closer : Token) (right : Forest)
    (room : session.groups.length < settings.nesting.levels) :
    ∃ inner outer group position, Awaits base [target.text] inner ∧
      Awaits .assign [target.text] outer ∧ group.bracket = .round ∧
      statements settings (.spelledOut target equals symbol opener closer right) session =
        (do
          let value ← contents settings (.parenthesis group) (.operand [] []) right closer
          collapse settings [inner, outer] (.value value group.location))
        { session with position, groups := group :: session.groups } := by
  rcases exists_read_assignment settings (List.cons_ne_nil target []) assignable .void with
    ⟨outer, position, outerAwaits, readsTarget⟩
  let before : Session σ := { session with position }
  have member : target ∈ [target] := List.mem_cons_self
  have visible : before.scope.has target.text = true := assignable.visible target member
  rcases exists_read_variable settings (assignable.identifiers target member) visible writes
    (.operand [outer] []) with ⟨variableLocation, location, behind, readsVariable⟩
  let inner : Pending :=
    { operator := base, operands := [.variable target.text variableLocation], location }
  have assigns : outer.operator.isAssignment = true := by rw [outerAwaits.operator]; rfl
  have pushes : pushOperator settings base location [outer] (.variable target.text
      variableLocation) = pure [inner, outer] :=
    (pushOperator_behind plain assigns location [] _).trans rfl
  let here := opener.location settings.fileName session.source
  let group : Group := { bracket := .round, location := here, depth := session.groups.length + 1 }
  refine ⟨inner, outer, group, behind + 1, ⟨rfl, .cons ⟨_, rfl⟩ .nil⟩, outerAwaits, rfl, ?_⟩
  have opens : openGroup settings .round here { session with position := behind + 1 } =
      .ok group { session with position := behind + 1, groups := group :: session.groups } :=
    openGroup_of_room room
  have located : (locate settings opener : Eval σ Location) { session with position := behind } =
      .ok here { session with position := behind } := rfl
  have readsBracket : read settings .statements (.nest .round opener right closer .nil)
      (.operand [inner, outer] []) { session with position := behind } =
        (do
          let value ← contents settings (.parenthesis group) (.operand [] []) right closer
          return Phase.operator [inner, outer] (.value value here))
        { session with position := behind + 1, groups := group :: session.groups } := by
    simp only [read_nest, beforeBracket, pure_bind, enclosed, afterBracket, wrap, read_nil,
      bind_pure]
    rw [bind_of_ok located, bind_of_ok (advance_eq_ok _), bind_of_ok opens]
  have readsRest : read settings .statements
      (.leaf target (.leaf symbol (.nest .round opener right closer .nil))) (.operand [outer] [])
        before = read settings .statements (.nest .round opener right closer .nil)
          (.operand [inner, outer] []) { session with position := behind } := by
    rw [readsVariable, pushes, pure_bind]
  rw [statements, Forest.spelledOut, bind_of_eq (readsTarget _)]
  refine (bind_of_eq (readsRest.trans readsBracket) _).trans ?_
  rw [bind_assoc]
  rfl

section Quiet

variable (quiet : settings.hooks = .none)

include quiet

/-- A variable and a value are combined by what the operator makes of the value it has now. -/
theorem ensures_reduce_with_value {operator : BinaryOp} (plain : operator.isAssignment = false)
    (undecided : ∀ value, decides operator value = false) {name : String} {pending : Pending}
    (awaits : Awaits operator [name] pending) (right : Value) (location : Location)
    (session : Session σ) :
    Ensures (reduce settings (pending.push (.value right location))) session
      (fun value after => after.scope = session.scope ∧
        (do operator.apply (← session.scope.read name) right) = .ok value)
      (fun failure stopped => stopped.scope = session.scope ∧
        (do operator.apply (← session.scope.read name) right) = .error failure.cause) := by
  rcases pending with ⟨applied, operands, place⟩
  rcases awaits with ⟨rfl, named⟩
  cases named with
  | cons isVariable others =>
      cases others
      rcases isVariable with ⟨variableLocation, rfl⟩
      simp only [reduce, Pending.push, List.cons_append, List.nil_append, plain,
        Bool.false_eq_true, if_false]
      apply (ensures_record quiet _ _ session).of_infallible.bind
      intro _ recorded alike
      simp only [combine, undecided, Bool.false_eq_true, if_false, resolve, pure_bind, bind_pure,
        ensures_locating, ensures_bind, ensures_get, alike.scope]
      cases reads : recorded.scope.read name with
      | error cause => exact ⟨rfl, rfl⟩
      | ok current =>
          rw [ensures_ofExcept_ok]
          cases applies : applied.apply current right with
          | error cause => exact ⟨rfl, applies⟩
          | ok value => exact ⟨rfl, applies⟩

/-- The two operators of a spelled-out assignment do what the compound one does. -/
theorem shown_collapse_spelledOut {compound base : BinaryOp}
    (compoundBase : compound.compoundBase? = some base) {name : String} {inner outer : Pending}
    (innerAwaits : Awaits base [name] inner) (outerAwaits : Awaits .assign [name] outer)
    (right : Value) (location : Location) (session : Session σ) :
    shown (collapse settings [inner, outer] (.value right location) session) =
      asStatement (assignNext compound name (.ok right, session.scope)) := by
  rcases BinaryOp.plain_of_compoundBase? compoundBase with ⟨plain, undecided⟩
  have reduces :=
    ensures_reduce_with_value quiet plain undecided innerAwaits right location session
  have stored : session.scope.stored compound name right =
      (do base.apply (← session.scope.read name) right) >>=
        session.scope.stored .assign name := by
    rw [Scope.stored_compound compoundBase, bind_assoc]
  have parts : collapse settings [inner, outer] (.value right location) = (do
      let value ← reduce settings (inner.push (.value right location))
      reduce settings (outer.push (.value value inner.location))) := by
    rw [collapse]
    simp only [collapse_single]
  rw [parts]
  cases ran : reduce settings (inner.push (.value right location)) session with
  | error failure stopped =>
      rcases reduces.of_error ran with ⟨sameScope, computed⟩
      rw [computed] at stored
      rw [bind_of_error ran, assignNext_of_error stored, shown, sameScope]
      rfl
  | ok value after =>
      rcases reduces.of_ok ran with ⟨sameScope, computed⟩
      rw [computed] at stored
      have resolves : shown (resolve (.value value inner.location) after) =
          (.ok value, session.scope) := by
        rw [← sameScope]
        rfl
      rw [bind_of_ok ran, shown_reduce_assignment quiet rfl (List.cons_ne_nil name []) outerAwaits,
        resolves, List.foldr_cons, List.foldr_nil]
      have sameStored : session.scope.stored compound name right =
        session.scope.stored .assign name value := stored
      simp only [assignNext, sameStored]

/-- A spelled-out assignment ends as the compound one does with what is on its right. -/
theorem ended_spelledOut {compound base : BinaryOp}
    (compoundBase : compound.compoundBase? = some base) {target equals symbol : Token}
    (assignable : Assignable session.scope .assign equals [target])
    (writes : symbol.binary? = some base) (opener : Token) {closer : Token}
    (closes : closer.closes? = some .round) {right : Forest}
    (shallow : session.groups.length + right.depth < settings.nesting.levels)
    {evaluated : Except Cause Value × Scope}
    (inRound : ∀ group : Group, group.bracket = .round → ended (shown ((do
      finish settings (some closer)
        (← read settings (.parenthesis group) right (.operand [] []))) session)) =
          ended evaluated) :
    ended (shown (statements settings (.spelledOut target equals symbol opener closer right)
        session)) =
      ended (asStatement (assignNext compound target.text evaluated)) := by
  have plain := (BinaryOp.plain_of_compoundBase? compoundBase).1
  have room : session.groups.length < settings.nesting.levels := by omega
  rcases exists_statements_spelledOut plain assignable writes opener closer right room with
    ⟨inner, outer, group, position, innerAwaits, outerAwaits, round, runs⟩
  let inBrackets : Eval σ Value := do
    finish settings (some closer) (← read settings (.parenthesis group) right (.operand [] []))
  have parts : contents settings (.parenthesis group) (.operand [] []) right closer = (do
      let value ← inBrackets
      closeGroup (some closer)
      return value) := by
    simp only [contents, inBrackets, bind_assoc]
  let here := (Bracket.round, group.location)
  have fits : session.openers.length + right.depth < settings.nesting.levels := by
    rwa [Session.openers, List.length_map]
  have same : SameElsewhere (session.openers, here :: session.openers)
      (session.openers, here :: session.openers) inBrackets inBrackets :=
    (sameElsewhere_read quiet (by omega) (by rw [List.length_cons]; omega) (.parenthesis group)
      (.operand [] [])).bind
      fun phase => .of_carries ((Coupling.primitive_elsewhere quiet).finish (some closer)
        phase.fits_true)
  have runsBoth := same session { session with position, groups := group :: session.groups }
    ⟨rfl, rfl, by simp [Session.openers, here, round]⟩
  have evaluates : ended (shown (inBrackets session)) = ended evaluated := inRound group round
  rw [runs, parts, ← ended_assignNext evaluates]
  cases ran : inBrackets session with
  | error failure stopped =>
      rcases runsBoth.of_error ran with ⟨stoppedThere, ranThere, sameScope⟩
      rw [bind_of_error (bind_of_error ranThere), shown, shown, sameScope]
      rfl
  | ok value finished =>
      rcases runsBoth.of_ok ran with ⟨finishedThere, ranThere, places⟩
      have opened : finishedThere.openers = here :: session.openers :=
        congrArg Prod.snd places.opened
      rcases List.map_eq_cons_iff.mp opened with ⟨top, enclosing, groups, isHere, _⟩
      have isRound : top.bracket = .round := congrArg Prod.fst isHere
      have closed : (do closeGroup closer; return value : Eval σ Value) finishedThere =
          .ok value { finishedThere with
            groups := enclosing, position := finishedThere.position + 1 } := by
        rw [bind_of_ok (closeGroup_of_open groups (closes.trans (congrArg some isRound.symm)))]
        rfl
      rw [bind_of_ok ((bind_of_ok ranThere).trans closed),
        shown_collapse_spelledOut quiet compoundBase innerAwaits outerAwaits, shown, ← places.scope]

end Quiet

end Eval

namespace Session

/-- Evaluations that end in the same way succeed both or neither. -/
theorem agree_of_ended {result other : Except Failure Value × Session σ}
    (same : ended (shown result) = ended (shown other)) :
    (result.1.isOk = true ↔ other.1.isOk = true) ∧ result.2.scope = other.2.scope ∧
      ∀ value, result.1 = .ok value → other.1 = .ok value := by
  have scopes : result.2.scope = other.2.scope := congrArg Prod.snd same
  have values := congrArg Prod.fst same
  rcases result with ⟨_ | value, session⟩ <;> rcases other with ⟨_ | otherValue, otherSession⟩ <;>
    cases values
  · exact ⟨Iff.rfl, scopes, fun _ impossible => nomatch impossible⟩
  · exact ⟨Iff.rfl, scopes, fun _ => id⟩

/-- An evaluation that shows what an assignment shows has no value of its own. -/
theorem eq_void_of_shown {result : Except Failure Value × Session σ}
    {reached : Except Cause Value × Scope} (same : shown result = asStatement reached)
    {value : Value} (succeeded : result.1 = .ok value) : value = .void := by
  rcases result with ⟨_ | _, session⟩ <;> cases succeeded
  rcases reached with ⟨_ | last, scope⟩ <;> cases same
  rfl

/--
With no hooks, a compound assignment is the plain assignment that spells it out: one succeeds if and
only if the other one does, neither has a value of its own, and both leave the same bindings,
whether they succeed or not. The brackets of the right-hand side have to leave one level of nesting.
-/
theorem parse_compound_assignment {settings : Settings σ} (quiet : settings.hooks = .none)
    (session : Session σ) {compound base : BinaryOp}
    (compoundBase : compound.compoundBase? = some base)
    {target symbol equals baseSymbol opener closer : Token}
    (identifier : target.isIdentifier = true) (visible : session.scope.has target.text = true)
    (writes : symbol.binary? = some compound) (assigns : equals.binary? = some .assign)
    (applies : baseSymbol.binary? = some base) (opens : opener.opens? = some .round)
    (closes : closer.closes? = some .round) {right : List Token} {forest : Forest}
    (rightMatches : Forest.ofTokens right = .ok forest) (rightHand : forest.IsRightHand)
    (shallow : nestingDepth right < settings.nesting.levels) {short long : List Token}
    (alikeShort : (target :: symbol :: right).Forall₂ Token.Alike short)
    (alikeLong : (spelledOutTokens target equals baseSymbol opener closer right).Forall₂
      Token.Alike long) (shortSource longSource : Source) :
    let shortened := (session.holding short shortSource).parse settings ""
    let spelledOut := (session.holding long longSource).parse settings ""
    (shortened.1.isOk = true ↔ spelledOut.1.isOk = true) ∧
      shortened.2.scope = spelledOut.2.scope ∧
      (shortened.1.isOk = true → shortened.1 = .ok .void ∧ spelledOut.1 = .ok .void) := by
  intro shortened spelledOut
  rcases Forest.ofTokens_eq_ok_iff.mp rightMatches with ⟨matched, rfl⟩
  let start := session.prepare
  have sameScope : start.scope = session.scope := rfl
  have assignable : Assignable start.scope compound symbol [target] :=
    ⟨writes, BinaryOp.isAssignment_of_compoundBase? compoundBase,
      List.forall_mem_singleton.mpr identifier, List.forall_mem_singleton.mpr visible⟩
  have plainly : Assignable start.scope .assign equals [target] :=
    ⟨assigns, rfl, assignable.identifiers, assignable.visible⟩
  have longMatches := plainly.ofTokens_spelledOut applies opens closes matched
  rcases Eval.exists_shown_assignment quiet rightHand start with ⟨evaluated, evaluates, inRound⟩
  have shortShown : shown shortened = asStatement (assignNext compound target.text evaluated) :=
    (shown_parse_alike quiet session (assignable.ofTokens_assignment matched) alikeShort
      shortSource sameScope rfl).trans
        (evaluates compound symbol [target] (List.cons_ne_nil target []) assignable)
  have room : start.groups.length + forest.depth < settings.nesting.levels := by
    rw [matched.nestingDepth_eq] at shallow
    exact (Nat.zero_add forest.depth).trans_lt shallow
  have longEnded : ended (shown spelledOut) =
      ended (asStatement (assignNext compound target.text evaluated)) := by
    rw [shown_parse_alike quiet session longMatches alikeLong longSource sameScope rfl]
    exact Eval.ended_spelledOut quiet compoundBase plainly applies opener closes room
      fun group round => inRound group round closer
  have sameEnd : ended (shown shortened) = ended (shown spelledOut) := by
    rw [shortShown, longEnded]
  rcases agree_of_ended sameEnd with ⟨succeeds, sameScopes, sameValues⟩
  refine ⟨succeeds, sameScopes, fun succeeded => ?_⟩
  cases ran : shortened.1 with
  | error failure =>
      rw [ran] at succeeded
      cases succeeded
  | ok value =>
      cases eq_void_of_shown shortShown ran
      exact ⟨rfl, sameValues .void ran⟩

theorem parse_compound_assignment_with_block :
    let settings : Settings Unit := {}
    let x : Token := { kind := .word, text := "x", start := {} }
    let times : Token := { kind := .punctuation, text := "*", start := {} }
    let timesEquals : Token := { kind := .punctuation, text := "*=", start := {} }
    let equals : Token := { kind := .punctuation, text := "=", start := {} }
    let opener : Token := { kind := .punctuation, text := "(", start := {} }
    let closer : Token := { kind := .punctuation, text := ")", start := {} }
    let block : List Token :=
      [{ kind := .punctuation, text := "\x7b", start := {} },
        { kind := .word, text := "x", start := {} },
        { kind := .punctuation, text := "=", start := {} },
        { kind := .word, text := "5", start := {} },
        { kind := .punctuation, text := ";", start := {} },
        { kind := .word, text := "3", start := {} },
        { kind := .punctuation, text := "\x7d", start := {} }]
    let scope (number : Int) : Scope := { top := .ofList [("x", .integer number)] }
    let session : Session Unit := { fresh () with scope := scope 2 }
    let shortened := (session.holding (x :: timesEquals :: block) .empty).parse settings ""
    let spelledOut := (session.holding
      (spelledOutTokens x equals times opener closer block) .empty).parse settings ""
    shortened.1 = .ok .void ∧ spelledOut.1 = .ok .void ∧ shortened.2.scope = scope 15 ∧
      spelledOut.2.scope = scope 15 := by
  intro settings x times timesEquals equals opener closer block scope session shortened spelledOut
  have quiet : settings.hooks = .none := rfl
  have same := Token.forall₂_alike_refl
  have shallow : nestingDepth block < settings.nesting.levels := by
    subst settings block
    decide
  have identifier : x.isIdentifier = true := by
    subst x
    rfl
  have visible : session.scope.has x.text = true := rfl
  have succeeded : shortened.1.isOk = true := by
    subst shortened session scope settings x timesEquals block
    decide +kernel
  have assigned : shortened.2.scope = scope 15 := by
    subst shortened session scope settings x timesEquals block
    decide +kernel
  have multiplies : timesEquals.binary? = some .mulAssign := rfl
  have assigns : equals.binary? = some .assign := rfl
  have applies : times.binary? = some .mul := rfl
  have opens : opener.opens? = some .round := rfl
  have closes : closer.closes? = some .round := rfl
  obtain ⟨forest, found, rightHand⟩ : ∃ forest, Forest.ofTokens block = .ok forest ∧
      forest.IsRightHand := ⟨_, rfl, trivial⟩
  -- From here on only what is known of the tokens counts, not what they are.
  clear_value x timesEquals equals times opener closer block
  have outcome := parse_compound_assignment quiet session
    (rfl : BinaryOp.mulAssign.compoundBase? = some .mul) identifier visible multiplies assigns
    applies opens closes found rightHand shallow (same _) (same _) .empty .empty
  rcases outcome.2.2 succeeded with ⟨shortVoid, longVoid⟩
  exact ⟨shortVoid, longVoid, assigned, outcome.2.1.symm.trans assigned⟩

end Session

end BlockCalc
