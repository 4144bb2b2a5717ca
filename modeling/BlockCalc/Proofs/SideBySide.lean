import BlockCalc.Proofs.AlikeDeeds
import BlockCalc.Proofs.Quiet
import BlockCalc.Proofs.Reading

/-!
# Evaluations side by side

Where tokens stand shows in locations and in the log, but it decides nothing: alike programs,
started with the same bindings and as many open brackets, end in the same way, and record the same
steps. Neither does the name of the file nor whether the log keeps the bindings. `Eval.Matches`
compares two actions from all such sessions, and its rules take both actions apart in step. What is
done on a token is done alike at the other place, so that only deeds are compared there.
-/

namespace BlockCalc

variable {σ τ α β γ δ : Type}

@[simp]
theorem Failure.cause_locate (failure : Failure) (location : Location) :
    (failure.locate location).cause = failure.cause :=
  rfl

/-- The sessions have the same bindings, the same open brackets, and related logs. -/
structure Session.Beside (logs : StepLog → StepLog → Prop) (left : Session σ) (right : Session τ) :
    Prop where
  scope : left.scope = right.scope
  brackets : left.brackets = right.brackets
  log : logs left.log right.log

/--
The settings differ in nothing that decides how an evaluation ends, and logs in which the same step
is recorded stay related.
-/
structure Settings.Peers (settings : Settings σ) (peer : Settings τ)
    (logs : StepLog → StepLog → Prop) : Prop where
  quiet : settings.hooks = .none
  peerQuiet : peer.hooks = .none
  sameNesting : peer.nesting = settings.nesting
  push : ∀ {left right step} {entry otherEntry : Entry}, logs left right →
    entry.Tells left step → otherEntry.Tells right step →
      logs (left.push entry) (right.push otherEntry)

theorem Settings.Peers.refl {settings : Settings σ} (quiet : settings.hooks = .none) :
    settings.Peers settings fun _ _ => True where
  quiet := quiet
  peerQuiet := quiet
  sameNesting := rfl
  push _ _ _ := trivial

namespace Eval

variable {logs : StepLog → StepLog → Prop}

/--
From sessions beside each other, both actions give results that are `related`, or both fail for the
same cause; they leave sessions beside each other.
-/
def Matches (logs : StepLog → StepLog → Prop) (related : α → β → Prop) (left : Eval σ α)
    (right : Eval τ β) : Prop :=
  ∀ (first : Session σ) (second : Session τ), first.Beside logs second →
    Ensures left first
      (fun result after => Ensures right second
        (fun other afterOther => related result other ∧ after.Beside logs afterOther)
        (fun _ _ => False))
      (fun failure after => Ensures right second
        (fun _ _ => False)
        (fun other afterOther => failure.cause = other.cause ∧ after.Beside logs afterOther))

namespace Matches

variable {related : α → β → Prop} {left : Eval σ α} {right : Eval τ β}

theorem pure {result : α} {other : β} (holds : related result other) :
    Matches logs related (Pure.pure result : Eval σ α) (Pure.pure other : Eval τ β) := by
  intro first second alike
  exact ⟨holds, alike⟩

theorem fail (cause : Cause) (location other : Option Location) :
    Matches logs related (Eval.fail cause location : Eval σ α)
      (Eval.fail cause other : Eval τ β) := by
  intro first second alike
  exact ⟨rfl, alike⟩

theorem bind {next : α → Eval σ γ} {otherNext : β → Eval τ δ} {finally_ : γ → δ → Prop}
    (start : Matches logs related left right)
    (continues : ∀ result other, related result other →
      Matches logs finally_ (next result) (otherNext other)) :
    Matches logs finally_ (left >>= next) (right >>= otherNext) := by
  intro first second alike
  have started := start first second alike
  simp only [Ensures] at started
  cases leftRan : left first with
  | ok result after =>
      cases rightRan : right second with
      | ok other afterOther =>
          simp only [leftRan, rightRan] at started
          have continued := continues result other started.1 after afterOther started.2
          simpa only [Ensures, bind_of_ok leftRan, bind_of_ok rightRan] using continued
      | error failure afterOther => simp [leftRan, rightRan] at started
  | error failure after =>
      cases rightRan : right second with
      | ok other afterOther => simp [leftRan, rightRan] at started
      | error other afterOther =>
          simp only [leftRan, rightRan] at started
          simpa only [Ensures, bind_of_error leftRan, bind_of_error rightRan] using started

theorem get_bind {next : Session σ → Eval σ α} {otherNext : Session τ → Eval τ β}
    (continues : ∀ first second, first.Beside logs second →
      Matches logs related (next first) (otherNext second)) :
    Matches logs related (get >>= next) (get >>= otherNext) := by
  intro first second alike
  exact continues first second alike first second alike

theorem locating (location other : Location) (holds : Matches logs related left right) :
    Matches logs related (Eval.locating location left) (Eval.locating other right) := by
  intro first second alike
  simpa only [ensures_locating, Failure.cause_locate] using holds first second alike

theorem ofExcept (outcome : Except Cause α) :
    Matches logs Eq (Eval.ofExcept outcome : Eval σ α) (Eval.ofExcept outcome : Eval τ α) := by
  cases outcome with
  | ok result => exact .pure rfl
  | error cause => exact .fail cause none none

theorem setScope (scope : Scope) :
    Matches logs Eq (Eval.setScope scope : Eval σ Unit) (Eval.setScope scope : Eval τ Unit) := by
  intro first second alike
  exact ⟨rfl, rfl, alike.brackets, alike.log⟩

theorem advance : Matches logs Eq (Eval.advance : Eval σ Unit) (Eval.advance : Eval τ Unit) := by
  intro first second alike
  exact ⟨rfl, alike.scope, alike.brackets, alike.log⟩

theorem locate (settings : Settings σ) (peer : Settings τ) (token other : Token) :
    Matches logs (fun _ _ => True) (Eval.locate settings token) (Eval.locate peer other) := by
  intro first second alike
  exact ⟨trivial, alike⟩

theorem fail_at (settings : Settings σ) (peer : Settings τ) (token other : Token) (cause : Cause) :
    Matches logs related (do Eval.fail cause (some (← Eval.locate settings token)))
      (do Eval.fail cause (some (← Eval.locate peer other))) :=
  (Matches.locate settings peer token other).bind fun _ _ _ => .fail cause _ _

end Matches

variable {settings : Settings σ} {peer : Settings τ}

theorem matches_record (peers : settings.Peers peer logs) (step : Step)
    (location otherLocation : Option Location) :
    Matches logs Eq (record settings step location) (record peer step otherLocation) := by
  intro first second alike
  simp only [Ensures, record_logged peers.quiet, record_logged peers.peerQuiet]
  refine ⟨trivial, alike.scope, alike.brackets, ?_⟩
  exact peers.push alike.log (first.tells_entry settings step location)
    (second.tells_entry peer step otherLocation)

theorem matches_resolve {term other : Term} (alike : term.Alike other) :
    Matches logs Eq (resolve term : Eval σ Value) (resolve other : Eval τ Value) := by
  induction alike with
  | «variable» name location other =>
      apply Matches.get_bind
      intro first second sessions
      rw [sessions.scope]
      exact .locating location other (.ofExcept _)
  | value value location other => exact .pure rfl
  | unary operator location other _ ih =>
      apply ih.bind
      rintro value _ rfl
      exact .locating location other (.ofExcept _)

theorem matches_combine (operator : BinaryOp) (value : Value) {terms others : List Term}
    (alike : terms.Forall₂ Term.Alike others) :
    Matches logs Eq (combine operator value terms : Eval σ Value)
      (combine operator value others : Eval τ Value) := by
  induction alike generalizing value with
  | nil => exact .pure rfl
  | cons alikeTerms _ ih =>
      simp only [combine]
      split
      · exact .pure rfl
      · apply (matches_resolve alikeTerms).bind
        rintro right _ rfl
        apply (Matches.ofExcept (operator.apply value right)).bind
        rintro combined _ rfl
        exact ih combined

theorem matches_store (operator : BinaryOp) (name : String) (right : Value) :
    Matches logs Eq (store operator name right : Eval σ Value)
      (store operator name right : Eval τ Value) := by
  simp only [store]
  split
  · apply (Matches.ofExcept right.store).bind
    rintro value _ rfl
    apply Matches.get_bind
    intro first second alike
    rw [alike.scope]
    apply (Matches.ofExcept (second.scope.assign name value)).bind
    rintro scope _ rfl
    exact (Matches.setScope scope).bind fun _ _ _ => .pure rfl
  · apply Matches.get_bind
    intro first second alike
    rw [alike.scope]
    apply (Matches.ofExcept (second.scope.update name (operator.assigned · right))).bind
    rintro ⟨value, scope⟩ _ rfl
    exact (Matches.setScope scope).bind fun _ _ _ => .pure rfl

theorem matches_assignAll (peers : settings.Peers peer logs) (operator : BinaryOp) (right : Value)
    {targets others : List Term} (alike : targets.Forall₂ Term.Alike others) :
    Matches logs Eq (assignAll settings operator right targets)
      (assignAll peer operator right others) := by
  induction alike generalizing right with
  | nil => exact .pure rfl
  | cons alikeTargets _ ih =>
      cases alikeTargets with
      | «variable» name location other =>
          apply (matches_store operator name right).bind
          rintro value _ rfl
          apply (matches_record peers _ _ _).bind
          rintro _ _ _
          exact ih value
      | value value location other => exact .fail _ _ _
      | unary unary location other _ => exact .fail _ _ _

theorem matches_reduce (peers : settings.Peers peer logs) {pending other : Pending}
    (alike : pending.Alike other) :
    Matches logs Eq (reduce settings pending) (reduce peer other) := by
  rcases pending with ⟨operator, operands, location⟩
  rcases other with ⟨_, otherOperands, otherLocation⟩
  rcases alike with ⟨sameOperator, alikeOperands⟩
  cases sameOperator
  cases alikeOperands with
  | nil => exact .fail _ _ _
  | cons alikeFirst alikeRest =>
      cases alikeRest with
      | nil => exact .fail _ _ _
      | cons alikeSecond alikeThird =>
          have alikeReversed := List.rel_reverse (.cons alikeFirst (.cons alikeSecond alikeThird))
          simp only [reduce, alikeThird.length_eq]
          apply (matches_record peers _ _ _).bind
          rintro _ _ _
          apply Matches.locating
          split
          · revert alikeReversed
            generalize List.reverse _ = reversed
            generalize List.reverse _ = otherReversed
            intro alikeReversed
            cases alikeReversed with
            | nil => exact .pure rfl
            | cons alikeLast alikeTargets =>
                apply (matches_resolve alikeLast).bind
                rintro value _ rfl
                apply (matches_assignAll peers operator value alikeTargets).bind
                rintro _ _ _
                exact .pure rfl
          · apply (matches_resolve alikeFirst).bind
            rintro value _ rfl
            exact matches_combine operator value (.cons alikeSecond alikeThird)

theorem matches_collapse (peers : settings.Peers peer logs) {pending others : List Pending}
    (alikePending : pending.Forall₂ Pending.Alike others) {term other : Term}
    (alike : term.Alike other) :
    Matches logs Eq (collapse settings pending term) (collapse peer others other) := by
  induction alikePending generalizing term other with
  | nil => exact matches_resolve alike
  | cons alikeTop _ ih =>
      apply (matches_reduce peers (alikeTop.push alike)).bind
      rintro value _ rfl
      exact ih (.value value _ _)

theorem matches_pushOperator (peers : settings.Peers peer logs) (operator : BinaryOp)
    (location otherLocation : Location) {pending others : List Pending}
    (alikePending : pending.Forall₂ Pending.Alike others) {term other : Term}
    (alike : term.Alike other) :
    Matches logs (List.Forall₂ Pending.Alike) (pushOperator settings operator location pending term)
      (pushOperator peer operator otherLocation others other) := by
  induction alikePending generalizing term other with
  | nil => exact .pure (.cons ⟨rfl, .cons alike .nil⟩ .nil)
  | cons alikeTop alikeOuter ih =>
      simp only [pushOperator]
      rw [alikeTop.operator]
      split
      · exact .pure (.cons (alikeTop.push alike) alikeOuter)
      · split
        · apply (matches_reduce peers (alikeTop.push alike)).bind
          rintro value _ rfl
          exact ih (.value value _ _)
        · exact .pure (.cons ⟨rfl, .cons alike .nil⟩ (.cons alikeTop alikeOuter))

theorem matches_declare (peers : settings.Peers peer logs) (name : String)
    (location other : Location) :
    Matches logs Eq (declare settings name location) (declare peer name other) := by
  apply Matches.get_bind
  intro first second sessions
  rw [sessions.scope]
  apply (Matches.setScope _).bind
  rintro _ _ _
  exact matches_record peers _ _ _

theorem matches_endExpression {enclosure other : Enclosure} (alike : enclosure.Alike other) :
    Matches logs Eq (endExpression enclosure : Eval σ Unit)
      (endExpression other : Eval τ Unit) := by
  cases alike with
  | statements => exact .pure rfl
  | parenthesis same =>
      simp only [endExpression, same]
      exact .fail _ _ _

/-- Alike deeds match. -/
theorem matches_run (peers : settings.Peers peer logs) {deed other : Deed}
    (alike : deed.Alike other) :
    Matches logs Phase.Alike (deed.run settings) (other.run peer) := by
  cases alike with
  | turn alike => exact .pure alike
  | refuse same => exact fun first second sessions => ⟨same, sessions⟩
  | push operator location otherLocation alikePending alike =>
      apply (matches_pushOperator peers operator location otherLocation alikePending alike).bind
      intro pushed otherPushed alikePushed
      exact .pure (.operand alikePushed .nil)
  | declare alike location otherLocation =>
      rcases id alike with ⟨start, rfl⟩
      apply (matches_declare peers _ location otherLocation).bind
      rintro _ _ _
      exact .pure (.named alike)
  | conclude alikeEnclosures alikePending alike =>
      apply (matches_collapse peers alikePending alike).bind
      rintro value _ _
      apply (matches_endExpression alikeEnclosures).bind
      rintro _ _ _
      exact .pure (.statement _)

theorem matches_finish (peers : settings.Peers peer logs) (next otherNext : Option Token)
    {phase other : Phase} (alike : phase.Alike other) :
    Matches logs Eq (finish settings next phase) (finish peer otherNext other) := by
  intro first second sessions
  rcases exists_yields_or_operator_or_unfinished settings first next phase with
    ⟨value, yields⟩ | ⟨pending, term, rfl⟩ | ⟨failure, unfinished⟩
  · rw [finish_of_yields yields, finish_of_yields (yields_of_alike alike yields)]
    exact ⟨rfl, sessions⟩
  · cases alike with
    | operator alikePending alikeTerms =>
        exact matches_collapse peers alikePending alikeTerms first second sessions
  · rcases exists_alike_unfinished peer second alike otherNext unfinished with
      ⟨otherFailure, otherUnfinished, same⟩
    simp only [Ensures, finish_of_unfinished unfinished, finish_of_unfinished otherUnfinished]
    exact ⟨same, sessions⟩

theorem matches_readToken (peers : settings.Peers peer logs) {enclosure otherEnclosure : Enclosure}
    (alikeEnclosures : enclosure.Alike otherEnclosure) {token other : Token}
    (alike : token.Alike other) {phase otherPhase : Phase} (alikePhases : phase.Alike otherPhase) :
    Matches logs Phase.Alike (readToken settings enclosure token phase)
      (readToken peer otherEnclosure other otherPhase) := by
  intro first second sessions
  rcases exists_does settings first enclosure token phase with ⟨deed, does⟩
  rcases exists_alike_does peer alikePhases alikeEnclosures sessions.scope alike does with
    ⟨otherDeed, otherDoes, alikeDeeds⟩
  simp only [Ensures, does.run_eq, otherDoes.run_eq]
  exact matches_run peers alikeDeeds first second sessions

/-- What waits for a bracket are alike operators and alike unary operators. -/
theorem matches_beforeBracket {enclosure otherEnclosure : Enclosure}
    (alikeEnclosures : enclosure.Alike otherEnclosure) {opener other : Token}
    (alike : opener.Alike other) {phase otherPhase : Phase} (alikePhases : phase.Alike otherPhase) :
    Matches logs
      (fun before otherBefore => before.1.Forall₂ Pending.Alike otherBefore.1 ∧
        before.2.Forall₂ Token.Alike otherBefore.2)
      (beforeBracket settings enclosure opener phase)
      (beforeBracket peer otherEnclosure other otherPhase) := by
  intro first second sessions
  rcases exists_awaits_or_bars settings first enclosure opener phase with
    ⟨pending, unary, awaits⟩ | ⟨failure, bars⟩
  · rcases exists_alike_awaits alikePhases alikeEnclosures awaits with
      ⟨others, otherUnary, otherAwaits, alikePending, alikeUnary⟩
    rw [beforeBracket_of_awaits awaits, beforeBracket_of_awaits otherAwaits]
    exact ⟨⟨alikePending, alikeUnary⟩, sessions⟩
  · rcases exists_alike_bars peer alikePhases alikeEnclosures sessions.scope alike bars with
      ⟨otherFailure, otherBars, same⟩
    simp only [Ensures, bars.run_eq, otherBars.run_eq]
    exact ⟨same, sessions⟩

theorem matches_afterBracket (bracket : Bracket) {pending others : List Pending}
    (alikePending : pending.Forall₂ Pending.Alike others) {unary otherUnary : List Token}
    (alikeUnary : unary.Forall₂ Token.Alike otherUnary) (value : Value)
    (location other : Location) :
    Matches logs Phase.Alike (afterBracket settings bracket pending unary value location)
      (afterBracket peer bracket others otherUnary value other) := by
  intro first second sessions
  simp only [ensures_afterBracket]
  exact ⟨.closing alikePending alikeUnary _ _ bracket value location other, sessions⟩

theorem matches_openGroup (peers : settings.Peers peer logs) (bracket : Bracket)
    (location other : Location) :
    Matches logs (fun group otherGroup => group.bracket = bracket ∧ otherGroup.bracket = bracket)
      (openGroup settings bracket location) (openGroup peer bracket other) := by
  intro first second alike
  have sameLength : first.groups.length = second.groups.length := by
    rw [← first.length_brackets, alike.brackets, second.length_brackets]
  simp only [openGroup, ensures_bind, ensures_get, sameLength, peers.sameNesting]
  by_cases tooDeep : settings.nesting.levels ≤ second.groups.length
  · rw [if_pos tooDeep, if_pos tooDeep]
    exact ⟨rfl, alike⟩
  · rw [if_neg tooDeep, if_neg tooDeep]
    exact ⟨⟨rfl, rfl⟩, alike.scope, congrArg (bracket :: ·) alike.brackets, alike.log⟩

theorem matches_closeGroup {closer otherCloser : Option Token}
    (alikeClosers : Option.Rel Token.Alike closer otherCloser) :
    Matches logs Eq (closeGroup closer : Eval σ Unit) (closeGroup otherCloser : Eval τ Unit) := by
  intro first second alike
  have sameBrackets : first.groups.map (·.bracket) = second.groups.map (·.bracket) := alike.brackets
  simp only [closeGroup, ensures_bind, ensures_get, Token.bind_closes?_of_alike alikeClosers]
  rcases firstGroups : first.groups with _ | ⟨group, outer⟩ <;>
    rcases secondGroups : second.groups with _ | ⟨otherGroup, otherOuter⟩ <;>
    simp only [firstGroups, secondGroups, List.map_nil, List.map_cons, List.cons.injEq,
      reduceCtorEq] at sameBrackets
  · exact ⟨rfl, alike⟩
  · rcases sameBrackets with ⟨sameBracket, sameOuter⟩
    simp only [sameBracket]
    split
    · exact ⟨trivial, alike.scope, sameOuter, alike.log⟩
    · exact ⟨rfl, alike⟩

theorem matches_emit (peers : settings.Peers peer logs) (notice other : Notice) :
    Matches logs Eq (emit settings notice) (emit peer other) := by
  rw [emit_of_quiet peers.quiet, emit_of_quiet peers.peerQuiet]
  exact .pure rfl

theorem matches_enterBlock (peers : settings.Peers peer logs) (location other : Location) :
    Matches logs Eq (enterBlock settings location) (enterBlock peer other) := by
  have entered : Matches logs Eq
      (modify fun session => { session with scope := session.scope.enter } : Eval σ PUnit)
      (modify fun session => { session with scope := session.scope.enter } : Eval τ PUnit) := by
    intro first second alike
    exact ⟨rfl, congrArg Scope.enter alike.scope, alike.brackets, alike.log⟩
  apply entered.bind
  rintro _ _ _
  apply Matches.get_bind
  intro first second alike
  rw [alike.scope]
  apply (matches_record peers _ _ _).bind
  rintro _ _ _
  apply Matches.get_bind
  intro _ _ _
  exact matches_emit peers _ _

theorem matches_exitBlock (peers : settings.Peers peer logs) (location other : Location) :
    Matches logs Eq (exitBlock settings location) (exitBlock peer other) := by
  rw [exitBlock_eq (observing_of_quiet peers.quiet),
    exitBlock_eq (observing_of_quiet peers.peerQuiet)]
  apply Matches.get_bind
  intro first second alike
  rw [alike.scope]
  apply (Matches.ofExcept second.scope.exit).bind
  rintro ⟨frame, outer⟩ _ rfl
  apply (Matches.setScope outer).bind
  rintro _ _ _
  apply (matches_record peers _ _ _).bind
  rintro _ _ _
  exact matches_emit peers _ _

theorem matches_contents (peers : settings.Peers peer logs) {enclosure otherEnclosure : Enclosure}
    {phase otherPhase : Phase} {inner otherInner : Forest} {closer otherCloser : Option Token}
    (alikeClosers : Option.Rel Token.Alike closer otherCloser)
    (reads : Matches logs Phase.Alike (read settings enclosure inner phase)
      (read peer otherEnclosure otherInner otherPhase)) :
    Matches logs Eq (contents settings enclosure phase inner closer)
      (contents peer otherEnclosure otherPhase otherInner otherCloser) := by
  apply reads.bind
  intro last otherLast alikeLast
  apply (matches_finish peers _ _ alikeLast).bind
  rintro value _ rfl
  exact (matches_closeGroup alikeClosers).bind fun _ _ _ => .pure rfl

theorem matches_enclosed (peers : settings.Peers peer logs) {bracket : Bracket}
    {location otherLocation : Location} {group otherGroup : Group}
    (same : group.bracket = otherGroup.bracket) {inner otherInner : Forest}
    {closer otherCloser : Option Token}
    (alikeClosers : Option.Rel Token.Alike closer otherCloser)
    (reads : ∀ {enclosure otherEnclosure : Enclosure}, enclosure.Alike otherEnclosure →
      ∀ {phase otherPhase : Phase}, phase.Alike otherPhase →
        Matches logs Phase.Alike (read settings enclosure inner phase)
          (read peer otherEnclosure otherInner otherPhase)) :
    Matches logs Eq (enclosed settings location group inner closer bracket)
      (enclosed peer otherLocation otherGroup otherInner otherCloser bracket) := by
  cases bracket with
  | round =>
      exact matches_contents peers alikeClosers (reads (.parenthesis same) (.operand .nil .nil))
  | curly =>
      apply (matches_enterBlock peers _ _).bind
      rintro _ _ _
      apply (matches_contents peers alikeClosers (reads .statements (.statement _))).bind
      rintro value _ rfl
      exact (matches_exitBlock peers _ _).bind fun _ _ _ => .pure rfl

/-- Alike parts of a program are read in the same way, whatever follows them. -/
theorem matches_read (peers : settings.Peers peer logs) {forest other : Forest}
    (alike : forest.Alike other) {enclosure otherEnclosure : Enclosure}
    (alikeEnclosures : enclosure.Alike otherEnclosure) {phase otherPhase : Phase}
    (alikePhases : phase.Alike otherPhase) :
    Matches logs Phase.Alike (read settings enclosure forest phase)
      (read peer otherEnclosure other otherPhase) := by
  induction alike generalizing enclosure otherEnclosure phase otherPhase with
  | nil => exact .pure alikePhases
  | leaf alikeTokens _ ih =>
      rw [read_leaf, read_leaf]
      apply Matches.advance.bind
      rintro _ _ _
      apply (matches_readToken peers alikeEnclosures alikeTokens alikePhases).bind
      intro next otherNext alikeNext
      exact ih alikeEnclosures alikeNext
  | @nest bracket opener otherOpener closer otherCloser inner otherInner rest otherRest
      alikeOpeners _ alikeClosers _ ihInner ihRest =>
      rw [read_nest, read_nest]
      apply (matches_beforeBracket alikeEnclosures alikeOpeners alikePhases).bind
      rintro ⟨pending, unary⟩ ⟨otherPending, otherUnary⟩ ⟨alikePending, alikeUnary⟩
      apply (Matches.locate settings peer opener otherOpener).bind
      intro location otherLocation _
      apply Matches.advance.bind
      rintro _ _ _
      apply (matches_openGroup peers bracket location otherLocation).bind
      rintro group otherGroup ⟨sameBracket, otherBracket⟩
      have sameGroup : group.bracket = otherGroup.bracket := sameBracket.trans otherBracket.symm
      apply (matches_enclosed peers sameGroup alikeClosers ihInner).bind
      rintro value _ rfl
      apply (matches_afterBracket bracket alikePending alikeUnary value _ _).bind
      intro next otherNext alikeNext
      exact ihRest alikeEnclosures alikeNext

theorem matches_statements_of_peers (peers : settings.Peers peer logs) {forest other : Forest}
    (alike : forest.Alike other) :
    Matches logs Eq (statements settings forest) (statements peer other) := by
  apply (matches_read peers alike .statements (.statement _)).bind
  intro phase otherPhase alikePhases
  exact matches_finish peers _ _ alikePhases

/-- Under the same settings, alike programs match whatever the logs are. -/
theorem matches_statements (quiet : settings.hooks = .none) {forest other : Forest}
    (alike : forest.Alike other) :
    Matches (fun _ _ => True) Eq (statements settings forest) (statements settings other) :=
  matches_statements_of_peers (.refl quiet) alike

end Eval

end BlockCalc
