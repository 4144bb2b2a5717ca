import BlockCalc.Proofs.Unmatched
import BlockCalc.Proofs.Watching
import BlockCalc.Traceback

/-!
# Brackets and blocks in step with the tokens

At every step of an evaluation without handlers, and wherever it fails, the groups that are open are
exactly the brackets that the tokens read so far have left open, and as many blocks are entered as
there are curly ones among them. The one exception is an opener that is nested too deep: it has been
read, but opens no group.

The proof follows the watched evaluation from one place to the next. Between two brackets nothing
moves but the position, so that each step there is logged in step if the place is. At a bracket the
groups, the blocks and the position change one after the other, but no step is logged before all of
them have.
-/

namespace BlockCalc

variable {σ : Type}

/-- The tokens that have been read. -/
def Place.consumed (place : Place) : List Token :=
  place.program.take place.position

theorem Place.Ahead.consumed_advance {place : Place} {tokens following : List Token}
    (ahead : place.Ahead (tokens ++ following)) :
    (place.advance tokens).consumed = place.consumed ++ tokens := by
  rcases ahead.of_append with ⟨rest, remaining⟩
  simp only [Place.consumed, Place.advance, List.take_add, ← remaining, List.take_left]

theorem Place.InStep.advance {settings : Settings σ} {source : Source} {place : Place}
    (inStep : place.InStep settings source place.consumed) {forest : Forest}
    (matched : forest.Matched) {following : List Token}
    (ahead : place.Ahead (forest.tokens ++ following)) :
    (place.advance forest.tokens).InStep settings source
      (place.advance forest.tokens).consumed := by
  rw [ahead.consumed_advance]
  have further := inStep.append_tokens matched
  exact ⟨further.groups, further.levels, further.depth⟩

/-- The place behind an opener whose group is open; its block is not entered yet. -/
def Place.opened (settings : Settings σ) (source : Source) (bracket : Bracket) (opener : Token)
    (place : Place) : Place :=
  { place.advance [opener] with
    groups :=
      { bracket, location := opener.location settings.fileName source,
        depth := place.groups.length + 1 } :: place.groups }

/-- The place where what stands in a bracket begins. -/
def Place.inside (settings : Settings σ) (source : Source) (bracket : Bracket) (opener : Token)
    (place : Place) : Place :=
  { place.opened settings source bracket opener with
    depth := place.depth + if bracket = .curly then 1 else 0 }

theorem Place.InStep.inside {settings : Settings σ} {source : Source} {place : Place}
    (inStep : place.InStep settings source place.consumed) {bracket : Bracket} {opener : Token}
    {following : List Token} (opens : opener.opens? = some bracket)
    (ahead : place.Ahead ([opener] ++ following))
    (fits : place.groups.length < settings.nesting.levels) :
    (place.inside settings source bracket opener).InStep settings source
      (place.inside settings source bracket opener).consumed := by
  have consumed : (place.inside settings source bracket opener).consumed =
      place.consumed ++ [opener] := by
    rw [← ahead.consumed_advance]
    rfl
  rw [consumed]
  exact inStep.append_opener opens fits rfl rfl

/-- The tokens that count at a failure: those that have been read, except an opener too deep. -/
def Cause.counted : Cause → List Token → List Token
  | .invalidExpression (.tooDeep _), consumed => consumed.dropLast
  | _, consumed => consumed

theorem Cause.counted_of_shallow {cause : Cause} (shallow : ¬cause.IsTooDeep)
    (consumed : List Token) : cause.counted consumed = consumed := by
  cases cause with
  | invalidExpression reason => cases reason <;> simp_all [counted, IsTooDeep]
  | _ => rfl

/-- The log has a last entry, and that has the last index. -/
def StepLog.Numbered (log : StepLog) : Prop :=
  ∃ last, log.entries.back? = some last ∧ last.index + 1 = log.entries.size

namespace Session

variable (settings : Settings σ) (source : Source) (place : Place)

/-- The session of a moment is in step with the tokens of a program that have been read. -/
def InStep (program : List Token) (moment : Session Unit) : Prop :=
  moment.place.InStep settings source (program.take moment.position)

/-- The watched evaluation is at a place, and all its steps have been logged in step. -/
structure At (session : Session (List (Session Unit))) : Prop where
  samePlace : session.place = place
  sameSource : session.source = source
  moments : ∀ moment ∈ session.observer, moment.InStep settings source place.program

/-- The session stands at a place, and its log is numbered without gaps. -/
structure Reached (session : Session (List (Session Unit))) : Prop
    extends session.At settings source place where
  numbered : session.log.Numbered

/-- The watched evaluation has stopped in step with the tokens that count. -/
structure Stopped (program : List Token) (failure : Failure)
    (session : Session (List (Session Unit))) : Prop where
  sameSource : session.source = source
  inStep : session.place.InStep settings source
    (failure.cause.counted (program.take session.position))
  opener : failure.cause.IsTooDeep →
    ∃ opener, (program.take session.position).getLast? = some opener ∧ opener.opens?.isSome
  moments : ∀ moment ∈ session.observer, moment.InStep settings source program
  numbered : session.log.Numbered

end Session

namespace Coupling

variable {settings : Settings σ} {source : Source} {place : Place}

/-- A watched evaluation that stays at a place. -/
def standing (settings : Settings σ) (source : Source) (place : Place) :
    Coupling (List (Session Unit)) (List (Session Unit)) where
  related first second := first = second ∧ first.Reached settings source place
  fails cause := ¬cause.IsTooDeep

end Coupling

namespace Eval

variable {settings : Settings σ} {source : Source} {place : Place}

theorem ensures_record_at {session : Session (List (Session Unit))}
    (at_ : session.At settings source place)
    (inStep : place.InStep settings source place.consumed) (step : Step)
    (location : Option Location) :
    Ensures (record settings.watching step location) session
      (fun _ after => after.Reached settings source place) (fun _ _ => False) := by
  simp only [Ensures, record_watched]
  refine ⟨⟨at_.samePlace, at_.sameSource, ?_⟩, ?_⟩
  · intro moment member
    rcases List.mem_append.mp member with member | member
    · exact at_.moments moment member
    · rw [List.mem_singleton.mp member]
      have sameHere := at_.samePlace
      subst sameHere
      exact inStep
  · refine ⟨session.entry settings.watching step location, ?_, ?_⟩
    · simp [Session.logged, StepLog.push]
    · simp [Session.logged, StepLog.push, Session.entry, StepLog.nextEntry]

theorem lawful_standing (inStep : place.InStep settings source place.consumed) :
    (Coupling.standing settings source place).Lawful settings.watching settings.watching where
  twin := by
    rintro session _ ⟨rfl, _⟩
    exact ⟨rfl, rfl, rfl, rfl⟩
  sameFile := rfl
  fails := id
  closed := Value.closed_true
  goodRead _ _ := trivial
  step := by
    rintro session _ step scope ⟨rfl, reached⟩ takes inner location
    apply EnsuresBoth.self_iff.mpr
    have samePlace : ({ session with scope } : Session _).place = place := by
      rw [← reached.samePlace]
      simp only [Session.place, takes.depth_of_inner inner]
    have at_ : ({ session with scope } : Session _).At settings source place :=
      ⟨samePlace, reached.sameSource, reached.moments⟩
    apply (ensures_record_at at_ inStep step location).mono
    · intro _ after stillReached
      exact ⟨trivial, rfl, stillReached⟩
    · intro _ _ impossible
      exact impossible.elim

/-- What keeps to a place stays or stops there in step. -/
theorem ensures_standing {α : Type} {action : Eval (List (Session Unit)) α} {results : α → Prop}
    (inStep : place.InStep settings source place.consumed)
    (carries : (Coupling.standing settings source place).Carries action action results)
    {session : Session (List (Session Unit))} (reached : session.Reached settings source place) :
    Ensures action session (fun _ after => after.Reached settings source place)
      (Session.Stopped settings source place.program) := by
  apply (EnsuresBoth.self_iff.mp (carries session session ⟨rfl, reached⟩)).mono
  · intro result after holds
    exact holds.2.2
  · rintro failure after ⟨shallow, _, stillReached⟩
    rcases stillReached with ⟨⟨rfl, sameSource, moments⟩, numbered⟩
    refine ⟨sameSource, ?_, fun tooDeep => absurd tooDeep shallow, moments, numbered⟩
    rw [Cause.counted_of_shallow shallow]
    exact inStep

theorem reached_advance {session : Session (List (Session Unit))}
    (reached : session.Reached settings source place) (token : Token) :
    ({ session with position := session.position + 1 } : Session _).Reached settings source
      (place.advance [token]) := by
  rcases reached with ⟨⟨rfl, sameSource, moments⟩, numbered⟩
  exact ⟨⟨rfl, sameSource, moments⟩, numbered⟩

theorem ensures_openGroup_reached {session : Session (List (Session Unit))} {opener : Token}
    {bracket : Bracket} {following : List Token} (opens : opener.opens? = some bracket)
    (ahead : place.Ahead (opener :: following))
    (inStep : place.InStep settings source place.consumed)
    (reached : session.Reached settings source (place.advance [opener])) :
    let location := opener.location settings.fileName source
    Ensures (openGroup settings.watching bracket location) session
      (fun _ after => place.groups.length < settings.nesting.levels ∧
        after.Reached settings source (place.opened settings source bracket opener))
      (Session.Stopped settings source place.program) := by
  rcases reached with ⟨⟨samePlace, sameSource, moments⟩, numbered⟩
  have groups : session.groups = place.groups := congrArg Place.groups samePlace
  have consumed : place.program.take session.position = place.consumed ++ [opener] := by
    have position : session.position = place.position + 1 := congrArg Place.position samePlace
    rw [position]
    have split : place.Ahead ([opener] ++ following) := ahead
    exact split.consumed_advance
  intro location
  simp only [openGroup, ensures_bind, ensures_get, groups]
  -- An opener that is too deep has been read, but without it the groups are in step.
  split
  · refine ⟨sameSource, ?_, ?_, moments, numbered⟩
    · simp only [Cause.counted, consumed, List.dropLast_concat, samePlace]
      exact ⟨inStep.groups, inStep.levels, inStep.depth⟩
    · intro _
      exact ⟨opener, by simp [consumed], by simp [opens]⟩
  · rename_i fits
    refine ⟨by simpa [Settings.watching] using fits, ⟨?_, sameSource, moments⟩, numbered⟩
    rw [Place.opened, ← samePlace]
    rfl

theorem ensures_closeGroup_reached {session : Session (List (Session Unit))} {group : Group}
    {outer : List Group} (opened : place.groups = group :: outer)
    (reached : session.Reached settings source place) {closer : Token}
    (closes : closer.closes? = some group.bracket) :
    Ensures (closeGroup closer) session
      (fun _ after => after.Reached settings source
        { place.advance [closer] with groups := outer })
      (Session.Stopped settings source place.program) := by
  rcases reached with ⟨⟨rfl, sameSource, moments⟩, numbered⟩
  rw [Ensures, closeGroup_of_open (opened : session.groups = group :: outer) closes]
  exact ⟨⟨rfl, sameSource, moments⟩, numbered⟩

theorem ensures_enterBlock_reached {session : Session (List (Session Unit))} {inner : Place}
    (entered : inner = { place with depth := place.depth + 1 })
    (inStep : inner.InStep settings source inner.consumed)
    (reached : session.Reached settings source place) (location : Location) :
    Ensures (enterBlock settings.watching location) session
      (fun _ after => after.Reached settings source inner)
      (Session.Stopped settings source place.program) := by
  rcases reached with ⟨⟨rfl, sameSource, moments⟩, numbered⟩
  subst entered
  rw [enterBlock_eq, ensures_bind, ensures_get, ensures_bind, ensures_setScope]
  have at_ : ({ session with scope := session.scope.enter } : Session _).At settings source
      { session.place with depth := session.place.depth + 1 } :=
    ⟨by simp [Session.place], sameSource, moments⟩
  apply (ensures_record_at at_ inStep _ _).of_infallible.bind
  intro _ recorded stillReached
  simp only [emit_watching, ensures_bind, ensures_get, ensures_pure]
  exact stillReached

theorem ensures_exitBlock_reached {session : Session (List (Session Unit))} {outer : Place}
    (left : place = { outer with depth := outer.depth + 1 })
    (inStep : outer.InStep settings source outer.consumed)
    (reached : session.Reached settings source place) (location : Location) :
    Ensures (exitBlock settings.watching location) session
      (fun _ after => after.Reached settings source outer)
      (Session.Stopped settings source place.program) := by
  rcases reached with ⟨⟨samePlace, sameSource, moments⟩, numbered⟩
  subst left
  have depth : session.scope.depth = outer.depth + 1 := congrArg Place.depth samePlace
  rcases Scope.exists_exit_of_depth_pos (by omega : 0 < session.scope.depth) with
    ⟨frame, scope, exits, scopeDepth⟩
  rw [exitBlock_eq harmless_watching.toObserving]
  simp only [ensures_bind, ensures_get, exits, ensures_ofExcept_ok, ensures_setScope]
  have at_ : ({ session with scope } : Session _).At settings source outer := by
    refine ⟨?_, sameSource, moments⟩
    rcases outer with ⟨program, position, groups, outerDepth⟩
    simp only [Session.place, Place.mk.injEq] at samePlace ⊢
    exact ⟨samePlace.1, samePlace.2.1, samePlace.2.2.1, by omega⟩
  rw [← ensures_bind]
  apply (ensures_record_at at_ inStep _ _).of_infallible.bind
  intro _ recorded stillReached
  simp only [emit_watching, ensures_pure]
  exact stillReached

theorem ensures_locate_reached {session : Session (List (Session Unit))}
    (reached : session.Reached settings source place) (token : Token) :
    Ensures (locate settings.watching token) session
      (fun location after => location = token.location settings.fileName source ∧ after = session)
      (Session.Stopped settings source place.program) := by
  rw [ensures_locate, reached.sameSource]
  exact ⟨rfl, rfl⟩

/-- Reading a part of the program goes past its tokens in step. -/
def ReadsInStep (settings : Settings σ) (source : Source) (forest : Forest) : Prop :=
  ∀ enclosure phase place session, place.Ahead forest.tokens →
    place.InStep settings source place.consumed → session.Reached settings source place →
      Ensures (read settings.watching enclosure forest phase) session
        (fun _ after => after.Reached settings source (place.advance forest.tokens))
        (Session.Stopped settings source place.program)

variable {session : Session (List (Session Unit))} {inner rest : Forest}

theorem ReadsInStep.contents (reads : ReadsInStep settings source inner)
    (matched : inner.Matched) (enclosure : Enclosure) (phase : Phase) {closer : Token}
    {group : Group} (closes : closer.closes? = some group.bracket) {outer : List Group}
    (opened : place.groups = group :: outer) (ahead : place.Ahead (inner.tokens ++ [closer]))
    (inStep : place.InStep settings source place.consumed)
    (reached : session.Reached settings source place) :
    Ensures (contents settings.watching enclosure phase inner closer) session
      (fun _ after => after.Reached settings source
        { place.advance (inner.tokens ++ [closer]) with groups := outer })
      (Session.Stopped settings source place.program) := by
  have endInStep := inStep.advance matched ahead
  have stillOpen : (place.advance inner.tokens).groups = group :: outer := opened
  apply (reads enclosure phase place session ahead.of_append inStep reached).bind
  intro last middle middleReached
  have finishes := (lawful_standing endInStep).primitive.finish (some closer) last.fits_true
  apply (ensures_standing endInStep finishes middleReached).bind
  intro value finished finishedReached
  apply (ensures_closeGroup_reached stillOpen finishedReached closes).bind
  intro _ after closed
  simpa [Place.advance, Nat.add_assoc] using closed

theorem ReadsInStep.enclosed (reads : ReadsInStep settings source inner) {bracket : Bracket}
    {opener closer : Token} {following : List Token}
    (matched : (Forest.nest bracket opener inner closer .nil).Matched)
    (ahead : place.Ahead ((opener :: (inner.tokens ++ [closer])) ++ following))
    (inStep : place.InStep settings source place.consumed)
    (fits : place.groups.length < settings.nesting.levels) (location : Location) (group : Group)
    (reached : session.Reached settings source (place.opened settings source bracket opener)) :
    Ensures (enclosed settings.watching location group inner closer bracket) session
      (fun _ after => after.Reached settings source
        (place.advance (opener :: (inner.tokens ++ [closer]))))
      (Session.Stopped settings source place.program) := by
  have outerInStep : (place.advance (opener :: (inner.tokens ++ [closer]))).InStep settings source
      (place.advance (opener :: (inner.tokens ++ [closer]))).consumed :=
    inStep.advance matched ahead
  rcases matched with ⟨opens, ⟨_, ⟨⟩, closes⟩, innerMatched, _⟩
  have split : place.Ahead ([opener] ++ ((inner.tokens ++ [closer]) ++ following)) := by
    simpa using ahead
  have innerInStep := inStep.inside opens split fits
  have innerAhead : (place.inside settings source bracket opener).Ahead
      (inner.tokens ++ [closer]) := split.advance.of_append
  cases bracket with
  | round =>
      have insideReached : session.Reached settings source
          (place.inside settings source .round opener) := reached
      apply (reads.contents innerMatched (.parenthesis group) (.operand [] []) closes rfl innerAhead
        innerInStep insideReached).imp
      intro value after closed
      simpa [Place.inside, Place.opened, Place.advance, Nat.add_assoc, Nat.add_comm] using closed
  | curly =>
      apply (ensures_enterBlock_reached rfl innerInStep reached location).bind
      intro _ entered enteredReached
      apply (reads.contents innerMatched .statements (.statement .void) closes rfl innerAhead
        innerInStep enteredReached).bind
      intro value closed closedReached
      -- The closer has taken the group, but the block is still entered: no step is logged here.
      have left : { (place.inside settings source .curly opener).advance (inner.tokens ++ [closer])
            with groups := place.groups } =
          { place.advance (opener :: (inner.tokens ++ [closer])) with
            depth := place.depth + 1 } := by
        simp [Place.inside, Place.opened, Place.advance, Nat.add_assoc, Nat.add_comm]
      apply (ensures_exitBlock_reached left outerInStep closedReached location).bind
      intro _ after afterReached
      exact afterReached

theorem readsInStep_leaf {token : Token} (reads : ReadsInStep settings source rest)
    (matched : (Forest.leaf token rest).Matched) :
    ReadsInStep settings source (.leaf token rest) := by
  intro enclosure phase place session ahead inStep reached
  have single : (Forest.leaf token .nil).Matched := ⟨matched.1, matched.2.1, trivial⟩
  have split : place.Ahead ((Forest.leaf token .nil).tokens ++ rest.tokens) := ahead
  have stillInStep : (place.advance [token]).InStep settings source
      (place.advance [token]).consumed := inStep.advance single split
  rw [read_leaf, ensures_bind, ensures_advance]
  have readsToken := (lawful_standing stillInStep).primitive.readToken enclosure
    token.mentions_true phase.fits_true
  apply (ensures_standing stillInStep readsToken (reached_advance reached token)).bind
  intro next middle middleReached
  apply (reads enclosure next (place.advance [token]) middle split.advance stillInStep
    middleReached).imp
  intro result after afterReached
  rw [Place.advance_advance] at afterReached
  exact afterReached

theorem readsInStep_nest {bracket : Bracket} {opener closer : Token}
    (readsInner : ReadsInStep settings source inner) (readsRest : ReadsInStep settings source rest)
    (matched : (Forest.nest bracket opener inner closer rest).Matched) :
    ReadsInStep settings source (.nest bracket opener inner closer rest) := by
  intro enclosure phase place session ahead inStep reached
  have single : (Forest.nest bracket opener inner closer .nil).Matched :=
    ⟨matched.1, matched.2.1, matched.2.2.1, trivial⟩
  have split : place.Ahead ((opener :: (inner.tokens ++ [closer])) ++ rest.tokens) := by
    simpa [Forest.tokens] using ahead
  have afterInStep : (place.advance (opener :: (inner.tokens ++ [closer]))).InStep settings source
      (place.advance (opener :: (inner.tokens ++ [closer]))).consumed :=
    inStep.advance single split
  rw [read_nest]
  have starts := (lawful_standing inStep).primitive.beforeBracket enclosure opener phase.fits_true
  apply (ensures_standing inStep starts reached).bind
  rintro ⟨pending, unary⟩ before beforeReached
  apply (ensures_locate_reached beforeReached opener).bind
  rintro _ _ ⟨rfl, rfl⟩
  rw [ensures_bind, ensures_advance]
  apply (ensures_openGroup_reached matched.1 ahead inStep
    (reached_advance beforeReached opener)).bind
  rintro group opened ⟨fits, openedReached⟩
  apply (readsInner.enclosed single split inStep fits _ group openedReached).bind
  intro value closed closedReached
  have ends := (lawful_standing afterInStep).primitive.afterBracket bracket
    (Pending.fits_true pending) unary value trivial (opener.location settings.fileName source)
  apply (ensures_standing afterInStep ends closedReached).bind
  intro next middle middleReached
  apply (readsRest enclosure next _ middle split.advance afterInStep middleReached).imp
  intro result after afterReached
  simpa [Place.advance_advance, Forest.tokens] using afterReached

theorem readsInStep {forest : Forest} (matched : forest.Matched) :
    ReadsInStep settings source forest := by
  induction forest with
  | nil =>
      intro enclosure phase place session _ _ reached
      exact reached
  | leaf token rest ih => exact readsInStep_leaf (ih matched.2.2) matched
  | nest bracket opener inner closer rest ihInner ihRest =>
      rcases matched.2.1 with ⟨closer, rfl, _⟩
      exact readsInStep_nest (ihInner matched.2.2.1) (ihRest matched.2.2.2) matched

theorem ensures_statements_inStep {forest : Forest} (matched : forest.Matched)
    (ahead : place.Ahead (forest.tokens ++ []))
    (inStep : place.InStep settings source place.consumed)
    (reached : session.Reached settings source place) :
    Ensures (statements settings.watching forest) session
      (fun _ after => after.Reached settings source (place.advance forest.tokens))
      (Session.Stopped settings source place.program) := by
  have endInStep := inStep.advance matched ahead
  apply (readsInStep matched .statements (.statement .void) place session ahead.of_append inStep
    reached).bind
  intro last middle middleReached
  have finishes := (lawful_standing endInStep).primitive.finish none last.fits_true
  exact ensures_standing endInStep finishes middleReached

theorem ensures_program_inStep {forest : Forest}
    (found : Forest.ofTokens place.program = .ok forest) (start : place.position = 0)
    (inStep : place.InStep settings source place.consumed)
    (at_ : session.At settings source place) :
    Ensures (program settings.watching) session
      (fun _ after => after.Reached settings source (place.advance place.program))
      (Session.Stopped settings source place.program) := by
  have sameProgram : session.program = place.program := congrArg Place.program at_.samePlace
  rcases Forest.ofTokens_eq_ok_iff.mp found with ⟨matched, written⟩
  have ahead : place.Ahead (forest.tokens ++ []) := by
    simp [Place.Ahead, start, written]
  simp only [program, emit_watching, pure_bind, ensures_bind, ensures_get]
  apply (ensures_record_at at_ inStep _ _).of_infallible.mono
  · intro _ recorded reached
    have stillProgram : recorded.program = place.program :=
      congrArg Place.program reached.samePlace
    have spec := ensures_statements_inStep matched ahead inStep reached
    rw [written] at spec
    rw [stillProgram, evaluate_eq, found]
    exact spec
  · intro failure after stopped
    exact stopped

end Eval

namespace Session

variable {settings : Settings σ} {session : Session σ} {text : String}

theorem inStep_start (topLevel : session.scope.blocks = []) (text : String) :
    let place := (session.feed text).prepare.place
    place.InStep settings (session.feed text).source place.consumed where
  groups := rfl
  levels := Nat.zero_le _
  depth := by
    have atTop : session.scope.depth = 0 := by simp [Scope.depth, topLevel]
    exact atTop

/-- Without handlers, an evaluation from the top level runs as the watched one, in step. -/
theorem program_in_step (quiet : settings.hooks = .none) (topLevel : session.scope.blocks = [])
    {forest : Forest} (found : Forest.ofTokens (session.feed text).lexer.tokens = .ok forest) :
    Eval.Ensures (Eval.program settings) (session.feed text).prepare
      (fun _ _ => ∀ moment ∈ session.moments settings text,
        moment.InStep settings (session.feed text).source (session.feed text).lexer.tokens)
      (fun failure finished => ∃ watched, finished.Twin watched ∧
        session.moments settings text = watched.observer ∧
        watched.Stopped settings (session.feed text).source (session.feed text).lexer.tokens
          failure) := by
  have whole : (Coupling.watching (fun _ => True) (fun _ => True) fun _ _ => True).Whole settings
      settings.watching :=
    Coupling.whole_watching quiet Value.closed_true (fun _ _ _ _ => trivial)
      (fun _ _ _ => trivial) fun _ _ _ _ _ => trivial
  have both := whole.program _ _
    ⟨(session.feed text).prepare.twin_withObserver ([] : List (Session Unit)), trivial⟩
  have at_ : ((session.feed text).prepare.withObserver []).At settings (session.feed text).source
      (session.feed text).prepare.place := ⟨rfl, rfl, by simp [withObserver]⟩
  have foundProgram : Forest.ofTokens (session.feed text).prepare.place.program = .ok forest :=
    found
  have start : (session.feed text).prepare.place.position = 0 := rfl
  have spec := Eval.ensures_program_inStep foundProgram start (inStep_start topLevel text) at_
  simp only [Eval.Ensures]
  cases ran : Eval.program settings (session.feed text).prepare with
  | ok value finished =>
      rcases both.of_ok ran with ⟨watched, watchedRan, _⟩
      rw [moments_of_ok watchedRan]
      exact (spec.of_ok watchedRan).moments
  | error failure finished =>
      rcases both.of_error ran with ⟨watched, watchedRan, _, twin, _⟩
      exact ⟨watched, twin, moments_of_error watchedRan, spec.of_error watchedRan⟩

/--
Without handlers, and wherever the brackets of the waiting tokens match, groups and blocks are in
step with the tokens at every step and where the evaluation fails. So a failure reports exactly the
brackets that are open there, a traceback has one level for each of them behind the top level, and
the step that is reported is the last one of the log. Between two uses, a session is at the top
level.
-/
theorem parse_in_step (quiet : settings.hooks = .none) (topLevel : session.scope.blocks = [])
    {forest : Forest} (found : Forest.ofTokens (session.feed text).lexer.tokens = .ok forest) :
    let tokens := (session.feed text).lexer.tokens
    let source := (session.feed text).source
    (∀ moment ∈ session.moments settings text, moment.InStep settings source tokens) ∧
      ∀ raised finished,
        Eval.program settings (session.feed text).prepare = .error raised finished →
          let counted := raised.cause.counted (tokens.take finished.position)
          finished.place.InStep settings source counted ∧
            (raised.cause.IsTooDeep → ∃ opener,
              (tokens.take finished.position).getLast? = some opener ∧ opener.opens?.isSome) ∧
            ∃ failure after last, session.parse settings text = (.error failure, after) ∧
              failure.cause = raised.cause ∧
              failure.groups = openGroups settings.fileName source counted ∧
              Traceback.levels failure =
                { name := "<top-level>", location := none } ::
                  (openGroups settings.fileName source counted).map (fun group =>
                    { name := Traceback.groupName group, location := some group.location }) ∧
              after.log.entries.back? = some last ∧ failure.stepIndex = some last.index ∧
              last.index + 1 = after.log.entries.size := by
  dsimp only
  have spec := program_in_step quiet topLevel found
  constructor
  · cases ran : Eval.program settings (session.feed text).prepare with
    | ok value finished => exact spec.of_ok ran
    | error failure finished =>
        rcases spec.of_error ran with ⟨watched, _, sameMoments, stopped⟩
        rw [sameMoments]
        exact stopped.moments
  · intro raised finished ran
    rcases spec.of_error ran with ⟨watched, twin, _, stopped⟩
    rcases stopped with ⟨sameSource, inStep, opener, _, last, isLast, lastIndex⟩
    have samePlace : watched.place = finished.place := by
      simp only [place, twin.workspace, twin.position, twin.groups]
    rw [samePlace, twin.position] at inStep
    rw [twin.position] at opener
    rw [twin.log] at isLast lastIndex
    have groups : (finished.report raised).groups = _ := inStep.groups
    refine ⟨inStep, opener, finished.report raised, finished.unwind.dropText, last, ?_, ?_, ?_, ?_,
      ?_, ?_, ?_⟩
    · rw [parse_of_quiet quiet, ran]
    · rfl
    · exact groups
    · rw [Traceback.levels, groups]
    · exact isLast
    · simp [report, isLast]
    · exact lastIndex

theorem parse_in_step_quotient :
    let settings : Settings Unit := {}
    let session : Session Unit := fresh ()
    ∃ failure after last, session.parse settings "\x7b (1 / 0) \x7d" = (.error failure, after) ∧
      (Traceback.levels failure).length = 3 ∧ after.log.entries.back? = some last ∧
        failure.stepIndex = some last.index := by
  intro settings session
  have matched : (Forest.ofTokens (session.feed "\x7b (1 / 0) \x7d").lexer.tokens).isOk = true := by
    decide +kernel
  have fails : (match Eval.program settings (session.feed "\x7b (1 / 0) \x7d").prepare with
    | .ok _ _ => false
    | .error _ _ => true) = true := by decide +kernel
  have levels : (match (session.parse settings "\x7b (1 / 0) \x7d").1 with
    | .ok _ => 0
    | .error failure => (Traceback.levels failure).length) = 3 := by decide +kernel
  cases found : Forest.ofTokens (session.feed "\x7b (1 / 0) \x7d").lexer.tokens with
  | error token => simp [found, Except.isOk, Except.toBool] at matched
  | ok forest =>
      have quiet : settings.hooks = .none := rfl
      have topLevel : session.scope.blocks = [] := rfl
      have inStep := parse_in_step quiet topLevel found
      cases ran : Eval.program settings (session.feed "\x7b (1 / 0) \x7d").prepare with
      | ok value finished => simp [ran] at fails
      | error raised finished =>
          rcases (inStep.2 raised finished ran).2.2 with
            ⟨failure, after, last, failed, _, _, _, isLast, index, _⟩
          simp only [failed] at levels
          exact ⟨failure, after, last, failed, levels, isLast, index⟩

end Session

end BlockCalc
