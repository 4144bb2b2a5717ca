import BlockCalc.Proofs.Mismatch
import BlockCalc.Proofs.StandAlone

/-!
# The check of the brackets

The check accepts a program if and only if its brackets are well nested, and a program that it
rejects changes nothing. An accepted program can still fail for a bracket, but only for a round one
in which an expression ends early: the failure blames its opener, and the evaluation has come to the
token at which the expression ends. That token stands directly in those brackets, so that what has
been read of them is matched.
-/

namespace BlockCalc

variable {σ : Type}

/-- The first token of a matched part closes nothing. -/
theorem Forest.Matched.closes?_of_head? {forest : Forest} (matched : forest.Matched)
    {token : Token} (isFirst : forest.tokens.head? = some token) : token.closes? = none := by
  cases forest with
  | nil => cases isFirst
  | leaf first rest =>
      cases isFirst
      exact matched.2.1
  | nest bracket opener inner closer rest =>
      cases isFirst
      exact Token.closes?_eq_none_of_opens? matched.1

namespace Eval

variable {settings : Settings σ}

section Moments

variable {enclosure : Enclosure} {phase : Phase} {forest : Forest} {session stopped : Session σ}
  {failure : Failure}

/-- At the moment an expression ends at a token that is ahead, and the failure blames its opener. -/
structure StopsAt (stop : Token) (failure : Failure) (moment : Moment σ) : Prop where
  early : EndsEarly moment.enclosure moment.phase stop failure
  ahead : moment.ahead.tokens.head? = some stop

theorem Reaches.past_leaf {token : Token} {rest : Forest} {next : Phase} {after : Session σ}
    {last : Moment σ}
    (ran : readToken settings enclosure token phase
      { session with position := session.position + 1 } = .ok next after)
    (further : Reaches settings ⟨enclosure, next, rest, after⟩ last) :
    Reaches settings ⟨enclosure, phase, .leaf token rest, session⟩ last := by
  have one : read settings enclosure (.leaf token .nil) phase session = .ok next after :=
    read_leaf_of_ok ran .nil
  exact Reaches.past one further

/-- If what follows an action blames no bracket, the action does. -/
theorem error_of_bind_mismatch {α β : Type} {action : Eval σ α} {next : α → Eval σ β}
    (blamesNone : ∀ result, BlamesOnly (fun _ => False) (next result))
    (failed : (action >>= next) session = .error failure stopped)
    (mismatch : failure.cause.IsMismatch) : action session = .error failure stopped := by
  exact (ensures_trivial action session).error_of_bind
    (fun result middle _ => blamesNone result middle) failed fun blames => blames mismatch

/-- If an action blames no bracket, what follows it does. -/
theorem exists_of_bind_mismatch {α β : Type} {action : Eval σ α} {next : α → Eval σ β}
    (blamesNone : BlamesOnly (fun _ => False) action)
    (failed : (action >>= next) session = .error failure stopped)
    (mismatch : failure.cause.IsMismatch) :
    ∃ result middle, action session = .ok result middle ∧
      next result middle = .error failure stopped := by
  rcases (blamesNone session).exists_of_bind_error failed fun blames => blames mismatch with
    ⟨result, middle, ran, _, failed⟩
  exact ⟨result, middle, ran, failed⟩

/-- Reading a part whose brackets match leaves the same brackets open. -/
theorem groups_of_read (quiet : settings.hooks = .none) (matched : forest.Matched) {next : Phase}
    {after : Session σ} (ran : read settings enclosure forest phase session = .ok next after) :
    after.groups = session.groups := by
  have reads : ReadsLimited settings settings.nesting forest := readsLimited quiet matched
  exact (reads enclosure phase session next after ran).1.groups

/--
The closer finds its own bracket innermost: what stands between the two has left the same brackets
open. So the test of the closer never fails, and what blames a bracket is in between.
-/
theorem contents_mismatch (quiet : settings.hooks = .none) (matched : forest.Matched)
    {group : Group} {outer : List Group} (opened : session.groups = group :: outer) {closer : Token}
    (closes : closer.closes? = some group.bracket)
    (failed : contents settings enclosure phase forest closer session = .error failure stopped)
    (mismatch : failure.cause.IsMismatch) :
    read settings enclosure forest phase session = .error failure stopped := by
  rcases exists_of_bind_error failed with failed | ⟨last, middle, ran, failed⟩
  · exact failed
  · rcases exists_of_bind_mismatch (blamesOnly_finish quiet (some closer) last) failed mismatch with
      ⟨value, finished, finishes, failed⟩
    have agrees : Agrees (finish settings (some closer) last)
        (finish (settings.withNesting settings.nesting) (some closer) last) :=
      agrees_finish quiet (some closer) last
    have groups : finished.groups = group :: outer :=
      (agrees middle value finished finishes).1.groups.trans
        ((groups_of_read quiet matched ran).trans opened)
    rw [bind_of_ok (closeGroup_of_open groups closes)] at failed
    cases failed

theorem ensures_openGroup_located (bracket : Bracket) (location : Location) :
    Ensures (openGroup settings bracket location) session
      (fun group opened =>
        (opened.source = session.source ∧ opened.groups = group :: session.groups) ∧
        ∃ depth, group = { bracket, location, depth })
      (fun _ _ => True) := by
  simp only [openGroup, ensures_bind, ensures_get]
  split
  · trivial
  · exact ⟨⟨rfl, rfl⟩, _, rfl⟩

/-- A bracket is blamed before its opener is read, in it, or behind it. -/
theorem read_nest_mismatch (quiet : settings.hooks = .none) {bracket : Bracket}
    {opener closer : Token} {inner rest : Forest} (matched : inner.Matched)
    (closes : closer.closes? = some bracket)
    (failed : read settings enclosure (.nest bracket opener inner closer rest) phase session =
      .error failure stopped)
    (mismatch : failure.cause.IsMismatch) :
    beforeBracket settings enclosure opener phase session = .error failure stopped ∨
      (∃ inside first entered,
        openBracket settings enclosure bracket opener phase session = .ok (inside, first) entered ∧
          read settings inside inner first entered = .error failure stopped) ∨
      ∃ next after,
        read settings enclosure (.nest bracket opener inner closer .nil) phase session =
          .ok next after ∧
          read settings enclosure rest next after = .error failure stopped := by
  have parts : Forest.nest bracket opener inner closer rest =
      (Forest.nest bracket opener inner closer .nil).append rest := rfl
  rw [parts, read_append] at failed
  rcases exists_of_bind_error failed with failed | behind
  · rw [read_nest] at failed
    rcases exists_of_bind_error failed with failed | ⟨⟨pending, unary⟩, ready, before, failed⟩
    · exact Or.inl failed
    · rcases exists_of_bind_mismatch (.locate settings opener) failed mismatch with
        ⟨location, located, locates, failed⟩
      rcases exists_of_bind_mismatch .advance failed mismatch with
        ⟨_, advanced, advances, failed⟩
      rcases exists_of_bind_mismatch (blamesOnly_openGroup bracket location) failed mismatch with
        ⟨group, opened, opens, failed⟩
      have failedInside : enclosed settings location group inner closer bracket opened =
          .error failure stopped := by
        refine error_of_bind_mismatch (fun value => ?_) failed mismatch
        exact (blamesOnly_afterBracket bracket pending unary value location).bind fun _ => .pure _
      refine Or.inr (Or.inl ?_)
      rcases (ensures_openGroup_located bracket location).of_ok opens with
        ⟨⟨_, groups⟩, depth, rfl⟩
      cases bracket with
      | round =>
          refine ⟨_, _, opened, ?_,
            contents_mismatch quiet matched groups closes failedInside mismatch⟩
          rw [openBracket, bind_of_ok before, bind_of_ok locates, bind_of_ok advances,
            bind_of_ok opens]
          rfl
      | curly =>
          rcases exists_of_bind_mismatch (blamesOnly_enterBlock quiet location) failedInside
            mismatch with ⟨_, entered, enters, failedBlock⟩
          have failedContents := error_of_bind_mismatch (fun value =>
            (blamesOnly_exitBlock quiet location).bind fun _ => .pure value) failedBlock mismatch
          have agrees : Agrees (enterBlock settings location)
              (enterBlock (settings.withNesting settings.nesting) location) :=
            agrees_enterBlock quiet location
          have stillOpen := (agrees opened _ entered enters).1.groups.trans groups
          refine ⟨_, _, entered, ?_,
            contents_mismatch quiet matched stillOpen closes failedContents mismatch⟩
          rw [openBracket, bind_of_ok before, bind_of_ok locates, bind_of_ok advances,
            bind_of_ok opens]
          exact bind_of_ok enters
  · exact Or.inr (Or.inr behind)

/-- Whatever is blamed on a bracket comes from a moment at which an expression ends early. -/
theorem exists_stop_of_mismatch (quiet : settings.hooks = .none) (matched : forest.Matched)
    (failed : read settings enclosure forest phase session = .error failure stopped)
    (mismatch : failure.cause.IsMismatch) :
    ∃ stop last, Reaches settings ⟨enclosure, phase, forest, session⟩ last ∧
      StopsAt stop failure last := by
  induction forest generalizing enclosure phase session with
  | nil => cases failed
  | leaf token rest ih =>
      rw [read_leaf, bind_of_ok (advance_eq_ok session)] at failed
      cases ran : readToken settings enclosure token phase
          { session with position := session.position + 1 } with
      | ok next after =>
          rw [bind_of_ok ran] at failed
          rcases ih matched.2.2 failed with ⟨stop, last, reaches, stops⟩
          exact ⟨stop, last, .past_leaf ran reaches, stops⟩
      | error raised broken =>
          rw [bind_of_error ran] at failed
          cases failed
          have early := (blamesOnly_readToken quiet token _).of_error ran mismatch
          exact ⟨token, _, .refl _, early, rfl⟩
  | nest bracket opener inner closer rest ihInner ihRest =>
      rcases matched with ⟨isOpener, ⟨closer, rfl, closes⟩, innerMatched, restMatched⟩
      have parts : Forest.nest bracket opener inner closer rest =
          (Forest.nest bracket opener inner closer .nil).append rest := rfl
      rcases read_nest_mismatch quiet innerMatched closes failed mismatch with
        failed | ⟨inside, first, entered, opens, failed⟩ | ⟨next, after, ran, failed⟩
      · have early := (blamesOnly_beforeBracket isOpener session).of_error failed mismatch
        exact ⟨opener, _, .refl _, early, rfl⟩
      · rcases ihInner innerMatched failed with ⟨stop, last, reaches, stops⟩
        exact ⟨stop, last, .into opens reaches, stops⟩
      · rcases ihRest restMatched failed with ⟨stop, last, reaches, stops⟩
        rw [parts]
        exact ⟨stop, last, .past ran reaches, stops⟩

theorem Agrees.ensures_source {α : Type} {left right : Eval σ α} (agrees : Agrees left right)
    (session : Session σ) :
    Ensures left session (fun _ after => after.source = session.source) (fun _ _ => True) := by
  simp only [Ensures]
  split
  · rename_i result after ran
    exact (agrees session result after ran).1.source
  · trivial

/-- What surrounds the inside of a bracket, which is in the same text as the opener. -/
theorem ensures_openBracket_located (quiet : settings.hooks = .none) (bracket : Bracket)
    (opener : Token) :
    Ensures (openBracket settings enclosure bracket opener phase) session
      (fun opened entered => entered.source = session.source ∧
        match bracket with
        | .round => ∃ depth, opened = (.parenthesis
            { bracket := .round, location := opener.location settings.fileName session.source,
              depth }, .operand [] [])
        | .curly => opened.1 = .statements)
      (fun _ _ => True) := by
  have agreesBefore : Agrees (beforeBracket settings enclosure opener phase)
      (beforeBracket (settings.withNesting settings.nesting) enclosure opener phase) :=
    agrees_beforeBracket quiet enclosure opener phase
  apply (agreesBefore.ensures_source session).bind
  rintro _ ready same
  rw [ensures_bind, ensures_locate, ensures_bind, ensures_advance, ← same]
  apply (ensures_openGroup_located bracket _).bind
  rintro group opened ⟨⟨openedSource, _⟩, depth, rfl⟩
  cases bracket with
  | round => exact ⟨openedSource, depth, rfl⟩
  | curly =>
      let location := opener.location settings.fileName ready.source
      have agreesBlock : Agrees (enterBlock settings location)
          (enterBlock (settings.withNesting settings.nesting) location) :=
        agrees_enterBlock quiet location
      apply (agreesBlock.ensures_source opened).bind
      rintro _ entered enteredSource
      exact ⟨enteredSource.trans openedSource, rfl⟩

/--
The moment is in the round brackets of an opener, of which a part has been read. That part and what
is ahead stand side by side among the tokens.
-/
structure InRound (settings : Settings σ) (source : Source) (tokens : List Token) (opener : Token)
    (part : Forest) (moment : Moment σ) : Prop where
  opens : opener.opens? = some .round
  matched : part.Matched
  stands : ∃ before after,
    tokens = before ++ opener :: (part.tokens ++ (moment.ahead.tokens ++ after))
  inside : ∃ depth, moment.enclosure = .parenthesis
    { bracket := .round, location := opener.location settings.fileName source, depth }
  ran : ∃ entered, read settings moment.enclosure part (.operand [] []) entered =
    .ok moment.phase moment.session

/-- A moment in round brackets is at the level of the start, or directly behind an opener of it. -/
theorem Reaches.inRound (quiet : settings.hooks = .none) {start last : Moment σ}
    (reaches : Reaches settings start last) (matched : start.ahead.Matched)
    (inside : last.enclosure ≠ .statements) :
    (start.enclosure = last.enclosure ∧ last.ahead.Matched ∧ ∃ part : Forest, part.Matched ∧
      start.ahead = part.append last.ahead ∧
      read settings start.enclosure part start.phase start.session = .ok last.phase last.session) ∨
      last.ahead.Matched ∧
      ∃ opener part, InRound settings start.session.source start.ahead.tokens opener part last := by
  induction reaches with
  | refl moment => exact Or.inl ⟨rfl, matched, .nil, trivial, rfl, rfl⟩
  | @past enclosure phase next front rest session after last ran further ih =>
      rcases Forest.matched_append_iff.mp matched with ⟨frontMatched, restMatched⟩
      have reads : ReadsLimited settings settings.nesting front := readsLimited quiet frontMatched
      have sameSource : after.source = session.source :=
        (reads enclosure phase session next after ran).1.source
      rcases ih restMatched inside with
        ⟨sameLevel, aheadMatched, part, partMatched, rfl, ranPart⟩ |
        ⟨aheadMatched, opener, part, inRound⟩
      · refine Or.inl ⟨sameLevel, aheadMatched, front.append part, frontMatched.append partMatched,
          (Forest.append_assoc front part last.ahead).symm, ?_⟩
        rw [read_append, bind_of_ok ran]
        exact ranPart
      · rcases inRound.stands with ⟨before, behind, stands⟩
        refine Or.inr ⟨aheadMatched, opener, part, inRound.opens, inRound.matched,
          ⟨front.tokens ++ before, behind, ?_⟩, ?_, inRound.ran⟩
        · dsimp only at stands
          simp [stands]
        · rw [← sameSource]
          exact inRound.inside
  | @into enclosure within bracket opener closer inner rest phase first session entered last opens
      further ih =>
      rcases (ensures_openBracket_located quiet bracket opener).of_ok opens with
        ⟨sameSource, opened⟩
      rcases ih matched.2.2.1 inside with
        ⟨sameLevel, aheadMatched, part, partMatched, rfl, ranPart⟩ |
        ⟨aheadMatched, other, part, inRound⟩
      · cases bracket with
        | curly => exact absurd (sameLevel.symm.trans opened) inside
        | round =>
            rcases opened with ⟨depth, opened⟩
            cases opened
            dsimp only at sameLevel ranPart
            refine Or.inr ⟨aheadMatched, opener, part, matched.1, partMatched,
              ⟨[], closer.toList ++ rest.tokens, ?_⟩, ⟨depth, sameLevel.symm⟩, entered, ?_⟩
            · simp [Forest.tokens]
            · rw [← sameLevel]
              exact ranPart
      · rcases inRound.stands with ⟨before, behind, stands⟩
        refine Or.inr ⟨aheadMatched, other, part, inRound.opens, inRound.matched,
          ⟨opener :: before, behind ++ (closer.toList ++ rest.tokens), ?_⟩, ?_, inRound.ran⟩
        · dsimp only at stands
          simp [Forest.tokens, stands]
        · rw [← sameSource]
          exact inRound.inside

end Moments

end Eval

/--
Among the tokens, a token ends an expression directly in the round brackets of an opener: it is a
separator, or the token behind a block that stands there alone.
-/
def StopsIn (tokens : List Token) (opener stop : Token) : Prop :=
  opener.opens? = some .round ∧
    ∃ before after, ∃ part : Forest, part.Matched ∧
      tokens = before ++ opener :: (part.tokens ++ stop :: after) ∧
      (stop.isSeparator = true ∨ part.IsBlock ∧ stop.binary? = none ∧ stop.closes? = none)

/-- Where an expression ends early in round brackets, it ends at the next token. -/
theorem Eval.InRound.stopsIn {settings : Settings σ} {source : Source} {tokens : List Token}
    {opener stop : Token} {part : Forest} {moment : Moment σ} {failure : Failure}
    (inRound : InRound settings source tokens opener part moment) (matched : moment.ahead.Matched)
    (stops : StopsAt stop failure moment) : StopsIn tokens opener stop := by
  rcases List.head?_eq_some_iff.mp stops.ahead with ⟨later, ahead⟩
  rcases inRound.stands with ⟨before, after, stands⟩
  rw [ahead] at stands
  refine ⟨inRound.opens, before, later ++ after, part, inRound.matched, by simpa using stands, ?_⟩
  rcases stops.early.stops with separator | ⟨⟨value, location, isBlock⟩, noOperator⟩
  · exact Or.inl separator
  · rcases inRound.inside with ⟨depth, inside⟩
    rcases inRound.ran with ⟨entered, ran⟩
    rw [inside, isBlock] at ran
    exact Or.inr ⟨isBlock_of_read ran, noOperator, matched.closes?_of_head? stops.ahead⟩

namespace Session

variable {settings : Settings σ}

theorem parse_of_not_wellNested (quiet : settings.hooks = .none) {session : Session σ}
    {text : String}
    (tangled : ¬WellNested ((session.feed text).lexer.tokens.filter Token.isBracket)) :
    ∃ failure after, session.parse settings text = (.error failure, after) ∧
      failure.cause.IsMismatch ∧ after.scope = session.scope.unwind := by
  cases found : Forest.ofTokens (session.feed text).prepare.program with
  | ok forest => exact absurd (Forest.exists_ofTokens_eq_ok_iff.mp ⟨forest, found⟩) tangled
  | error token =>
      rcases Eval.program_of_blamed quiet found with ⟨location, failed⟩
      rw [parse_of_quiet quiet, failed]
      exact ⟨_, _, rfl, trivial, rfl⟩

/-- Behind the check, a bracket is blamed where an expression stops in round brackets. -/
theorem exists_stop_of_parse (quiet : settings.hooks = .none) {session after : Session σ}
    {text : String} (nested : WellNested ((session.feed text).lexer.tokens.filter Token.isBracket))
    {failure : Failure} {bracket : String}
    (failed : session.parse settings text = (.error failure, after))
    (mismatch : failure.cause = .bracketMismatch bracket) :
    bracket = Bracket.round.opener ∧ ∃ opener stop moment,
      StopsIn (session.feed text).lexer.tokens opener stop ∧
      failure.location = some (opener.location settings.fileName (session.feed text).source) ∧
      session.Comes settings text moment ∧ moment.ahead.tokens.head? = some stop := by
  rcases Forest.exists_ofTokens_eq_ok_iff.mpr nested with ⟨forest, found⟩
  rcases Forest.ofTokens_eq_ok_iff.mp found with ⟨matched, written⟩
  have prepared : Forest.ofTokens (session.feed text).prepare.program = .ok forest := found
  rw [parse_of_quiet quiet, Eval.program_of_found quiet prepared] at failed
  cases ran : Eval.statements settings forest ((session.feed text).prepare.begun settings) with
  | ok value finished => simp [ran] at failed
  | error raised stopped =>
      simp only [ran, Prod.mk.injEq, Except.error.injEq] at failed
      rcases failed with ⟨rfl, rfl⟩
      change raised.cause = _ at mismatch
      have isMismatch : raised.cause.IsMismatch := by
        rw [mismatch]
        trivial
      have failedRead := Eval.error_of_bind_mismatch
        (fun last => Eval.blamesOnly_finish quiet none last) ran isMismatch
      rcases Eval.exists_stop_of_mismatch quiet matched failedRead isMismatch with
        ⟨stop, last, reaches, stops⟩
      rcases stops.early.blames with ⟨group, inside, cause, location⟩
      rcases reaches.inRound quiet matched (by simp [inside]) with
        ⟨sameLevel, _⟩ | ⟨aheadMatched, opener, part, inRound⟩
      · simp [inside] at sameLevel
      · rcases inRound.inside with ⟨depth, round⟩
        cases inside.symm.trans round
        have stopsIn := inRound.stopsIn aheadMatched stops
        rw [written] at stopsIn
        rw [cause] at mismatch
        cases mismatch
        exact ⟨rfl, opener, stop, last, stopsIn, location, ⟨forest, found, reaches⟩, stops.ahead⟩

/--
The check of the brackets is exact: it blames no token if and only if the brackets are well nested,
and it blames one if brackets are left open. A program that it rejects fails for a bracket and
changes no binding at the top level, where evaluations start. In a program that it accepts, no
closer is left over at the end, and only a round bracket can be blamed, at its opener, when the
evaluation has come to a token at which the expression directly inside ends: a separator, or what
follows a block that stands there alone.
-/
theorem parse_checks_brackets (quiet : settings.hooks = .none) (session : Session σ)
    (text : String) :
    let fed := session.feed text
    let brackets := fed.lexer.tokens.filter Token.isBracket
    (Forest.blamed? fed.lexer.tokens = none ↔ WellNested brackets) ∧
      (0 < fed.lexer.unclosed → Forest.blamed? fed.lexer.tokens ≠ none) ∧
      (¬WellNested brackets → ∃ failure after bracket,
        session.parse settings text = (.error failure, after) ∧
          failure.cause = .bracketMismatch bracket ∧ after.scope = session.scope.unwind ∧
          (session.scope.blocks = [] → after.scope = session.scope)) ∧
      (WellNested brackets → Forest.stray? fed.lexer.tokens = none ∧ ∀ failure after bracket,
        session.parse settings text = (.error failure, after) →
          failure.cause = .bracketMismatch bracket →
            bracket = "(" ∧ ∃ opener stop moment, StopsIn fed.lexer.tokens opener stop ∧
              failure.location = some (opener.location settings.fileName fed.source) ∧
              session.Comes settings text moment ∧ moment.ahead.tokens.head? = some stop) := by
  refine ⟨Forest.blamed?_eq_none_iff_wellNested, fun unclosed accepted => ?_, fun tangled => ?_,
    fun nested => ⟨?_, fun failure after bracket failed mismatch =>
      exists_stop_of_parse quiet nested failed mismatch⟩⟩
  · exact not_wellNested_of_unclosed unclosed
      (Forest.blamed?_eq_none_iff_wellNested.mp accepted)
  · rcases parse_of_not_wellNested quiet tangled with
      ⟨failure, after, failed, mismatch, sameScope⟩
    cases cause : failure.cause with
    | bracketMismatch bracket =>
        refine ⟨failure, after, bracket, failed, cause, sameScope, fun topLevel => ?_⟩
        rw [sameScope, Scope.unwind_of_topLevel topLevel]
    | _ =>
        rw [cause] at mismatch
        exact mismatch.elim
  · rcases Forest.exists_ofTokens_eq_ok_iff.mpr nested with ⟨forest, found⟩
    exact Forest.stray?_of_ofTokens found

theorem parse_checks_brackets_around_separator :
    let settings : Settings Unit := {}
    let session : Session Unit := fresh ()
    let text := "\x7b (1; 2) \x7d"
    WellNested ((session.feed text).lexer.tokens.filter Token.isBracket) ∧
      ∃ failure after, session.parse settings text = (.error failure, after) ∧
        failure.cause = .bracketMismatch "(" ∧
        ∃ opener stop moment, StopsIn (session.feed text).lexer.tokens opener stop ∧
          failure.location =
            some (opener.location settings.fileName (session.feed text).source) ∧
          session.Comes settings text moment ∧ moment.ahead.tokens.head? = some stop := by
  intro settings session text
  have quiet : settings.hooks = .none := rfl
  have checked := parse_checks_brackets quiet session text
  have accepted : Forest.blamed? (session.feed text).lexer.tokens = none := by decide +kernel
  have nested := checked.1.mp accepted
  have blamed : (match (session.parse settings text).1 with
      | .error failure => some failure.cause
      | .ok _ => none) = some (.bracketMismatch "(") := by decide +kernel
  rcases parsed : session.parse settings text with ⟨failure | value, after⟩
  · simp only [parsed, Option.some.injEq] at blamed
    exact ⟨nested, failure, after, rfl, blamed,
      ((checked.2.2.2 nested).2 failure after _ parsed blamed).2⟩
  · simp [parsed] at blamed

end Session

end BlockCalc
