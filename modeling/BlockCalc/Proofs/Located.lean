import BlockCalc.Proofs.Breaking

/-!
# Where evaluations fail

A failure that can be handled has the place of a token. Where a binary operator or an assignment
fails, that token is the one that began its run at the bracket level of the expression, and where a
unary operator fails, it is that operator, right before what it is applied to. Every failure that
speaks of what operators are applied to is of one of these two kinds.
-/

namespace BlockCalc

variable {σ : Type}

/-- A unary operator that fails is one of the tokens, and its operand starts at the next one. -/
theorem Term.Fails.exists_token {scope : Scope} {cause : Cause} {term failing : Term}
    (fails : term.Fails scope cause failing) {buffer : Buffer} (placed : term.Placed buffer) :
    ∃ before token behind operator operand, buffer.tokens = before ++ token :: behind ∧
      token.unary? = some operator ∧ failing = .unary operator operand (buffer.place token) ∧
      operand.StandsAt buffer behind := by
  induction fails with
  | here resolves fails =>
      rcases placed with ⟨_, ⟨before, within⟩, stands⟩
      cases stands with
      | unary isOperator behind => exact ⟨before, _, _, _, _, within.symm, isOperator, rfl, behind⟩
  | inside _ ih =>
      rcases placed with ⟨_, suffix, stands⟩
      cases stands with
      | unary isOperator behind => exact ih ⟨_, (List.suffix_cons _ _).trans suffix, behind⟩

/-- What a reduction resolves is one of the operands. -/
theorem Pending.Resolves.mem {scope : Scope} {pending : Pending} {term : Term}
    (resolves : pending.Resolves scope term) : term ∈ pending.operands := by
  cases resolves with
  | first plain operands => simp [operands]
  | next meets =>
      rcases meets.operands with ⟨before, behind, operands, _⟩
      simp [operands]
  | last assigns operands targeted => simp [operands]

/-- Of an expression with some operators, the innermost runs have given way, and others wait. -/
structure Stage.Placed (buffer : Buffer) (signs : List Sign) (stage : Stage σ) : Prop where
  waits : ∃ inner waiting, runs signs = inner ++ waiting ∧ Stacked buffer stage.pending waiting
  placed : stage.term.Placed buffer

namespace Eval

variable {settings : Settings σ} {buffer : Buffer} {signs : List Sign}
  {upcoming : Option BinaryOp}

theorem Settles.placed {first last : Stage σ} (settles : Settles settings upcoming first last)
    (placed : first.Placed buffer signs) : last.Placed buffer signs := by
  induction settles with
  | refl stage => exact placed
  | reduced _ _ _ ih =>
      rcases placed with ⟨⟨inner, waiting, split, waits⟩, _⟩
      cases waits with
      | @cons _ sign _ others topPlaced outerWaits =>
          refine ih ⟨⟨inner ++ [sign], others, ?_, outerWaits⟩, topPlaced.shows.placed _⟩
          rw [split, List.append_assoc, List.singleton_append]

theorem Halts.exists_signs (sameFile : settings.fileName = buffer.fileName)
    (quiet : settings.hooks = .none) {level : Moment σ} {outline : Outline} {part : Forest}
    {stage : Stage σ} (halts : Halts settings level part upcoming stage)
    (placed : Moment.Placed buffer outline level) :
    ∃ signs, outline.after part = .operator signs ∧ stage.Placed buffer signs := by
  rcases halts.stands with ⟨rest, reached, ahead, ran, _⟩
  rcases level with ⟨enclosure, phase, whole, session⟩
  cases ahead
  rcases placed_past sameFile quiet placed ran with ⟨_, _, _, _, _, stands⟩
  generalize isAfter : outline.after part = after at stands
  cases stands with
  | operator waits termPlaced => exact ⟨_, rfl, ⟨[], _, rfl, waits⟩, termPlaced⟩

end Eval

@[simp]
theorem Enclosure.signs_outline (enclosure : Enclosure) : enclosure.outline.signs = [] := by
  cases enclosure <;> rfl

namespace Session

/-- The tokens that wait in a session, in its text. -/
def buffer (settings : Settings σ) (session : Session σ) : Buffer where
  fileName := settings.fileName
  source := session.source
  tokens := session.lexer.tokens

section Evaluations

variable (settings : Settings σ) (session : Session σ) (text : String)

/-- The moment at which nothing of the program has been read. -/
def outset (program : Forest) : Moment σ where
  enclosure := .statements
  phase := .statement .void
  ahead := program
  session := (session.feed text).prepare.begun settings

/--
The evaluation of a text comes to a stage: at some bracket level, a part has been read that ends
with an operand, `signs` are the operators of its expression, and something comes up behind it.
-/
def ComesTo (part : Forest) (signs : List Sign) (upcoming : Option BinaryOp) (stage : Stage σ) :
    Prop :=
  ∃ program level first,
    Forest.ofTokens (session.feed text).lexer.tokens = .ok program ∧
    Eval.Level settings (session.outset settings text program) level ∧
    Eval.Halts settings level part upcoming first ∧
    level.enclosure.outline.after part = .operator signs ∧
    Eval.Settles settings upcoming first stage

/-- The evaluation of a text reduces an operator, outside of which other ones wait. -/
def Reduces (part : Forest) (signs : List Sign) (outer : List Pending) (pending : Pending)
    (before : Session σ) : Prop :=
  ∃ upcoming top term,
    session.ComesTo settings text part signs upcoming ⟨top :: outer, term, before⟩ ∧
      top.GivesWay upcoming ∧ pending = top.push term

/-- The evaluation of a text resolves an operand, for an operator or as one that stands alone. -/
inductive Resolves : Term → Scope → Prop where
  | operand {part : Forest} {signs : List Sign} {outer : List Pending} {pending : Pending}
      {before : Session σ} {term : Term}
      (reduces : session.Reduces settings text part signs outer pending before)
      (resolves : pending.Resolves before.scope term) : Resolves term before.scope
  | alone {part : Forest} {signs : List Sign} {term : Term} {before : Session σ}
      (comes : session.ComesTo settings text part signs none ⟨[], term, before⟩) :
      Resolves term before.scope

end Evaluations

variable {settings : Settings σ} {session : Session σ} {text : String}

theorem outset_placed {program : Forest}
    (found : Forest.ofTokens (session.feed text).lexer.tokens = .ok program) :
    Moment.Placed ((session.feed text).buffer settings) .statement
      (session.outset settings text program) where
  holds := ⟨rfl, List.forall_mem_nil _⟩
  matched := (Forest.ofTokens_eq_ok_iff.mp found).1
  enclosed := trivial
  stands := by
    rcases Forest.ofTokens_eq_ok_iff.mp found with ⟨_, written⟩
    refine ⟨[], ?_, .statement .void⟩
    rw [List.append_nil]
    exact written ▸ List.suffix_rfl

theorem parse_of_found (quiet : settings.hooks = .none) {program : Forest}
    (found : Forest.ofTokens (session.feed text).lexer.tokens = .ok program) :
    session.parse settings text =
      match Eval.ends settings (session.outset settings text program) none with
      | .ok value finished => (.ok value, finished.dropText)
      | .error failure finished =>
          (.error (finished.report failure), finished.unwind.dropText) := by
  have prepared : Forest.ofTokens (session.feed text).prepare.program = .ok program := found
  rw [parse_of_quiet quiet, Eval.program_of_found quiet prepared]
  rfl

/-- The operators of an expression that the evaluation comes to stand at its bracket level. -/
theorem ComesTo.sublist {part : Forest} {signs : List Sign} {upcoming : Option BinaryOp}
    {stage : Stage σ} (comes : session.ComesTo settings text part signs upcoming stage) :
    (signs.map Sign.token).Sublist part.leaves := by
  rcases comes with ⟨_, level, _, _, _, _, outlined, _⟩
  have sublist := Outline.signs_after level.enclosure.outline part
  rw [outlined, Enclosure.signs_outline] at sublist
  exact sublist

section Origins

variable (quiet : settings.hooks = .none)

include quiet

/-- Where the evaluation breaks at a stage that it comes to, it fails. -/
theorem ComesTo.parse_of_breaks {part : Forest} {signs : List Sign} {upcoming : Option BinaryOp}
    {stage : Stage σ} (comes : session.ComesTo settings text part signs upcoming stage)
    {failure : Failure} {stopped : Session σ}
    (breaks : Eval.Breaks settings failure stopped upcoming stage) :
    session.parse settings text = (.error (stopped.report failure), stopped.unwind.dropText) := by
  rcases comes with ⟨program, level, first, found, inside, halts, _, settles⟩
  have broken : Eval.Broken settings (session.outset settings text program) failure stopped :=
    ⟨level, part, upcoming, first, stage, inside, halts, settles, breaks⟩
  rw [parse_of_found quiet found, broken.ends none]

theorem ComesTo.placed {part : Forest} {signs : List Sign} {upcoming : Option BinaryOp}
    {stage : Stage σ} (comes : session.ComesTo settings text part signs upcoming stage) :
    stage.Placed ((session.feed text).buffer settings) signs := by
  rcases comes with ⟨program, level, first, found, inside, halts, outlined, settles⟩
  have sameFile : settings.fileName = ((session.feed text).buffer settings).fileName := rfl
  have levelPlaced := inside.placed sameFile quiet (outset_placed found)
  rcases halts.exists_signs sameFile quiet levelPlaced with ⟨others, sameOutline, placed⟩
  cases outlined.symm.trans sameOutline
  exact settles.placed placed

/-- An evaluation fails for a bracket without a partner, or while its program is read. -/
theorem exists_raised_of_parse {failure : Failure} {after : Session σ}
    (failed : session.parse settings text = (.error failure, after)) :
    (∃ token ∈ (session.feed text).lexer.tokens, failure.cause = .bracketMismatch token.text ∧
      failure.location = some (((session.feed text).buffer settings).place token)) ∨
    ∃ program raised stopped, Forest.ofTokens (session.feed text).lexer.tokens = .ok program ∧
      Eval.ends settings (session.outset settings text program) none = .error raised stopped ∧
      failure = stopped.report raised := by
  cases found : Forest.ofTokens (session.feed text).lexer.tokens with
  | error token =>
      have prepared : Forest.ofTokens (session.feed text).prepare.program = .error token := found
      rw [parse_of_quiet quiet, Eval.program_begun quiet, Eval.evaluate_eq, prepared] at failed
      cases failed
      exact Or.inl ⟨token, Forest.mem_of_ofTokens_eq_error found, rfl, rfl⟩
  | ok program =>
      rw [parse_of_found quiet found] at failed
      cases ran : Eval.ends settings (session.outset settings text program) none with
      | ok value finished => simp [ran] at failed
      | error raised stopped =>
          rw [ran] at failed
          cases failed
          exact Or.inr ⟨program, raised, stopped, rfl, ran, rfl⟩

/-- A failure that can be handled has the place of a token. -/
theorem exists_located_of_parse {failure : Failure} {after : Session σ}
    (failed : session.parse settings text = (.error failure, after))
    (handled : failure.cause.IsHandled) :
    ∃ token ∈ (session.feed text).lexer.tokens,
      failure.location = some (((session.feed text).buffer settings).place token) := by
  rcases exists_raised_of_parse quiet failed with
    ⟨token, mem, _, located⟩ | ⟨program, raised, stopped, found, ends, rfl⟩
  · exact ⟨token, mem, located⟩
  · have locates := Eval.locates_of_ends rfl quiet (outset_placed found) (by simp) ends
    rcases locates handled with ⟨location, located, token, mem, rfl⟩
    exact ⟨token, mem, located⟩

/-- A failure that speaks of operands comes from a stage at which the evaluation breaks. -/
theorem exists_breaks_of_parse {failure : Failure} {after : Session σ}
    (failed : session.parse settings text = (.error failure, after))
    (operational : failure.cause.IsOperational False) :
    ∃ part signs upcoming stage raised stopped,
      session.ComesTo settings text part signs upcoming stage ∧
      Eval.Breaks settings raised stopped upcoming stage ∧ raised.cause = failure.cause := by
  rcases exists_raised_of_parse quiet failed with
    ⟨token, _, mismatch, _⟩ | ⟨program, raised, stopped, found, ends, rfl⟩
  · rw [mismatch] at operational
    exact operational.elim
  · have sameFile : settings.fileName = ((session.feed text).buffer settings).fileName := rfl
    have placed : Moment.Placed _ _ (session.outset settings text program) := outset_placed found
    rcases Eval.broken_of_ends sameFile quiet placed (by simp) ends operational with
      ⟨level, part, upcoming, first, stage, inside, halts, settles, breaks⟩
    rcases halts.exists_signs sameFile quiet (inside.placed sameFile quiet placed) with
      ⟨signs, outlined, _⟩
    exact ⟨part, signs, upcoming, stage, raised, stopped,
      ⟨program, level, first, found, inside, halts, outlined, settles⟩, breaks, rfl⟩

/-- Where an operator fails that the evaluation reduces, it fails where the run of it began. -/
theorem Reduces.parse_of_fails {part : Forest} {signs : List Sign} {outer : List Pending}
    {pending : Pending} {before : Session σ} {cause : Cause}
    (reduces : session.Reduces settings text part signs outer pending before)
    (fails : pending.Fails before.scope cause) {failure : Failure} {after : Session σ}
    (failed : session.parse settings text = (.error failure, after)) :
    failure.cause = cause ∧ ∃ inner sign others,
      runs signs = inner ++ sign :: others ∧ others.length = outer.length ∧
      sign.token ∈ (session.feed text).lexer.tokens ∧ sign.operator = pending.operator ∧
      failure.location = some (((session.feed text).buffer settings).place sign.token) := by
  rcases reduces with ⟨upcoming, top, term, comes, gives, rfl⟩
  rcases Eval.reduce_of_fails quiet fails with ⟨stopped, failedReduction⟩
  rw [comes.parse_of_breaks quiet (.reduction gives failedReduction)] at failed
  cases failed
  rcases (comes.placed quiet).waits with ⟨inner, waiting, split, waits⟩
  cases waits with
  | @cons _ sign _ others topPlaced outerWaits =>
      exact ⟨rfl, inner, sign, others, split, outerWaits.length_eq.symm, topPlaced.mem,
        topPlaced.operator.symm, congrArg some topPlaced.location⟩

/-- An operand that the evaluation resolves starts at one of the tokens. -/
theorem Resolves.placed {term : Term} {scope : Scope}
    (resolves : session.Resolves settings text term scope) :
    term.Placed ((session.feed text).buffer settings) := by
  cases resolves with
  | operand reduces resolves =>
      rcases reduces with ⟨upcoming, top, last, comes, gives, rfl⟩
      have placed := comes.placed quiet
      rcases placed.waits with ⟨inner, waiting, split, waits⟩
      cases waits with
      | cons topPlaced _ => exact (topPlaced.push placed.placed).operands _ resolves.mem
  | alone comes => exact (comes.placed quiet).placed

/-- Where a unary operator fails on an operand that the evaluation resolves, it fails there. -/
theorem Resolves.parse_of_fails {term failing : Term} {scope : Scope} {cause : Cause}
    (resolves : session.Resolves settings text term scope)
    (fails : term.Fails scope cause failing) {failure : Failure} {after : Session σ}
    (failed : session.parse settings text = (.error failure, after)) :
    failure.cause = cause ∧ failure.location = some failing.location := by
  cases resolves with
  | operand reduces resolves =>
      rcases reduces with ⟨upcoming, top, last, comes, gives, rfl⟩
      rcases Eval.reduce_of_resolves quiet resolves fails with ⟨stopped, failedReduction⟩
      rw [comes.parse_of_breaks quiet (.reduction gives failedReduction)] at failed
      cases failed
      exact ⟨rfl, rfl⟩
  | alone comes =>
      rw [comes.parse_of_breaks quiet (.alone (Eval.resolve_of_fails fails))] at failed
      cases failed
      exact ⟨rfl, rfl⟩

/-- A failure that speaks of operands is that of an operator, or of a unary one at an operand. -/
theorem exists_origin_of_parse {failure : Failure} {after : Session σ}
    (failed : session.parse settings text = (.error failure, after))
    (operational : failure.cause.IsOperational False) :
    (∃ part signs outer pending before,
      session.Reduces settings text part signs outer pending before ∧
        pending.Fails before.scope failure.cause) ∨
      ∃ term scope failing, session.Resolves settings text term scope ∧
        term.Fails scope failure.cause failing := by
  rcases exists_breaks_of_parse quiet failed operational with
    ⟨part, signs, upcoming, stage, raised, stopped, comes, breaks, sameCause⟩
  rw [← sameCause] at operational ⊢
  cases breaks with
  | reduction gives failedReduction =>
      have reduces : session.Reduces settings text part signs _ _ _ :=
        ⟨upcoming, _, _, comes, gives, rfl⟩
      rcases Eval.exists_origin_of_reduce quiet failedReduction operational with
        fails | ⟨term, failing, resolves, fails⟩
      · exact Or.inl ⟨part, signs, _, _, _, reduces, fails⟩
      · exact Or.inr ⟨term, _, failing, .operand reduces resolves, fails⟩
  | alone unresolved =>
      rcases Eval.exists_fails_of_resolve unresolved operational with ⟨failing, fails⟩
      exact Or.inr ⟨_, _, failing, .alone comes, fails⟩

end Origins

/--
Every failure that can be handled has the place of a token. Where an operator fails on values or for
a variable that it assigns to, it is the token of that operator that began its run, at the bracket
level of the expression. Where a unary operator fails, it is that operator, right before its
operand. And every failure that speaks of what operators are applied to is one of these.
-/
theorem parse_locates_failures (quiet : settings.hooks = .none) {failure : Failure}
    {after : Session σ} (failed : session.parse settings text = (.error failure, after)) :
    let buffer := (session.feed text).buffer settings
    (failure.cause.IsHandled →
      ∃ token ∈ buffer.tokens, failure.location = some (buffer.place token)) ∧
    (∀ {part : Forest} {signs : List Sign} {outer : List Pending} {pending : Pending}
      {before : Session σ} {cause : Cause},
      session.Reduces settings text part signs outer pending before →
        pending.Fails before.scope cause →
          failure.cause = cause ∧ ∃ inner sign others,
            (signs.map Sign.token).Sublist part.leaves ∧
            runs signs = inner ++ sign :: others ∧ others.length = outer.length ∧
            BeginsRun signs sign ∧ sign.operator = pending.operator ∧
            sign.token ∈ buffer.tokens ∧
            failure.location = some (buffer.place sign.token)) ∧
    (∀ {term failing : Term} {scope : Scope} {cause : Cause},
      session.Resolves settings text term scope → term.Fails scope cause failing →
        failure.cause = cause ∧ ∃ before token behind operator operand,
          buffer.tokens = before ++ token :: behind ∧ token.unary? = some operator ∧
          failing = .unary operator operand (buffer.place token) ∧
          operand.StandsAt buffer behind ∧ failure.location = some (buffer.place token)) ∧
    (failure.cause.IsOperational False →
      (∃ part signs outer pending before,
        session.Reduces settings text part signs outer pending before ∧
          pending.Fails before.scope failure.cause) ∨
      ∃ term scope failing, session.Resolves settings text term scope ∧
        term.Fails scope failure.cause failing) := by
  intro buffer
  refine ⟨exists_located_of_parse quiet failed, ?_, ?_, exists_origin_of_parse quiet failed⟩
  · intro part signs outer pending before cause reduces fails
    rcases reduces.parse_of_fails quiet fails failed with
      ⟨sameCause, inner, sign, others, split, sameLength, mem, sameOperator, located⟩
    have atLevel : (signs.map Sign.token).Sublist part.leaves := by
      rcases reduces with ⟨_, _, _, comes, _⟩
      exact comes.sublist
    have begins : BeginsRun signs sign := beginsRun_of_mem_runs (by simp [split])
    exact ⟨sameCause, inner, sign, others, atLevel, split, sameLength, begins, sameOperator, mem,
      located⟩
  · intro term failing scope cause resolves fails
    rcases resolves.parse_of_fails quiet fails failed with ⟨sameCause, located⟩
    rcases fails.exists_token (resolves.placed quiet) with
      ⟨before, token, behind, operator, operand, split, isOperator, rfl, stands⟩
    exact ⟨sameCause, before, token, behind, operator, operand, split, isOperator, rfl, stands,
      located⟩

theorem parse_locates_failures_first_of_run :
    let settings : Settings Unit := {}
    let session : Session Unit := fresh ()
    let text := "1 +\n  8 / 4 / 0"
    let buffer := (session.feed text).buffer settings
    ∃ failure after, session.parse settings text = (.error failure, after) ∧
      failure.cause = .divideByZero ∧
      ∃ part signs outer pending before sign,
        session.Reduces settings text part signs outer pending before ∧
        pending.Fails before.scope .divideByZero ∧ BeginsRun signs sign ∧
        sign.operator = pending.operator ∧
        failure.location = some (buffer.place sign.token) ∧ sign.token.start = ⟨2, 5⟩ := by
  intro settings session text buffer
  have quiet : settings.hooks = .none := rfl
  have run : (match (session.parse settings text).1 with
      | .error failure => some (failure.cause, failure.location.map fun location =>
          (⟨location.line, location.column⟩ : Position))
      | .ok _ => none) = some (.divideByZero, some ⟨2, 5⟩) := by decide +kernel
  have noUnary : ∀ token ∈ buffer.tokens, token.start = ⟨2, 5⟩ → token.unary? = none := by
    decide +kernel
  rcases parsed : session.parse settings text with ⟨failure | value, after⟩
  · simp only [parsed, Option.some.injEq, Prod.mk.injEq] at run
    rcases run with ⟨cause, place⟩
    have startsThere {token : Token} (located : failure.location = some (buffer.place token)) :
        token.start = ⟨2, 5⟩ := by
      rw [located] at place
      exact Option.some.inj place
    rcases parse_locates_failures quiet parsed with ⟨_, ofReduction, ofUnary, origin⟩
    rcases origin (by rw [cause]; trivial) with
      ⟨part, signs, outer, pending, before, reduces, fails⟩ |
      ⟨term, scope, failing, resolves, fails⟩
    · rcases ofReduction reduces fails with
        ⟨_, _, sign, _, _, _, _, begins, sameOperator, _, located⟩
      rw [cause] at fails
      exact ⟨failure, after, rfl, cause, part, signs, outer, pending, before, sign, reduces, fails,
        begins, sameOperator, located, startsThere located⟩
    · rcases ofUnary resolves fails with
        ⟨_, front, token, behind, operator, _, split, isUnary, _, _, located⟩
      have mem : token ∈ buffer.tokens := by
        rw [split]
        simp
      cases isUnary.symm.trans (noUnary token mem (startsThere located))
  · simp [parsed] at run

end Session

end BlockCalc
