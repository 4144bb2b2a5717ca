import BlockCalc.Proofs.Origins
import BlockCalc.Proofs.Placing
import BlockCalc.Proofs.Settling

/-!
# Failures that speak of operands

Of all that happens while a program is read, only operators fail for what they are applied to, and
only behind an operand. So a failure that speaks of operands comes from operators that break at some
bracket level. `Moment.Placed` goes along, by which every moment is where the tokens say it is: past
what has been read, and into the brackets that have been opened.
-/

namespace BlockCalc

variable {σ α β : Type}

/-- The moment is in the text of a buffer, whose tokens outline what has been read. -/
structure Moment.Placed (buffer : Buffer) (outline : Outline) (moment : Moment σ) : Prop where
  holds : buffer.Holds moment.session
  matched : moment.ahead.Matched
  enclosed : moment.enclosure.Placed buffer
  stands : ∃ behind, moment.ahead.tokens ++ behind <:+ buffer.tokens ∧
    moment.phase.Placed buffer (moment.ahead.tokens ++ behind) outline

/-- At a bracket, what is ahead is its opener, what it holds, its closer, and the rest. -/
theorem Moment.Placed.nest {buffer : Buffer} {outline : Outline} {enclosure : Enclosure}
    {phase : Phase} {bracket : Bracket} {opener closer : Token} {inner rest : Forest}
    {session : Session σ}
    (placed : Moment.Placed buffer outline
      ⟨enclosure, phase, .nest bracket opener inner closer rest, session⟩) :
    ∃ behind, opener :: (inner.tokens ++ closer :: behind) <:+ buffer.tokens ∧
      phase.Placed buffer (opener :: (inner.tokens ++ closer :: behind)) outline := by
  rcases placed.stands with ⟨behind, within, stands⟩
  have tokens : (Forest.nest bracket opener inner closer rest).tokens ++ behind =
      opener :: (inner.tokens ++ closer :: (rest.tokens ++ behind)) := by
    simp [Forest.tokens]
  dsimp only at within stands
  rw [tokens] at within stands
  exact ⟨_, within, stands⟩

namespace Eval

variable {settings : Settings σ} {buffer : Buffer} {session stopped : Session σ}
  {failure : Failure}

section Rules

variable {good : α → Prop} {action : Eval σ α} {next : α → Eval σ β}

/-- Where an action has no operator to blame, what follows it has. -/
theorem Tells.exists_of_bind_operational (tells : Tells buffer buffer.Blames good action)
    (holds : buffer.Holds session)
    (failed : (action >>= next) session = .error failure stopped)
    (operational : failure.cause.IsOperational False) :
    ∃ result middle, action session = .ok result middle ∧
      (buffer.Holds middle ∧ good result) ∧
      next result middle = .error failure stopped :=
  (tells session holds).exists_of_bind_error failed fun blames =>
    blames.noOperation operational

/-- Where what follows an action has no operator to blame, the action has. -/
theorem Tells.error_of_bind_operational {blame : Failure → Prop} {results : β → Prop}
    (tells : Tells buffer blame good action)
    (follows : ∀ result, good result → Tells buffer buffer.Blames results (next result))
    (holds : buffer.Holds session)
    (failed : (action >>= next) session = .error failure stopped)
    (operational : failure.cause.IsOperational False) :
    action session = .error failure stopped := by
  have noneToBlame (result : α) (after : Session σ)
      (reached : buffer.Holds after ∧ good result) :
      Ensures (next result) after (fun value last => buffer.Holds last ∧ results value)
        (fun failure _ => buffer.Blames failure) :=
    follows result reached.2 after reached.1
  exact (tells session holds).error_of_bind noneToBlame failed fun blames =>
    blames.noOperation operational

end Rules

section Placed

variable {outline : Outline} {enclosure : Enclosure} {phase : Phase}

variable (sameFile : settings.fileName = buffer.fileName) (quiet : settings.hooks = .none)

include sameFile quiet

/-- Behind a part that has been read, the evaluation is in the same text. -/
theorem placed_past {part rest : Forest} {next : Phase} {after : Session σ}
    (placed : Moment.Placed buffer outline ⟨enclosure, phase, part.append rest, session⟩)
    (ran : read settings enclosure part phase session = .ok next after) :
    Moment.Placed buffer (outline.after part) ⟨enclosure, next, rest, after⟩ := by
  rcases placed with ⟨holds, matched, enclosed, behind, within, stands⟩
  dsimp only at holds enclosed within stands
  rcases Forest.matched_append_iff.mp matched with ⟨partMatched, restMatched⟩
  rw [Forest.tokens_append, List.append_assoc] at within stands
  rcases (tells_read sameFile quiet partMatched within enclosed stands session holds).of_ok ran with
    ⟨still, nextPlaced⟩
  exact ⟨still, restMatched, enclosed, behind, (List.suffix_append _ _).trans within, nextPlaced⟩

/-- In a bracket that has been opened, nothing has been read yet. -/
theorem placed_into {bracket : Bracket} {opener closer : Token} {inner rest : Forest}
    {inside : Enclosure} {first : Phase} {entered : Session σ}
    (placed : Moment.Placed buffer outline
      ⟨enclosure, phase, .nest bracket opener inner closer rest, session⟩)
    (opens : openBracket settings enclosure bracket opener phase session =
      .ok (inside, first) entered) :
    Moment.Placed buffer inside.outline ⟨inside, first, inner, entered⟩ := by
  rcases placed.nest with ⟨behind, within, stands⟩
  rcases (tells_openBracket sameFile quiet placed.enclosed stands within session
    placed.holds).of_ok opens with ⟨still, insidePlaced, firstPlaced⟩
  exact ⟨still, placed.matched.2.2.1, insidePlaced, _, (List.suffix_cons _ _).trans within,
    firstPlaced⟩

theorem Level.placed {outermost level : Moment σ} (inside : Level settings outermost level)
    (placed : Moment.Placed buffer outermost.enclosure.outline outermost) :
    Moment.Placed buffer level.enclosure.outline level := by
  induction inside with
  | outermost => exact placed
  | @inside level enclosure phase first part inner rest bracket opener closer reached entered
      outside ahead ran opens ih =>
      rcases level with ⟨around, start, whole, session⟩
      cases ahead
      exact placed_into sameFile quiet (placed_past sameFile quiet ih ran) opens

end Placed

section Backward

variable {outline : Outline} {enclosure : Enclosure} {phase : Phase}

variable (sameFile : settings.fileName = buffer.fileName) (quiet : settings.hooks = .none)

include sameFile quiet

/-- An expression that cannot end for what an operator is applied to breaks at its end. -/
theorem broken_of_finish {ahead : List Token} (placed : phase.Placed buffer ahead outline)
    (holds : buffer.Holds session) {next : Option Token}
    (behind : ∀ token ∈ next, token ∈ buffer.tokens)
    (begun : next = none → outline ≠ .operand [] [])
    (failed : finish settings next phase session = .error failure stopped)
    (operational : failure.cause.IsOperational False) :
    Broken settings ⟨enclosure, phase, .nil, session⟩ failure stopped := by
  have finishes := tells_finish sameFile quiet placed behind begun
  have blames := (finishes session holds).of_error failed
  cases phase with
  | operator pending term => exact broken_of_comesUp .closer (collapse_eq_error_iff.mp failed)
  | _ => exact (blames.behindOperand operational).elim

/-- A token that cannot be read for what an operator is applied to comes up behind an operand. -/
theorem broken_of_readToken {token : Token} {rest : Forest}
    (placed : Moment.Placed buffer outline ⟨enclosure, phase, .leaf token rest, session⟩)
    (failed : readToken settings enclosure token phase
      { session with position := session.position + 1 } = .error failure stopped)
    (operational : failure.cause.IsOperational False) :
    Broken settings ⟨enclosure, phase, .leaf token rest, session⟩ failure stopped := by
  rcases placed with ⟨holds, _, enclosed, behind, within, stands⟩
  have advancedHolds : buffer.Holds { session with position := session.position + 1 } := holds
  have reads := tells_readToken sameFile quiet enclosed stands within
  have blames := (reads _ advancedHolds).of_error failed
  rcases exists_does settings { session with position := session.position + 1 } enclosure token
    phase with ⟨deed, does⟩
  rw [does.run_eq] at failed
  cases does with
  | turns leads => cases failed
  | refuses refuses =>
      cases failed
      have refused := refuses.blames advancedHolds sameFile enclosed stands within
      exact (refused.noOperation operational).elim
  | pushes offers writes =>
      cases offers with
      | operator pending term =>
          rcases exists_of_bind_error failed with unpushed | ⟨_, _, _, impossible⟩
          · exact broken_of_comesUp (.operator rest writes) (pushOperator_eq_error_iff.mp unpushed)
          · cases impossible
      | _ => exact (blames.behindOperand operational).elim
  | declares keyword identifier => exact (blames.behindOperand operational).elim
  | concludes separator =>
      cases stands with
      | operator waits termPlaced =>
          have ending : Tells buffer buffer.Blames (fun _ => True)
              (do endExpression enclosure; return Phase.statement .void : Eval σ Phase) :=
            (tells_endExpression enclosed).bind fun _ _ => .pure trivial
          have collapses := tells_collapse quiet waits termPlaced
          have unfinished := collapses.error_of_bind_operational (fun _ _ => ending)
            advancedHolds failed operational
          exact broken_of_comesUp (.separator rest separator)
            (collapse_eq_error_iff.mp unfinished)

/-- A level that has been read and cannot end for what an operator is applied to breaks. -/
theorem broken_of_end {forest : Forest} {last : Phase} {after : Session σ}
    (placed : Moment.Placed buffer outline ⟨enclosure, phase, forest, session⟩)
    (ran : read settings enclosure forest phase session = .ok last after) {next : Option Token}
    (behind : ∀ token ∈ next, token ∈ buffer.tokens)
    (begun : next = none → outline ≠ .operand [] [])
    (failed : finish settings next last after = .error failure stopped)
    (operational : failure.cause.IsOperational False) :
    Broken settings ⟨enclosure, phase, forest, session⟩ failure stopped := by
  rw [← forest.append_nil] at placed ⊢
  rcases placed_past sameFile quiet placed ran with ⟨holds, _, _, _, _, stands⟩
  have begunAfter (isEnd : next = none) : outline.after forest ≠ .operand [] [] :=
    Outline.after_ne_nothing (begun isEnd) forest
  exact .past ran
    (broken_of_finish sameFile quiet stands holds behind begunAfter failed operational)

section Bracket

variable {bracket : Bracket} {opener closer : Token} {inner rest : Forest}
  (placed : Moment.Placed buffer outline
    ⟨enclosure, phase, .nest bracket opener inner closer rest, session⟩)
  (breaks : ∀ {inside : Enclosure} {outline : Outline} {first : Phase} {entered : Session σ},
    Moment.Placed buffer outline ⟨inside, first, inner, entered⟩ →
      read settings inside inner first entered = .error failure stopped →
        Broken settings ⟨inside, first, inner, entered⟩ failure stopped)

include placed breaks

/-- What a bracket holds breaks in it, as its closer has no operators to blame. -/
theorem broken_of_contents {inside : Enclosure} {first : Phase} {entered : Session σ}
    (opens : openBracket settings enclosure bracket opener phase session =
      .ok (inside, first) entered)
    (failed : contents settings inside first inner closer entered = .error failure stopped)
    (operational : failure.cause.IsOperational False) :
    Broken settings ⟨enclosure, phase, .nest bracket opener inner closer rest, session⟩ failure
      stopped := by
  have insidePlaced := placed_into sameFile quiet placed opens
  refine Broken.into opens ?_ closer rest
  rcases exists_of_bind_error failed with unread | ⟨last, after, ran, failed⟩
  · exact breaks insidePlaced unread
  · have wholePlaced := insidePlaced
    rw [← inner.append_nil] at wholePlaced
    rcases placed_past sameFile quiet wholePlaced ran with ⟨holds, _, _, _, _, lastPlaced⟩
    rcases placed.nest with ⟨behind, within, _⟩
    have behindCloser : ∀ token ∈ some closer, token ∈ buffer.tokens := by
      rintro token ⟨⟩
      exact within.subset (by simp)
    have closes (value : Value) : Tells buffer buffer.Blames (fun _ => True)
        (do closeGroup closer; return value : Eval σ Value) :=
      (tells_closeGroup closer).bind fun _ _ => .pure trivial
    have unfinished :=
      (tells_finish sameFile quiet lastPlaced behindCloser (by simp)).error_of_bind_operational
        (fun value _ => closes value) holds failed operational
    exact broken_of_end sameFile quiet insidePlaced ran behindCloser (by simp) unfinished
      operational

/-- A bracket breaks only in what it holds. -/
theorem broken_of_nest
    (failed : read settings enclosure (.nest bracket opener inner closer .nil) phase session =
      .error failure stopped)
    (operational : failure.cause.IsOperational False) :
    Broken settings ⟨enclosure, phase, .nest bracket opener inner closer rest, session⟩ failure
      stopped := by
  rcases placed.nest with ⟨behind, within, stands⟩
  have mem : closer ∈ buffer.tokens := within.subset (by simp)
  have shows : buffer.Shows (buffer.place opener) := ⟨opener, within.subset (by simp), rfl⟩
  have inside := (List.suffix_cons opener _).trans within
  have reads {around : Enclosure} {start : Outline} {first : Phase}
      (enclosed : around.Placed buffer)
      (firstPlaced : first.Placed buffer (inner.tokens ++ closer :: behind) start) :=
    tells_read sameFile quiet placed.matched.2.2.1 inside enclosed firstPlaced
  rw [read_nest] at failed
  rcases (tells_beforeBracket sameFile placed.enclosed stands within).exists_of_bind_operational
    placed.holds failed operational with
    ⟨⟨pending, unary⟩, ready, before, ⟨readyHolds, signs, waits, _⟩, unopened⟩
  dsimp only at before waits unopened
  have located : locate settings opener ready = .ok (buffer.place opener) ready := by
    rw [Buffer.place, ← sameFile, ← readyHolds.1]
    rfl
  rw [bind_of_ok located, bind_of_ok (advance_eq_ok ready)] at unopened
  have advancedHolds : buffer.Holds { ready with position := ready.position + 1 } := readyHolds
  rcases (tells_openGroup bracket shows).exists_of_bind_operational advancedHolds unopened
    operational with ⟨group, opened, grouped, ⟨openedHolds, sameLocation⟩, unenclosed⟩
  have follows (value : Value) : Tells buffer buffer.Blames (fun _ => True) (do
      read settings enclosure .nil
        (← afterBracket settings bracket pending unary value (buffer.place opener))) := by
    have closes : Tells buffer buffer.Blames
        (Phase.Placed buffer behind (Outline.nestAt bracket signs unary))
        (afterBracket settings bracket pending unary value (buffer.place opener)) :=
      tells_afterBracket sameFile waits value
    exact closes.bind fun _ _ => .pure trivial
  have unread := (tells_enclosed sameFile quiet shows sameLocation inside mem
    reads).error_of_bind_operational (fun value _ => follows value) openedHolds unenclosed
    operational
  cases bracket with
  | round =>
      refine broken_of_contents sameFile quiet placed breaks ?_ unread operational
      rw [openBracket, bind_of_ok before, bind_of_ok located, bind_of_ok (advance_eq_ok ready),
        bind_of_ok grouped]
      rfl
  | curly =>
      rcases (tells_enterBlock quiet _).exists_of_bind_operational openedHolds unread
        operational with ⟨_, entered, enters, ⟨enteredHolds, _⟩, failedBlock⟩
      have opens : openBracket settings enclosure .curly opener phase session =
          .ok (.statements, .statement .void) entered := by
        rw [openBracket, bind_of_ok before, bind_of_ok located, bind_of_ok (advance_eq_ok ready),
          bind_of_ok grouped]
        exact bind_of_ok enters
      have inBlock : Enclosure.Placed buffer .statements := trivial
      have exits (value : Value) : Tells buffer buffer.Blames (fun _ => True)
          (do exitBlock settings (buffer.place opener); return value) :=
        (tells_exitBlock quiet _).bind fun _ _ => .pure trivial
      have unread := (tells_contents sameFile quiet mem
        (reads inBlock (.statement .void))).error_of_bind_operational (fun value _ => exits value)
        enteredHolds failedBlock operational
      exact broken_of_contents sameFile quiet placed breaks opens unread operational

end Bracket

/-- A failure that speaks of operands comes from operators that break at some level. -/
theorem broken_of_read {forest : Forest}
    (placed : Moment.Placed buffer outline ⟨enclosure, phase, forest, session⟩)
    (failed : read settings enclosure forest phase session = .error failure stopped)
    (operational : failure.cause.IsOperational False) :
    Broken settings ⟨enclosure, phase, forest, session⟩ failure stopped := by
  induction forest generalizing enclosure phase session outline with
  | nil => cases failed
  | leaf token rest ih =>
      rw [read_leaf, bind_of_ok (advance_eq_ok session)] at failed
      cases ran : readToken settings enclosure token phase
          { session with position := session.position + 1 } with
      | ok next after =>
          rw [bind_of_ok ran] at failed
          have one : read settings enclosure (.leaf token .nil) phase session = .ok next after :=
            read_leaf_of_ok ran .nil
          have parts : Forest.leaf token rest = (Forest.leaf token .nil).append rest := rfl
          rw [parts] at placed ⊢
          exact .past one (ih (placed_past sameFile quiet placed one) failed)
      | error raised broken =>
          rw [bind_of_error ran] at failed
          cases failed
          exact broken_of_readToken sameFile quiet placed ran operational
  | nest bracket opener inner closer rest ihInner ihRest =>
      rcases placed.matched.2.1 with ⟨closer, rfl, _⟩
      have parts : Forest.nest bracket opener inner closer rest =
          (Forest.nest bracket opener inner closer .nil).append rest := rfl
      rw [parts, read_append] at failed
      rcases exists_of_bind_error failed with unread | ⟨next, after, ran, failed⟩
      · exact broken_of_nest sameFile quiet placed
          (fun innerPlaced innerFailed => ihInner innerPlaced innerFailed) unread operational
      · rw [parts] at placed ⊢
        exact .past ran (ihRest (placed_past sameFile quiet placed ran) failed)

variable {moment : Moment σ} (placed : Moment.Placed buffer outline moment)
  (begun : outline ≠ .operand [] []) (failed : ends settings moment none = .error failure stopped)

include placed begun failed

/-- Reading to the end fails at a token, for all causes that can be handled. -/
theorem locates_of_ends : buffer.Locates failure := by
  rcases placed with ⟨holds, matched, enclosed, behind, within, stands⟩
  have tells : Tells buffer buffer.Locates (fun _ => True) (do
      finish settings none (← read settings moment.enclosure moment.ahead moment.phase)) := by
    apply (tells_read sameFile quiet matched within enclosed stands).bind
    intro last lastPlaced
    exact (tells_finish sameFile quiet lastPlaced (by simp)
      fun _ => Outline.after_ne_nothing begun _).mono fun _ blames => blames.locates
  exact (tells moment.session holds).of_error failed

theorem broken_of_ends (operational : failure.cause.IsOperational False) :
    Broken settings moment failure stopped := by
  rcases exists_of_bind_error failed with unread | ⟨last, after, ran, unfinished⟩
  · exact broken_of_read sameFile quiet placed unread operational
  · exact broken_of_end sameFile quiet placed ran (by simp) (fun _ => begun) unfinished operational

end Backward

end Eval

end BlockCalc
