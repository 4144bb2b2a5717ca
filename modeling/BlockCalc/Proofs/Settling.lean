import BlockCalc.Proofs.Reach

/-!
# Where operators are reduced

Pending operators are reduced when something comes up behind an operand that makes them give way:
the end of the expression or an operator. An evaluation that fails for what an operator is applied
to fails while it reduces one, at some bracket level that it has come to, or while it resolves an
operand that stands alone. Conversely, whatever fails there is what the evaluation fails with.
-/

namespace BlockCalc

variable {σ : Type}

/-- What comes up, an operator or the end of the expression, makes the pending operator reduce. -/
def Pending.GivesWay (pending : Pending) (upcoming : Option BinaryOp) : Prop :=
  ∀ operator ∈ upcoming,
    pending.operator ≠ operator ∧ pending.operator.bindsBefore operator = true

/-- An expression behind an operand: the operators that wait, the operand, and the session. -/
structure Stage (σ : Type) where
  pending : List Pending
  term : Term
  session : Session σ

namespace Eval

/-- What comes up reduces operators one after the other, from one stage to another. -/
inductive Settles (settings : Settings σ) (upcoming : Option BinaryOp) :
    Stage σ → Stage σ → Prop where
  | refl (stage : Stage σ) : Settles settings upcoming stage stage
  | reduced {top : Pending} {outer : List Pending} {term : Term} {session after : Session σ}
      {value : Value} {last : Stage σ} (gives : top.GivesWay upcoming)
      (ran : reduce settings (top.push term) session = .ok value after)
      (further : Settles settings upcoming ⟨outer, .value value top.location, after⟩ last) :
      Settles settings upcoming ⟨top :: outer, term, session⟩ last

/-- What comes up at a stage fails: the next reduction, or the last operand if nothing waits. -/
inductive Breaks (settings : Settings σ) (failure : Failure) (stopped : Session σ) :
    Option BinaryOp → Stage σ → Prop where
  | reduction {upcoming : Option BinaryOp} {top : Pending} {outer : List Pending} {term : Term}
      {session : Session σ} (gives : top.GivesWay upcoming)
      (failed : reduce settings (top.push term) session = .error failure stopped) :
      Breaks settings failure stopped upcoming ⟨top :: outer, term, session⟩
  | alone {term : Term} {session : Session σ}
      (failed : resolve term session = .error failure stopped) :
      Breaks settings failure stopped none ⟨[], term, session⟩

/-- What is ahead behind an operand comes up, and the session in which it does. -/
inductive ComesUp (session : Session σ) : Forest → Option BinaryOp → Session σ → Prop where
  | closer : ComesUp session .nil none session
  | separator {token : Token} (rest : Forest) (separator : token.isSeparator = true) :
      ComesUp session (.leaf token rest) none { session with position := session.position + 1 }
  | operator {token : Token} (rest : Forest) {operator : BinaryOp}
      (stands : token.binary? = some operator) :
      ComesUp session (.leaf token rest) (some operator)
        { session with position := session.position + 1 }

/-- At a bracket level, a part has been read up to an operand, and something comes up behind it. -/
structure Halts (settings : Settings σ) (level : Moment σ) (part : Forest)
    (upcoming : Option BinaryOp) (stage : Stage σ) : Prop where
  stands : ∃ rest reached, level.ahead = part.append rest ∧
    read settings level.enclosure part level.phase level.session =
      .ok (.operator stage.pending stage.term) reached ∧
    ComesUp reached rest upcoming stage.session

/--
The bracket levels that reading gets into, the outermost one included, each as the moment at which
nothing of it has been read.
-/
inductive Level (settings : Settings σ) (outermost : Moment σ) : Moment σ → Prop where
  | outermost : Level settings outermost outermost
  | inside {level : Moment σ} {enclosure : Enclosure} {phase first : Phase}
      {part inner rest : Forest} {bracket : Bracket} {opener closer : Token}
      {reached entered : Session σ} (outside : Level settings outermost level)
      (ahead : level.ahead = part.append (.nest bracket opener inner closer rest))
      (ran : read settings level.enclosure part level.phase level.session = .ok phase reached)
      (opens : openBracket settings level.enclosure bracket opener phase reached =
        .ok (enclosure, first) entered) :
      Level settings outermost ⟨enclosure, first, inner, entered⟩

/-- Operators break at one of the bracket levels. -/
def Broken (settings : Settings σ) (outermost : Moment σ) (failure : Failure)
    (stopped : Session σ) : Prop :=
  ∃ level part upcoming first stage, Level settings outermost level ∧
    Halts settings level part upcoming first ∧ Settles settings upcoming first stage ∧
    Breaks settings failure stopped upcoming stage

section Breaking

variable {settings : Settings σ} {failure : Failure} {stopped : Session σ}

/-- A reduction fails at once, or behind it what comes up at the next stage fails. -/
theorem reduce_bind_eq_error_iff {α : Type} {upcoming : Option BinaryOp} {top : Pending}
    (gives : top.GivesWay upcoming) {outer : List Pending} {further : Value → Eval σ α}
    (next : ∀ value after, further value after = .error failure stopped ↔
      ∃ stage, Settles settings upcoming ⟨outer, .value value top.location, after⟩ stage ∧
        Breaks settings failure stopped upcoming stage)
    (term : Term) (session : Session σ) :
    (do further (← reduce settings (top.push term))) session = .error failure stopped ↔
      ∃ stage, Settles settings upcoming ⟨top :: outer, term, session⟩ stage ∧
        Breaks settings failure stopped upcoming stage := by
  constructor
  · intro failed
    rcases exists_of_bind_error failed with failed | ⟨value, after, ran, failed⟩
    · exact ⟨_, .refl _, .reduction gives failed⟩
    · rcases (next value after).mp failed with ⟨stage, settles, breaks⟩
      exact ⟨stage, .reduced gives ran settles, breaks⟩
  · rintro ⟨stage, settles, breaks⟩
    cases settles with
    | refl =>
        cases breaks with
        | reduction _ failed => exact bind_of_error failed
    | reduced _ ran settles =>
        rw [bind_of_ok ran]
        exact (next _ _).mpr ⟨stage, settles, breaks⟩

/-- An expression that ends fails for the first reduction that fails, or for its last operand. -/
theorem collapse_eq_error_iff {pending : List Pending} {term : Term} {session : Session σ} :
    collapse settings pending term session = .error failure stopped ↔
      ∃ stage, Settles settings none ⟨pending, term, session⟩ stage ∧
        Breaks settings failure stopped none stage := by
  induction pending generalizing term session with
  | nil =>
      constructor
      · intro failed
        exact ⟨_, .refl _, .alone failed⟩
      · rintro ⟨stage, settles, breaks⟩
        cases settles
        cases breaks with
        | alone failed => exact failed
  | cons top outer ih =>
      have gives : top.GivesWay none := by
        intro operator impossible
        cases impossible
      exact reduce_bind_eq_error_iff gives (fun _ _ => ih) term session

/-- Where the innermost operator does not give way, the one that comes up goes on the stack. -/
theorem exists_pushOperator_of_stays {operator : BinaryOp} {top : Pending}
    (stays : ¬top.GivesWay (some operator)) (location : Location) (outer : List Pending)
    (term : Term) (session : Session σ) :
    ∃ pushed, pushOperator settings operator location (top :: outer) term session =
      .ok pushed session := by
  simp only [pushOperator]
  split
  · exact ⟨_, rfl⟩
  · rename_i other
    split
    · rename_i before
      refine absurd (fun upcoming same => ?_) stays
      cases same
      exact ⟨other, before⟩
    · exact ⟨_, rfl⟩

/-- Putting an operator on the stack fails for the first reduction that fails. -/
theorem pushOperator_eq_error_iff {operator : BinaryOp} {location : Location}
    {pending : List Pending} {term : Term} {session : Session σ} :
    pushOperator settings operator location pending term session = .error failure stopped ↔
      ∃ stage, Settles settings (some operator) ⟨pending, term, session⟩ stage ∧
        Breaks settings failure stopped (some operator) stage := by
  induction pending generalizing term session with
  | nil =>
      constructor
      · intro impossible
        cases impossible
      · rintro ⟨stage, settles, breaks⟩
        cases settles
        cases breaks
  | cons top outer ih =>
      by_cases gives : top.GivesWay (some operator)
      · rcases gives operator rfl with ⟨other, before⟩
        simp only [pushOperator, other, before, if_true, if_false]
        exact reduce_bind_eq_error_iff gives (fun _ _ => ih) term session
      · rcases exists_pushOperator_of_stays gives location outer term session with ⟨pushed, stays⟩
        constructor
        · intro failed
          cases stays.symm.trans failed
        · rintro ⟨stage, settles, breaks⟩
          cases settles with
          | refl =>
              cases breaks with
              | reduction givesWay _ => exact absurd givesWay gives
          | reduced givesWay _ _ => exact absurd givesWay gives

/-- What reading a moment to its end comes to, where `next` closes it. -/
def ends (settings : Settings σ) (moment : Moment σ) (next : Option Token) :
    EStateM.Result Failure (Session σ) Value :=
  (do finish settings next (← read settings moment.enclosure moment.ahead moment.phase))
    moment.session

/-- A level at which operators break does not end in any other way. -/
theorem Halts.ends_of_breaks {level : Moment σ} {part : Forest} {upcoming : Option BinaryOp}
    {first stage : Stage σ} (halts : Halts settings level part upcoming first)
    (settles : Settles settings upcoming first stage)
    (breaks : Breaks settings failure stopped upcoming stage) (next : Option Token) :
    ends settings level next = .error failure stopped := by
  rcases halts.stands with ⟨rest, reached, ahead, ran, comesUp⟩
  rw [ends, ahead, read_append, bind_assoc, bind_of_ok ran]
  rcases first with ⟨pending, term, session⟩
  dsimp only at comesUp ⊢
  cases comesUp with
  | closer => exact collapse_eq_error_iff.mpr ⟨stage, settles, breaks⟩
  | @separator token rest separator =>
      apply bind_of_error
      rw [read_leaf, bind_of_ok (advance_eq_ok reached)]
      apply bind_of_error
      rw [(Does.concludes separator).run_eq]
      exact bind_of_error (collapse_eq_error_iff.mpr ⟨stage, settles, breaks⟩)
  | @operator token rest operator stands =>
      apply bind_of_error
      rw [read_leaf, bind_of_ok (advance_eq_ok reached)]
      apply bind_of_error
      rw [(Does.pushes (.operator pending term) stands).run_eq]
      exact bind_of_error (pushOperator_eq_error_iff.mpr ⟨stage, settles, breaks⟩)

theorem contents_of_ends {enclosure : Enclosure} {phase : Phase} {inner : Forest} {closer : Token}
    {session : Session σ}
    (failed : ends settings ⟨enclosure, phase, inner, session⟩ (some closer) =
      .error failure stopped) :
    contents settings enclosure phase inner closer session = .error failure stopped := by
  rcases exists_of_bind_error failed with unread | ⟨last, after, ran, unfinished⟩
  · exact bind_of_error unread
  · rw [contents, bind_of_ok ran]
    exact bind_of_error unfinished

theorem Level.ends {outermost level : Moment σ} (inside : Level settings outermost level)
    (failed : ∀ next, Eval.ends settings level next = .error failure stopped)
    (next : Option Token) : Eval.ends settings outermost next = .error failure stopped := by
  induction inside with
  | outermost => exact failed next
  | @inside level enclosure phase first part inner rest bracket opener closer reached entered
      outside ahead ran opens ih =>
      apply ih
      intro next
      have unread := read_nest_of_error opens (contents_of_ends (failed (some closer))) rest
      rw [Eval.ends, ahead, read_append, bind_assoc, bind_of_ok ran]
      exact bind_of_error unread

/-- What fails when operators break is the whole evaluation. -/
theorem Broken.ends {outermost : Moment σ} (broken : Broken settings outermost failure stopped)
    (next : Option Token) : Eval.ends settings outermost next = .error failure stopped := by
  rcases broken with ⟨level, part, upcoming, first, stage, inside, halts, settles, breaks⟩
  exact inside.ends (halts.ends_of_breaks settles breaks) next

section Moving

variable {enclosure : Enclosure} {phase : Phase} {session : Session σ}

theorem Level.trans {outermost middle level : Moment σ} (outer : Level settings outermost middle)
    (inner : Level settings middle level) : Level settings outermost level := by
  induction inner with
  | outermost => exact outer
  | inside _ ahead ran opens ih => exact .inside ih ahead ran opens

theorem read_append_of_ok {part front : Forest} {next last : Phase} {after reached : Session σ}
    (ran : read settings enclosure part phase session = .ok next after)
    (further : read settings enclosure front next after = .ok last reached) :
    read settings enclosure (part.append front) phase session = .ok last reached := by
  rw [read_append, bind_of_ok ran, further]

/-- A level behind a part that has been read is a level of the whole, unless it is the outermost. -/
theorem Level.past {part rest : Forest} {next : Phase} {after : Session σ} {level : Moment σ}
    (ran : read settings enclosure part phase session = .ok next after)
    (inside : Level settings ⟨enclosure, next, rest, after⟩ level) :
    level = ⟨enclosure, next, rest, after⟩ ∨
      Level settings ⟨enclosure, phase, part.append rest, session⟩ level := by
  induction inside with
  | outermost => exact Or.inl rfl
  | inside _ ahead further opens ih =>
      rcases ih with rfl | outside
      · dsimp only at ahead further opens
        rw [ahead, ← Forest.append_assoc]
        exact Or.inr (.inside .outermost rfl (read_append_of_ok ran further) opens)
      · exact Or.inr (.inside outside ahead further opens)

theorem Halts.past {part rest front : Forest} {next : Phase} {after : Session σ}
    {upcoming : Option BinaryOp} {stage : Stage σ}
    (ran : read settings enclosure part phase session = .ok next after)
    (halts : Halts settings ⟨enclosure, next, rest, after⟩ front upcoming stage) :
    Halts settings ⟨enclosure, phase, part.append rest, session⟩ (part.append front) upcoming
      stage := by
  rcases halts.stands with ⟨behind, reached, ahead, further, comesUp⟩
  dsimp only at ahead further
  refine ⟨behind, reached, ?_, read_append_of_ok ran further, comesUp⟩
  dsimp only
  rw [ahead, Forest.append_assoc]

/-- What breaks behind a part that has been read breaks where the part begins. -/
theorem Broken.past {part rest : Forest} {next : Phase} {after : Session σ}
    (ran : read settings enclosure part phase session = .ok next after)
    (broken : Broken settings ⟨enclosure, next, rest, after⟩ failure stopped) :
    Broken settings ⟨enclosure, phase, part.append rest, session⟩ failure stopped := by
  rcases broken with ⟨level, front, upcoming, first, stage, inside, halts, settles, breaks⟩
  rcases inside.past ran with rfl | outside
  · exact ⟨_, _, upcoming, first, stage, .outermost, halts.past ran, settles, breaks⟩
  · exact ⟨level, front, upcoming, first, stage, outside, halts, settles, breaks⟩

/-- What breaks in a bracket breaks outside. -/
theorem Broken.into {inside : Enclosure} {bracket : Bracket} {opener : Token} {inner : Forest}
    {first : Phase} {entered : Session σ}
    (opens : openBracket settings enclosure bracket opener phase session =
      .ok (inside, first) entered)
    (broken : Broken settings ⟨inside, first, inner, entered⟩ failure stopped) (closer : Token)
    (rest : Forest) :
    Broken settings ⟨enclosure, phase, .nest bracket opener inner closer rest, session⟩ failure
      stopped := by
  have entry : Level settings ⟨enclosure, phase, .nest bracket opener inner closer rest, session⟩
      ⟨inside, first, inner, entered⟩ := by
    have start : Forest.nest bracket opener inner closer rest =
        Forest.nil.append (.nest bracket opener inner closer rest) := rfl
    exact .inside .outermost start rfl opens
  rcases broken with ⟨level, front, upcoming, stage, last, deeper, breaks⟩
  exact ⟨level, front, upcoming, stage, last, entry.trans deeper, breaks⟩

/-- What breaks behind the operand that has been read last breaks at this level. -/
theorem broken_of_comesUp {pending : List Pending} {term : Term} {ahead : Forest}
    {upcoming : Option BinaryOp} {start : Session σ}
    (comesUp : ComesUp session ahead upcoming start)
    (breaks : ∃ stage, Settles settings upcoming ⟨pending, term, start⟩ stage ∧
      Breaks settings failure stopped upcoming stage) :
    Broken settings ⟨enclosure, .operator pending term, ahead, session⟩ failure stopped := by
  rcases breaks with ⟨stage, settles, breaks⟩
  exact ⟨_, .nil, upcoming, _, stage, .outermost, ⟨ahead, session, rfl, rfl, comesUp⟩, settles,
    breaks⟩

end Moving

end Breaking

end Eval

end BlockCalc
