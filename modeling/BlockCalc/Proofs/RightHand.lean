import BlockCalc.Proofs.Spine
import BlockCalc.Proofs.StandAlone

/-!
# The right-hand side of an assignment

What stands on the right of an assignment is read as it is read in round brackets, as long as it
holds no assignment and no separator outside its own brackets. The assignment waits at the bottom of
the pending operators and binds less tightly than all that comes above it, so that nothing touches
it before the expression ends. Only a block shows a difference: in round brackets it may stand
alone, and behind an assignment it is an operand from the start. But where that matters both
readings fail at the same token. So the reading does not depend on the assignment either, neither on
its operator nor on its targets.
-/

namespace BlockCalc

variable {σ α β γ δ : Type}

/-- Outside its own brackets, the part has neither separators nor assignments. -/
def Forest.IsRightHand : Forest → Prop
  | nil => True
  | leaf token rest =>
      token.isSeparator = false ∧
        (∀ operator, token.binary? = some operator → operator.isAssignment = false) ∧
          rest.IsRightHand
  | nest _ _ _ _ rest => rest.IsRightHand

/-- The phase of an expression that is read behind an assignment instead of in round brackets. -/
def Phase.behind (base : Pending) : Phase → Phase
  | .operand pending unary => .operand (pending ++ [base]) unary
  | .operator pending term => .operator (pending ++ [base]) term
  | .block value location => .operator [base] (.value value location)
  | phase => phase

namespace Eval

/--
From a session, the action that knows the assignment before it does what the other one does, with
results that are changed by `lift`. Where the other one fails, it fails with a failure that is the
same for all assignments, but need not be that of the other one.
-/
def Lifts (inside : Eval σ α) (behind : Pending → Eval σ β) (lift : Pending → α → β)
    (good : α → Prop) (session : Session σ) : Prop :=
  Ensures inside session
    (fun result after => good result ∧ ∀ base : Pending, base.operator.isAssignment = true →
      behind base session = .ok (lift base result) after)
    (fun _ stopped => ∃ failure, ∀ base : Pending, base.operator.isAssignment = true →
      behind base session = .error failure stopped)

namespace Lifts

variable {inside : Eval σ α} {behind : Pending → Eval σ β} {lift : Pending → α → β}
  {good : α → Prop} {session : Session σ}

theorem of_map (same : ∀ base : Pending, base.operator.isAssignment = true →
      behind base = lift base <$> inside)
    (ensures : Ensures inside session (fun result _ => good result) (fun _ _ => True)) :
    Lifts inside behind lift good session := by
  simp only [Lifts, Ensures] at ensures ⊢
  cases ran : inside session with
  | ok result after =>
      simp only [ran] at ensures
      refine ⟨ensures, fun base assigns => ?_⟩
      rw [same base assigns]
      change EStateM.map _ _ session = _
      simp only [EStateM.map, ran]
  | error failure stopped =>
      refine ⟨failure, fun base assigns => ?_⟩
      rw [same base assigns]
      change EStateM.map _ _ session = _
      simp only [EStateM.map, ran]

theorem congr {other : Eval σ α} (same : inside session = other session)
    (lifts : Lifts other behind lift good session) : Lifts inside behind lift good session := by
  rwa [Lifts, Ensures, same]

theorem congr_behind {other : Pending → Eval σ β}
    (same : ∀ base : Pending, base.operator.isAssignment = true →
      behind base session = other base session)
    (lifts : Lifts inside other lift good session) : Lifts inside behind lift good session := by
  apply lifts.mono
  · rintro result after ⟨holds, ran⟩
    exact ⟨holds, fun base assigns => (same base assigns).trans (ran base assigns)⟩
  · rintro _ stopped ⟨failure, ran⟩
    exact ⟨failure, fun base assigns => (same base assigns).trans (ran base assigns)⟩

/-- What has nothing to do with the assignment is the same behind it. -/
theorem same (action : Eval σ α) (session : Session σ) :
    Lifts action (fun _ => action) (fun _ result => result) (fun _ => True) session :=
  of_map (fun _ _ => (id_map action).symm) (ensures_trivial action session)

theorem fail {cause otherCause : Cause} {location otherLocation : Option Location} :
    Lifts (Eval.fail cause location) (fun _ => Eval.fail otherCause otherLocation) lift good
      session :=
  ⟨_, fun _ _ => rfl⟩

theorem pure {result : α} (holds : good result) :
    Lifts (Pure.pure result : Eval σ α) (fun base => Pure.pure (lift base result)) lift good
      session :=
  ⟨holds, fun _ _ => rfl⟩

theorem bind {next : α → Eval σ γ} {behindNext : Pending → β → Eval σ δ}
    {liftNext : Pending → γ → δ} {goodNext : γ → Prop}
    (start : Lifts inside behind lift good session)
    (continues : ∀ result after, good result →
      Lifts (next result) (fun base => behindNext base (lift base result)) liftNext goodNext
        after) :
    Lifts (inside >>= next) (fun base => behind base >>= behindNext base) liftNext goodNext
      session := by
  rw [Lifts, ensures_bind]
  refine start.mono ?_ ?_
  · rintro result after ⟨holds, ran⟩
    apply (continues result after holds).mono
    · rintro last finished ⟨lastHolds, ranNext⟩
      exact ⟨lastHolds, fun base assigns =>
        (bind_of_ok (ran base assigns)).trans (ranNext base assigns)⟩
    · rintro _ stopped ⟨failure, ranNext⟩
      exact ⟨failure, fun base assigns =>
        (bind_of_ok (ran base assigns)).trans (ranNext base assigns)⟩
  · rintro _ stopped ⟨failure, ran⟩
    exact ⟨failure, fun base assigns => bind_of_error (ran base assigns)⟩

end Lifts

variable {settings : Settings σ} {base : Pending}

theorem priority_lt_of_assigns {operator : BinaryOp} (plain : operator.isAssignment = false)
    (assigns : base.operator.isAssignment = true) :
    operator.priority < base.operator.priority := by
  have assignmentPriority : base.operator.priority = 6 := by
    simpa [BinaryOp.isAssignment] using assigns
  have bound : operator.priority ≤ 6 := by cases operator <;> decide
  have differs : operator.priority ≠ 6 := by simpa [BinaryOp.isAssignment] using plain
  omega

/-- An assignment waits below all other operators. -/
theorem pushOperator_behind {operator : BinaryOp} (plain : operator.isAssignment = false)
    (assigns : base.operator.isAssignment = true) (location : Location) (pending : List Pending)
    (term : Term) :
    pushOperator settings operator location (pending ++ [base]) term =
      (· ++ [base]) <$> pushOperator settings operator location pending term := by
  induction pending generalizing term with
  | nil =>
      have looser : ∀ top ∈ [base].head?, operator.priority < top.operator.priority := by
        rintro _ ⟨⟩
        exact priority_lt_of_assigns plain assigns
      rw [List.nil_append, pushOperator_of_looser looser]
      rfl
  | cons top outer ih =>
      simp only [List.cons_append, pushOperator]
      split
      · rfl
      · split
        · simp only [ih, map_bind]
        · rfl

theorem lifts_pushOperator {operator : BinaryOp} (plain : operator.isAssignment = false)
    (location : Location) (pending : List Pending) (term : Term) (session : Session σ) :
    Lifts (do return .operand (← pushOperator settings operator location pending term) [])
      (fun base => do
        return .operand (← pushOperator settings operator location (pending ++ [base]) term) [])
      Phase.behind Phase.InExpression session := by
  have pushes : Lifts (pushOperator settings operator location pending term)
      (fun base => pushOperator settings operator location (pending ++ [base]) term)
      (fun base pushed => pushed ++ [base]) (fun _ => True) session :=
    .of_map (fun _ assigns => pushOperator_behind plain assigns location pending term)
      (ensures_trivial _ session)
  exact pushes.bind fun pushed after _ => ⟨trivial, fun _ _ => rfl⟩

theorem closing_behind (base : Pending) (site : Token → Location) (bracket : Bracket)
    (pending : List Pending) (unary : List Token) (value : Value) (location : Location) :
    Phase.closing site bracket (pending ++ [base]) unary value location =
      (Phase.closing site bracket pending unary value location).behind base := by
  cases bracket with
  | round => rfl
  | curly => rcases pending with _ | ⟨top, outer⟩ <;> cases unary <;> rfl

theorem inExpression_closing (site : Token → Location) (bracket : Bracket)
    (pending : List Pending) (unary : List Token) (value : Value) (location : Location) :
    (Phase.closing site bracket pending unary value location).InExpression := by
  cases bracket with
  | round => trivial
  | curly => cases pending <;> cases unary <;> trivial

section Reading

variable {group : Group} {phase : Phase} {session : Session σ} {token : Token}
  {upcoming : Option BinaryOp} {pending : List Pending} {unary : List Token}

theorem awaits_behind (awaits : phase.Awaits (.parenthesis group) upcoming pending unary)
    (inside : phase.InExpression) (base : Pending) :
    (phase.behind base).Awaits .statements upcoming (pending ++ [base]) unary := by
  cases awaits with
  | begins begins =>
      cases begins with
      | first last => exact inside.elim
      | next value location inStatements noOperator => cases inStatements
  | operand pending unary => exact .operand (pending ++ [base]) unary

theorem offers_behind {term : Term} (offers : phase.Offers settings session upcoming pending term)
    (inside : phase.InExpression) (base : Pending) :
    (phase.behind base).Offers settings session upcoming (pending ++ [base]) term := by
  cases offers with
  | operator pending term => exact .operator (pending ++ [base]) term
  | named isTerm => exact inside.elim
  | block value location follows => exact .operator [base] (.value value location)

theorem Leads.behind {next : Phase}
    (leads : Leads settings session (.parenthesis group) token phase next)
    (inside : phase.InExpression) (base : Pending) :
    Leads settings session .statements token (phase.behind base) (next.behind base) := by
  cases leads with
  | ends separator yields inStatements => cases inStatements
  | keyword isLet begins =>
      cases begins with
      | first last => exact inside.elim
      | next value location inStatements noOperator => cases inStatements
  | string awaits string => exact .string (awaits_behind awaits inside base) string
  | word awaits word isTerm => exact .word (awaits_behind awaits inside base) word isTerm
  | unary awaits punctuation isUnary =>
      exact .unary (awaits_behind awaits inside base) punctuation isUnary

/-- A token that is refused in round brackets is refused behind an assignment, for some reason. -/
theorem Refuses.exists_behind {failure : Failure}
    (refuses : Refuses settings session (.parenthesis group) token phase failure)
    (inside : phase.InExpression) (noSeparator : token.isSeparator = false) :
    ∃ other, ∀ base, Refuses settings session .statements token (phase.behind base) other := by
  have noBegin (base : Pending) {upcoming : Option BinaryOp}
      (begins : (phase.behind base).Begins .statements upcoming) : token.isLet = false := by
    cases phase <;> first | exact inside.elim | cases begins
  cases refuses with
  | unfinished separator unfinished => simp [noSeparator] at separator
  | ends separator yields inStatements => simp [noSeparator] at separator
  | behindBlock _ noOperator _ =>
      -- Both readings stop here, each for its own reason.
      exact ⟨_, fun base => .noOperator (.operator [base] (.value _ _)) noSeparator noOperator⟩
  | unnamed _ noName => exact inside.elim
  | word awaits word noKeyword noTerm =>
      exact ⟨_, fun base => .word (awaits_behind awaits inside base) word (noBegin base) noTerm⟩
  | illegal awaits punctuation noUnary isOperator =>
      exact ⟨_, fun base =>
        .illegal (awaits_behind awaits inside base) punctuation noUnary isOperator⟩
  | unknown awaits _ punctuation noUnary noOperator =>
      exact ⟨_, fun base =>
        .unknown (awaits_behind awaits inside base) noSeparator punctuation noUnary noOperator⟩
  | name _ noTerm => exact inside.elim
  | noOperator offers _ noOperator =>
      exact ⟨_, fun base => .noOperator (offers_behind offers inside base) noSeparator noOperator⟩

theorem lifts_readToken (inside : phase.InExpression) (noSeparator : token.isSeparator = false)
    (plain : ∀ operator, token.binary? = some operator → operator.isAssignment = false)
    (session : Session σ) :
    Lifts (readToken settings (.parenthesis group) token phase)
      (fun base => readToken settings .statements token (phase.behind base)) Phase.behind
      Phase.InExpression session := by
  rcases exists_does settings session (.parenthesis group) token phase with ⟨deed, does⟩
  apply Lifts.congr does.run_eq
  cases does with
  | turns leads =>
      exact ⟨(leads.goesOn inside).inExpression, fun base _ => (leads.behind inside base).run_eq⟩
  | refuses refuses =>
      rcases refuses.exists_behind inside noSeparator with ⟨failure, refusesBehind⟩
      exact ⟨failure, fun base _ => (refusesBehind base).run_eq⟩
  | pushes offers stands =>
      apply Lifts.congr_behind fun base _ =>
        (Does.pushes (offers_behind offers inside base) stands).run_eq
      exact lifts_pushOperator (plain _ stands) _ _ _ session
  | declares keyword identifier => exact inside.elim
  | concludes separator => simp [noSeparator] at separator

theorem lifts_beforeBracket (inside : phase.InExpression) (opener : Token) (session : Session σ) :
    Lifts (beforeBracket settings (.parenthesis group) opener phase)
      (fun base => beforeBracket settings .statements opener (phase.behind base))
      (fun base before => (before.1 ++ [base], before.2)) (fun _ => True) session := by
  cases phase with
  | operand pending unary => exact ⟨trivial, fun _ _ => rfl⟩
  | operator pending term => exact ⟨_, fun _ _ => rfl⟩
  | block value location => exact ⟨_, fun _ _ => rfl⟩
  | _ => exact inside.elim

/-- A right-hand side is read as it is in round brackets. -/
theorem lifts_read {forest : Forest} (rightHand : forest.IsRightHand) (inside : phase.InExpression)
    (session : Session σ) :
    Lifts (read settings (.parenthesis group) forest phase)
      (fun base => read settings .statements forest (phase.behind base)) Phase.behind
      Phase.InExpression session := by
  induction forest generalizing phase session with
  | nil => exact .pure inside
  | leaf token rest ih =>
      rcases rightHand with ⟨noSeparator, plain, restRightHand⟩
      simp only [read_leaf]
      apply (Lifts.same advance session).bind
      intro _ advanced _
      apply (lifts_readToken inside noSeparator plain advanced).bind
      intro next after nextInside
      exact ih restRightHand nextInside after
  | nest bracket opener inner closer rest _ ih =>
      simp only [read_nest]
      apply (lifts_beforeBracket inside opener session).bind
      rintro ⟨pending, unary⟩ before _
      apply (Lifts.same (locate settings opener) before).bind
      intro location located _
      apply (Lifts.same advance located).bind
      intro _ advanced _
      apply (Lifts.same (openGroup settings bracket location) advanced).bind
      intro opened entered _
      apply (Lifts.same (enclosed settings location opened inner closer bracket) entered).bind
      intro value closed _
      have afterwards : Lifts (afterBracket settings bracket pending unary value location)
          (fun base => afterBracket settings bracket (pending ++ [base]) unary value location)
          Phase.behind Phase.InExpression closed := by
        rw [Lifts, ensures_afterBracket]
        refine ⟨inExpression_closing _ bracket pending unary value location, fun base _ => ?_⟩
        rw [afterBracket_eq, closing_behind]
      apply afterwards.bind
      intro next after nextInside
      exact ih rightHand nextInside after

end Reading

variable (settings)

/-- Reduces what waits above an assignment, and gives the operand that the assignment gets. -/
def settle : List Pending → Term → Eval σ Term
  | [], term => Pure.pure term
  | top :: outer, term => do
      let value ← reduce settings (top.push term)
      settle outer (.value value top.location)

/-- The operand that the expression before the end of a phase leaves to the assignment. -/
def rightOperand : Phase → Eval σ Term
  | .operator pending term => settle settings pending term
  | .block value location => Pure.pure (.value value location)
  | _ => Eval.fail (.invalidExpression .missingOperand) none

variable {settings}

theorem collapse_append (pending outer : List Pending) (term : Term) :
    collapse settings (pending ++ outer) term =
      (do collapse settings outer (← settle settings pending term)) := by
  induction pending generalizing term with
  | nil => rfl
  | cons top rest ih => simp only [List.cons_append, collapse, settle, ih, bind_assoc]

theorem collapse_eq_settle (pending : List Pending) (term : Term) :
    collapse settings pending term = (do resolve (← settle settings pending term)) := by
  have parts : collapse settings (pending ++ []) term = _ := collapse_append pending [] term
  rwa [List.append_nil] at parts

theorem collapse_single (base : Pending) (term : Term) :
    collapse settings [base] term = reduce settings (base.push term) := by
  simp only [collapse, resolve, bind_pure]

end Eval

end BlockCalc
