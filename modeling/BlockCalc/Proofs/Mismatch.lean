import BlockCalc.Proofs.Deeds
import BlockCalc.Proofs.Limit
import BlockCalc.Proofs.Reach
import BlockCalc.Proofs.WellNested

/-!
# Expressions that end before their brackets do

An evaluation checks the brackets of its program before it reads any of it, and rejects the program
if they are not well nested. Behind the check a bracket is blamed for one reason only: an expression
in round brackets has ended before the closer, at a separator or at what follows a block that stands
there alone. Nothing else that a token does blames a bracket, and the test of the closer never
fails, because what stands between a bracket and its partner leaves the same brackets open. So the
failure comes from a moment at which the expression ends, and that moment lies directly in the round
brackets whose opener is blamed.
-/

namespace BlockCalc

variable {σ α β : Type}

/-- An evaluation beside itself, which blames no bracket. -/
def Coupling.blameless : Coupling σ σ where
  related first second := first = second
  fails cause := ¬cause.IsMismatch

namespace Eval

/-- Where the action blames a bracket, it does so by a failure that `blame` holds of. -/
def BlamesOnly (blame : Failure → Prop) (action : Eval σ α) : Prop :=
  ∀ session, Ensures action session (fun _ _ => True)
    fun failure _ => failure.cause.IsMismatch → blame failure

namespace BlamesOnly

variable {blame : Failure → Prop}

theorem pure (result : α) : BlamesOnly blame (Pure.pure result : Eval σ α) :=
  fun _ => trivial

theorem fail {cause : Cause} {location : Option Location}
    (noMismatch : ¬cause.IsMismatch := by exact not_false) :
    BlamesOnly blame (Eval.fail cause location : Eval σ α) :=
  fun _ mismatch => absurd mismatch noMismatch

theorem bind {action : Eval σ α} {next : α → Eval σ β} (start : BlamesOnly blame action)
    (continues : ∀ result, BlamesOnly blame (next result)) :
    BlamesOnly blame (action >>= next) := by
  intro session
  exact (start session).bind fun result after _ => continues result after

theorem get_bind {next : Session σ → Eval σ α}
    (blamesOnly : ∀ session, BlamesOnly blame (next session)) :
    BlamesOnly blame (get >>= next) :=
  fun session => blamesOnly session session

theorem operational {outcome : Except Cause α} (operational : Operational True outcome) :
    BlamesOnly blame (ofExcept outcome : Eval σ α) := by
  cases outcome with
  | ok result => exact .pure result
  | error cause => exact .fail (operational cause rfl).not_mismatch

theorem setScope (scope : Scope) : BlamesOnly blame (Eval.setScope scope : Eval σ Unit) :=
  fun _ => trivial

theorem advance : BlamesOnly blame (Eval.advance : Eval σ Unit) :=
  fun _ => trivial

theorem locate (settings : Settings σ) (token : Token) :
    BlamesOnly blame (Eval.locate settings token) :=
  fun _ => trivial

theorem carries {action : Eval σ α} (blamesNone : BlamesOnly (fun _ => False) action) :
    Coupling.blameless.Carries action action fun _ => True := by
  rintro session _ rfl
  exact EnsuresBoth.self_iff.mpr
    ((blamesNone session).mono (fun _ _ _ => ⟨trivial, rfl⟩) fun _ _ blames => ⟨blames, rfl⟩)

theorem of_carries {action : Eval σ α} {results : α → Prop}
    (carries : Coupling.blameless.Carries action action results) : BlamesOnly blame action := by
  intro session
  exact (EnsuresBoth.self_iff.mp (carries session session rfl)).mono (fun _ _ _ => trivial)
    fun _ _ fails mismatch => absurd mismatch fails.1

end BlamesOnly

section Evaluation

variable {settings : Settings σ} {blame : Failure → Prop}

theorem blamesOnly_openGroup (bracket : Bracket) (location : Location) :
    BlamesOnly blame (openGroup settings bracket location) := by
  apply BlamesOnly.get_bind
  intro session
  split
  · exact .fail
  · exact fun _ => trivial

variable (quiet : settings.hooks = .none)

include quiet

theorem blamesOnly_record (step : Step) (location : Option Location) :
    BlamesOnly blame (record settings step location) := by
  intro session
  exact (ensures_record quiet step location session).mono (fun _ _ _ => trivial)
    fun _ _ impossible => impossible.elim

theorem blamesOnly_assign (operator : BinaryOp) (name : String) (value : Value)
    (location : Location) : BlamesOnly blame (assign settings operator name value location) := by
  apply BlamesOnly.get_bind
  intro session
  apply (BlamesOnly.operational (session.scope.operational_assign name value)).bind
  intro changed
  exact (BlamesOnly.setScope changed).bind fun _ => blamesOnly_record quiet _ _

/-- Operators blame their operands or the evaluator. -/
theorem operations_blameless :
    Coupling.blameless.Operations (fun _ => True) settings settings where
  sameRead := by
    rintro first _ name rfl _
    rfl
  fails _ noMismatch := noMismatch
  closed := Value.closed_true
  goodRead _ _ := trivial
  reduceStep _ _ _ := (blamesOnly_record quiet _ _).carries
  assign _ _ _ _ _ _ _ := (blamesOnly_assign quiet _ _ _ _).carries

theorem blamesOnly_collapse (pending : List Pending) (term : Term) :
    BlamesOnly blame (collapse settings pending term) :=
  .of_carries ((operations_blameless quiet).collapse (Pending.fits_true pending) term.fits_true)

theorem blamesOnly_pushOperator (operator : BinaryOp) (location : Location)
    (pending : List Pending) (term : Term) :
    BlamesOnly blame (pushOperator settings operator location pending term) :=
  .of_carries ((operations_blameless quiet).pushOperator operator location
    (Pending.fits_true pending) term.fits_true)

theorem blamesOnly_declare (name : String) (location : Location) :
    BlamesOnly blame (declare settings name location) := by
  apply BlamesOnly.get_bind
  intro session
  exact (BlamesOnly.setScope _).bind fun _ => blamesOnly_record quiet _ _

theorem blamesOnly_finish (next : Option Token) (phase : Phase) :
    BlamesOnly blame (finish settings next phase) := by
  intro session
  apply Ensures.finish
  · exact fun _ _ => trivial
  · intro failure unfinished mismatch
    cases unfinished <;> cases mismatch
  · intro pending term _
    exact blamesOnly_collapse quiet pending term session

theorem blamesOnly_enterBlock (location : Location) :
    BlamesOnly blame (enterBlock settings location) := by
  rw [enterBlock_of_quiet quiet]
  apply BlamesOnly.get_bind
  intro session
  exact (BlamesOnly.setScope _).bind fun _ => blamesOnly_record quiet _ _

theorem blamesOnly_exitBlock (location : Location) :
    BlamesOnly blame (exitBlock settings location) := by
  rw [exitBlock_of_quiet quiet]
  apply BlamesOnly.get_bind
  intro session
  cases left : session.scope.exit with
  | error cause =>
      have noMismatch : ¬cause.IsMismatch := by
        rw [Scope.exit_eq_error left]
        exact not_false
      exact .fail noMismatch
  | ok result => exact (BlamesOnly.setScope _).bind fun _ => blamesOnly_record quiet _ _

end Evaluation

/--
The failure blames the opener of the round brackets that are being read, where an expression ends at
a token: at a separator, or behind a block if the token is no operator.
-/
structure EndsEarly (enclosure : Enclosure) (phase : Phase) (stop : Token) (failure : Failure) :
    Prop where
  blames : ∃ group, enclosure = .parenthesis group ∧
    failure.cause = .bracketMismatch group.bracket.opener ∧ failure.location = some group.location
  stops : stop.isSeparator = true ∨
    (∃ value location, phase = .block value location) ∧ stop.binary? = none

section Reading

variable {settings : Settings σ} {enclosure : Enclosure} {phase : Phase}

theorem blamesOnly_endExpression {blame : Failure → Prop}
    (blames : ∀ group, enclosure = .parenthesis group →
      blame { cause := .bracketMismatch group.bracket.opener, location := some group.location }) :
    BlamesOnly blame (endExpression enclosure : Eval σ Unit) := by
  cases enclosure with
  | statements => exact .pure ()
  | parenthesis group => exact fun _ _ => blames group rfl

variable {session : Session σ} {token : Token} {failure : Failure}

theorem not_mismatch_of_noTerm (noTerm : token.NoTerm settings session failure) :
    ¬failure.cause.IsMismatch := by
  cases noTerm <;> exact not_false

/-- If a token cannot stand, but not as an expression has ended, no bracket is blamed. -/
theorem Refuses.endsEarly (refuses : Refuses settings session enclosure token phase failure)
    (mismatch : failure.cause.IsMismatch) : EndsEarly enclosure phase token failure := by
  cases refuses with
  | unfinished separator unfinished => cases unfinished <;> cases mismatch
  | ends separator yields inside => exact ⟨⟨_, inside, rfl, rfl⟩, Or.inl separator⟩
  | behindBlock noSeparator noOperator inside =>
      exact ⟨⟨_, inside, rfl, rfl⟩, Or.inr ⟨⟨_, _, rfl⟩, noOperator⟩⟩
  | word awaits word noKeyword noTerm => exact absurd mismatch (not_mismatch_of_noTerm noTerm)
  | name noSeparator noTerm => exact absurd mismatch (not_mismatch_of_noTerm noTerm)
  | _ => cases mismatch

theorem Bars.endsEarly (bars : Bars settings session enclosure token phase failure)
    (noOperator : token.binary? = none) (mismatch : failure.cause.IsMismatch) :
    EndsEarly enclosure phase token failure := by
  cases bars with
  | name noTerm => exact absurd mismatch (not_mismatch_of_noTerm noTerm)
  | behindBlock inside => exact ⟨⟨_, inside, rfl, rfl⟩, Or.inr ⟨⟨_, _, rfl⟩, noOperator⟩⟩
  | _ => cases mismatch

theorem blamesOnly_readToken (quiet : settings.hooks = .none) (token : Token) :
    BlamesOnly (EndsEarly enclosure phase token) (readToken settings enclosure token phase) := by
  intro session
  apply Ensures.readToken
  intro deed does
  cases does with
  | turns leads => trivial
  | refuses refuses => exact refuses.endsEarly
  | pushes offers stands =>
      exact (blamesOnly_pushOperator quiet _ _ _ _).bind (fun _ => .pure _) session
  | declares keyword identifier =>
      exact (blamesOnly_declare quiet _ _).bind (fun _ => .pure _) session
  | concludes separator =>
      apply BlamesOnly.bind (blamesOnly_collapse quiet _ _)
      intro _
      apply BlamesOnly.bind (blamesOnly_endExpression fun group inside =>
        ⟨⟨group, inside, rfl, rfl⟩, Or.inl separator⟩)
      exact fun _ => .pure _

theorem blamesOnly_beforeBracket {opener : Token} {bracket : Bracket}
    (opens : opener.opens? = some bracket) :
    BlamesOnly (EndsEarly enclosure phase opener)
      (beforeBracket settings enclosure opener phase) := by
  intro session
  apply Ensures.beforeBracket
  · exact fun _ _ _ => trivial
  · exact fun _ bars => bars.endsEarly (Token.binary?_eq_none_of_opens? opens)

theorem blamesOnly_afterBracket {blame : Failure → Prop} (bracket : Bracket)
    (pending : List Pending) (unary : List Token) (value : Value) (location : Location) :
    BlamesOnly blame (afterBracket settings bracket pending unary value location) := by
  intro session
  rw [ensures_afterBracket]
  trivial

end Reading

end Eval

end BlockCalc
