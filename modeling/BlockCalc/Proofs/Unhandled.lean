import BlockCalc.Proofs.Lockstep
import BlockCalc.Proofs.Quiet

/-!
# Failures that cannot be handled

Without handlers, the guards of an evaluation never give way, whatever the session holds and the
text says. The one exception is the guard for literals that are too long: it gives way right when
such a literal is read, and for no other literal.
-/

namespace BlockCalc

variable {σ : Type}

namespace Eval

variable {settings : Settings σ}

/-- A literal that is too long ends the evaluation that reads it. -/
theorem ensures_statements_overlong {token : Token} {count : Nat} (overlong : token.Overlong count)
    (session : Session σ) :
    Ensures (statements settings (.leaf token .nil)) session (fun _ _ => False)
      (fun failure _ => failure.cause = .unhandled (.tooManyDigits count)) := by
  have noLet : token.isLet = false := Token.isLet_eq_false_of_startsWithDigit overlong.starts
  simp only [statements, read_leaf, ensures_bind, ensures_advance]
  rw [Ensures, (Refuses.word (.begins (.first .void)) overlong.word (fun _ => noLet)
    (.tooLong overlong.starts overlong.integer_eq)).run_eq]

end Eval

namespace Session

/--
An evaluation without handlers fails for no guard, except when it has just read a decimal literal of
more digits than are converted.
-/
theorem parse_guards_hold {settings : Settings σ} (quiet : settings.hooks = .none)
    {session after : Session σ} {text : String} {failure : Failure}
    (failed : session.parse settings text = (.error failure, after)) :
    (∀ incident, failure.cause = .unhandled incident →
      ∃ token count, incident = .tooManyDigits count ∧
        after.program = (session.feed text).lexer.tokens ∧ after.lastRead? = some token ∧
        token.Overlong count) ∧
      (∀ operator, failure.cause ≠ .invalidExpression (.notBinary operator)) ∧
      ∀ operator, failure.cause ≠ .invalidExpression (.notAssignment operator) := by
  have spec : Eval.Ensures (Eval.program settings) (session.feed text).prepare _ _ :=
    Eval.ensures_program (observing_of_quiet quiet) rfl
  rw [parse_of_quiet quiet] at failed
  cases ran : Eval.program settings (session.feed text).prepare with
  | ok value finished => simp [ran] at failed
  | error raised finished =>
      simp only [ran, Prod.mk.injEq, Except.error.injEq] at failed
      rcases failed with ⟨rfl, rfl⟩
      have accounted := (spec.of_error ran).overlong (silent_of_quiet quiet)
      refine ⟨?_, ?_, ?_⟩
      · intro incident isIncident
        change raised.cause = _ at isIncident
        rw [isIncident] at accounted
        rcases accounted trivial with ⟨token, count, tooLong, sameProgram, lastRead, overlong⟩
        exact ⟨token, count, Cause.unhandled.inj tooLong, sameProgram, lastRead, overlong⟩
      · intro operator isGuard
        change raised.cause = _ at isGuard
        rw [isGuard] at accounted
        rcases accounted trivial with ⟨_, _, otherCause, _⟩
        cases otherCause
      · intro operator isGuard
        change raised.cause = _ at isGuard
        rw [isGuard] at accounted
        rcases accounted trivial with ⟨_, _, otherCause, _⟩
        cases otherCause

theorem parse_overlong {settings : Settings σ} (quiet : settings.hooks = .none)
    {session : Session σ} {token : Token} {count : Nat} (overlong : token.Overlong count)
    (waiting : session.lexer.tokens = [token]) :
    ∃ failure after, session.parse settings "" = (.error failure, after) ∧
      failure.cause = .unhandled (.tooManyDigits count) := by
  have found : Forest.ofTokens (session.feed "").lexer.tokens = .ok (.leaf token .nil) := by
    rw [feed_empty, waiting, Forest.ofTokens_eq_ok_iff]
    simp [Forest.Matched, Forest.tokens, Token.opens?, Token.closes?, overlong.word]
  rcases parse_of_forest quiet found with ⟨log, sameRun⟩
  have spec : Eval.Ensures (Eval.statements settings (.leaf token .nil))
      { (session.feed "").prepare with log } _ _ :=
    Eval.ensures_statements_overlong overlong _
  cases ran : Eval.statements settings (.leaf token .nil)
      { (session.feed "").prepare with log } with
  | ok value finished => exact (spec.of_ok ran).elim
  | error failure finished =>
      have cause : failure.cause = .unhandled (.tooManyDigits count) := spec.of_error ran
      rw [ran] at sameRun
      exact ⟨_, _, sameRun, cause⟩

theorem parse_guards_hold_zeros :
    let settings : Settings Unit := {}
    let session : Session Unit := { fresh () with lexer := { tokens := [.zeros 4300] } }
    ∃ failure after, session.parse settings "" = (.error failure, after) ∧
      failure.cause = .unhandled (.tooManyDigits 4301) ∧
        ∃ token, after.lastRead? = some token ∧ token.Overlong 4301 := by
  intro settings session
  have overlong : (Token.zeros 4300).Overlong 4301 := Token.overlong_zeros (by decide)
  have quiet : settings.hooks = .none := rfl
  have waiting : session.lexer.tokens = [.zeros 4300] := rfl
  rcases parse_overlong quiet overlong waiting with ⟨failure, after, failed, cause⟩
  rcases (parse_guards_hold quiet failed).1 _ cause with
    ⟨token, count, tooLong, _, lastRead, lastOverlong⟩
  cases tooLong
  exact ⟨failure, after, failed, cause, token, lastRead, lastOverlong⟩

end Session

end BlockCalc
