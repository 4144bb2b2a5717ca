import BlockCalc.Proofs.Effect
import BlockCalc.Proofs.Lockstep

/-!
# Evaluations without handlers

Where there are no handlers, events are told to nobody, a recorded step changes nothing but the log,
and an evaluation is the reading of the program's forest between putting the session in order before
and after.
-/

namespace BlockCalc

variable {σ : Type} {settings : Settings σ}

theorem observing_of_quiet (quiet : settings.hooks = .none) : settings.hooks.Observing := by
  rw [quiet]
  exact Hooks.observing_none

theorem silent_of_quiet (quiet : settings.hooks = .none) : settings.hooks.Silent := by
  rw [quiet]
  exact Hooks.silent_none

/-- The brackets that are open, innermost first. -/
def Session.brackets (session : Session σ) : List Bracket :=
  session.groups.map (·.bracket)

theorem Session.length_brackets (session : Session σ) :
    session.brackets.length = session.groups.length :=
  List.length_map _

/-- The sessions have the same bindings and the same open brackets. -/
structure Session.Alike (left right : Session σ) : Prop where
  scope : left.scope = right.scope
  brackets : left.brackets = right.brackets

theorem Session.Alike.refl (session : Session σ) : session.Alike session :=
  ⟨rfl, rfl⟩

theorem Session.Alike.trans {first second third : Session σ} (before : first.Alike second)
    (after : second.Alike third) : first.Alike third :=
  ⟨before.scope.trans after.scope, before.brackets.trans after.brackets⟩

theorem Session.Alike.length_groups {left right : Session σ} (alike : left.Alike right) :
    left.groups.length = right.groups.length := by
  rw [← left.length_brackets, alike.brackets, right.length_brackets]

namespace Eval

theorem emit_of_quiet (quiet : settings.hooks = .none) (notice : Notice) :
    emit settings notice = pure () := by
  simp [emit_eq (observing_of_quiet quiet), quiet, Hooks.none]

/-- Where nobody is told of it, entering a block is a change of the scope that is recorded. -/
theorem enterBlock_of_quiet (quiet : settings.hooks = .none) (location : Location) :
    enterBlock settings location = (do
      let session ← get
      setScope session.scope.enter
      record settings (.enterScope session.scope.enter.depth) (some location)) := by
  have unused : (do let _ ← get; pure () : Eval σ Unit) = pure () := rfl
  simp only [enterBlock_eq, emit_of_quiet quiet, unused, bind_pure_unit]

theorem exitBlock_of_quiet (quiet : settings.hooks = .none) (location : Location) :
    exitBlock settings location = (do
      let session ← get
      let (frame, outer) ← ofExcept session.scope.exit
      setScope outer
      record settings (.exitScope session.scope.depth (Text.sortNames frame.names))
        (some location)) := by
  simp only [exitBlock_eq (observing_of_quiet quiet), emit_of_quiet quiet, bind_pure_unit]

theorem record_logged (quiet : settings.hooks = .none) (step : Step)
    (location : Option Location) (session : Session σ) :
    record settings step location session =
      .ok () (session.logged (session.entry settings step location)) := by
  rw [record_eq (observing_of_quiet quiet)]
  simp only [afterStep, quiet, Hooks.none]
  rfl

/-- A recorded step changes the log alone. -/
theorem record_of_quiet (quiet : settings.hooks = .none) (step : Step)
    (location : Option Location) (session : Session σ) :
    ∃ log, record settings step location session = .ok () { session with log } :=
  ⟨_, record_logged quiet step location session⟩

theorem ensures_record (quiet : settings.hooks = .none) (step : Step) (location : Option Location)
    (session : Session σ) :
    Ensures (record settings step location) session (fun _ after => session.Alike after)
      (fun _ _ => False) := by
  rcases record_of_quiet quiet step location session with ⟨log, recorded⟩
  simp only [Ensures, recorded]
  exact ⟨rfl, rfl⟩

end Eval

/-- The session after the step that an evaluation starts with. -/
def Session.begun (settings : Settings σ) (session : Session σ) : Session σ :=
  session.logged (session.entry settings (.parse session.program.length) none)

namespace Eval

theorem program_begun (quiet : settings.hooks = .none) (session : Session σ) :
    program settings session = evaluate settings session.program (session.begun settings) := by
  have read (later : Session σ) : (get : Eval σ (Session σ)) later = .ok later later := rfl
  simp only [program, emit_of_quiet quiet, pure_bind]
  rw [bind_of_ok (read session), bind_of_ok (record_logged quiet _ none session),
    bind_of_ok (read _)]
  rfl

/-- The program whose forest is found is read from an empty statement on. -/
theorem program_of_found (quiet : settings.hooks = .none) {session : Session σ} {forest : Forest}
    (found : Forest.ofTokens session.program = .ok forest) :
    program settings session = statements settings forest (session.begun settings) := by
  rw [program_begun quiet, evaluate_eq, found]

/-- The program whose brackets do not match fails before any of it is read. -/
theorem program_of_blamed (quiet : settings.hooks = .none) {session : Session σ} {token : Token}
    (blamed : Forest.ofTokens session.program = .error token) :
    ∃ location, program settings session =
      .error { cause := .bracketMismatch token.text, location } (session.begun settings) := by
  rw [program_begun quiet, evaluate_eq, blamed]
  exact ⟨_, rfl⟩

end Eval

@[simp]
theorem Source.append_empty (source : Source) : source.append "" = source := by
  rcases source with ⟨text, statements, rfl⟩
  simp only [append, String.append_empty]

@[simp]
theorem Session.feed_empty (session : Session σ) : session.feed "" = session := by
  simp [feed, Workspace.feed, Lexer.feed, scan, Lexeme.tokens]

theorem Session.caught?_eq_self {session : Session σ} {failure : Failure}
    (noGuard : ∀ reason, failure.cause ≠ .foreign reason) :
    session.caught? failure = some failure := by
  rw [caught?]
  split
  · exact absurd ‹_› (noGuard _)
  · exact absurd ‹_› (noGuard _)
  · rfl

/-- Handlers that look on and stay silent never raise anything that an evaluation fails for. -/
theorem Session.caught?_of_silent (observing : settings.hooks.Observing)
    (silent : settings.hooks.Silent) {session finished : Session σ} {failure : Failure}
    (failed : Eval.program settings session.prepare = .error failure finished) :
    finished.caught? failure = some failure := by
  apply caught?_eq_self
  intro reason foreign
  have spec : Eval.Ensures (Eval.program settings) session.prepare _ _ :=
    Eval.ensures_program observing rfl
  have guard : failure.cause.IsGuard := by
    rw [foreign]
    trivial
  rcases (spec.of_error failed).overlong silent guard with ⟨token, count, tooLong, _⟩
  rw [foreign] at tooLong
  cases tooLong

/-- Where nobody is told of its end, an evaluation is its outcome and the scope at its end. -/
theorem Session.parse_of_unheard (observing : settings.hooks.Observing)
    (silent : settings.hooks.Silent) (unheard : ∀ event, settings.hooks.listeners event = [])
    (session : Session σ) (text : String) :
    session.parse settings text =
      match Eval.program settings (session.feed text).prepare with
      | .ok value finished => (.ok value, finished.dropText)
      | .error failure finished =>
          (.error (finished.report failure), finished.unwind.dropText) := by
  rw [parse]
  cases ran : Eval.program settings (session.feed text).prepare with
  | ok value finished =>
      simp only [Eval.emit, unheard]
      rfl
  | error failure finished =>
      simp only [caught?_of_silent observing silent ran, unheard]
      rfl

theorem Session.parse_of_quiet (quiet : settings.hooks = .none)
    (session : Session σ) (text : String) :
    session.parse settings text =
      match Eval.program settings (session.feed text).prepare with
      | .ok value finished => (.ok value, finished.dropText)
      | .error failure finished =>
          (.error (finished.report failure), finished.unwind.dropText) := by
  apply parse_of_unheard (observing_of_quiet quiet) (silent_of_quiet quiet)
  intro event
  rw [quiet]
  rfl

/-- An evaluation of text whose brackets match is the reading of its forest. -/
theorem Session.parse_of_forest (quiet : settings.hooks = .none) {session : Session σ}
    {text : String} {forest : Forest}
    (found : Forest.ofTokens (session.feed text).lexer.tokens = .ok forest) :
    ∃ log, session.parse settings text =
      match Eval.statements settings forest { (session.feed text).prepare with log } with
      | .ok value finished => (.ok value, finished.dropText)
      | .error failure finished =>
          (.error (finished.report failure), finished.unwind.dropText) := by
  have prepared : Forest.ofTokens (session.feed text).prepare.program = .ok forest := found
  exact ⟨_, by rw [parse_of_quiet quiet, Eval.program_of_found quiet prepared]; rfl⟩

end BlockCalc
