import BlockCalc.Evaluation.Program

/-!
# Evaluating what a session holds

One evaluation takes in the rest of the text, evaluates all tokens that wait, and leaves a session
that is ready for the next text, whether it succeeded or not: no text waits, no bracket is open, and
no block is entered. Bindings at the top level stay.
-/

namespace BlockCalc.Session

variable {σ : Type} (settings : Settings σ)

/-- The session at the start of an evaluation of the tokens that wait. -/
def prepare (session : Session σ) : Session σ :=
  { session with program := session.lexer.tokens, position := 0, groups := [], log := .empty }

/-- The session without the text and the tokens that were evaluated. -/
def dropText (session : Session σ) : Session σ :=
  { session with toWorkspace := session.toWorkspace.dropText }

/-- A failure with the last step before it and the groups that were open. -/
def report (session : Session σ) (failure : Failure) : Failure :=
  { failure with
    stepIndex := (session.log.entries.back?.map (·.index)) <|> failure.stepIndex
    groups := session.groups.reverse }

/-- The session with no bracket open and no block entered. -/
def unwind (session : Session σ) : Session σ :=
  { session with groups := [], scope := session.scope.unwind }

/--
The failure that an evaluation reports. What a handler raised besides failures becomes one if it has
a reason; otherwise nothing is reported.
-/
def caught? (session : Session σ) (failure : Failure) : Option Failure :=
  match failure.cause with
  | .foreign none => none
  | .foreign (some reason) =>
      some { cause := .unhandled (.brokeDown reason), location := session.log.lastLocation }
  | _ => some failure

/--
Takes text in and evaluates all that waits. Listeners that fail at the end of an evaluation make it
fail; those that fail when they are told of a failure replace it. What is not caught leaves all as
it is, except that the text is dropped.
-/
def parse (session : Session σ) (text : String) : Except Failure Value × Session σ :=
  match Eval.program settings (session.feed text).prepare with
  | .ok value session =>
      match Eval.emit settings (.parseEnd value) session.dropText with
      | .ok _ session => (.ok value, session)
      | .error failure session => (.error failure, session)
  | .error failure session =>
      match session.caught? failure with
      | none => (.error failure, session.dropText)
      | some failure =>
          let failure := session.report failure
          match Eval.tell (.onError failure) (settings.hooks.listeners .onError) session.unwind with
          | .ok told session => (.error (told.failure?.getD failure), session.dropText)
          | .error other session => (.error other, session.dropText)

end BlockCalc.Session
