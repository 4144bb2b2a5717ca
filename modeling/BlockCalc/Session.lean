import BlockCalc.Lexer
import BlockCalc.Scope
import BlockCalc.Source
import BlockCalc.StepLog

/-!
# Sessions

A session is what lasts from one evaluation to the next: the bindings, the text that waits for
evaluation, and the log of the last evaluation. Its workspace is the part that handlers may change
while an evaluation runs. The rest is the evaluation's own: how many tokens have been read, which
brackets are open, and the log. A session also carries the state of whoever observes it, of which it
knows nothing.
-/

namespace BlockCalc

/-- The part of a session that handlers may change. -/
structure Workspace where
  scope : Scope := .empty
  lexer : Lexer := .fresh
  source : Source := .empty
  /-- The tokens that the current evaluation is about, which only matter when it starts. -/
  program : List Token := []

namespace Workspace

/-- The workspace with more text, cut into tokens that wait behind those before. -/
def feed (workspace : Workspace) (text : String) : Workspace :=
  { workspace with
    lexer := workspace.lexer.feed text
    source := workspace.source.append text }

/-- The workspace without text and tokens; the next text starts at the first line. -/
def dropText (workspace : Workspace) : Workspace :=
  { workspace with lexer := .fresh, source := .empty }

end Workspace

/-- The state of a session, with the state `σ` of its observer. -/
structure Session (σ : Type) extends Workspace where
  position : Nat := 0
  /-- The open brackets, innermost first. -/
  groups : List Group := []
  log : StepLog := .empty
  observer : σ

namespace Session

variable {σ : Type}

/-- The session in which nothing has happened yet. -/
def fresh (observer : σ) : Session σ where
  observer := observer

/-- Takes more text in without evaluating it. -/
def feed (session : Session σ) (text : String) : Session σ :=
  { session with toWorkspace := session.toWorkspace.feed text }

/-- Forgets everything except the observer's state. -/
def reset (session : Session σ) : Session σ :=
  fresh session.observer

end Session

end BlockCalc
