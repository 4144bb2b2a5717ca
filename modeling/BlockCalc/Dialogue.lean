import BlockCalc.Evaluation.Parse
import BlockCalc.Text.Blank
import BlockCalc.Traceback

/-!
# Dialogues

A dialogue reads lines, collects them until no bracket is open, and evaluates what it has collected.
Its answers go to the output, and tracebacks to the error output. While nothing is collected, blank
lines are skipped and the commands `:quit` and `:reset` are obeyed. At the end of the input the
dialogue ends with an empty line.
-/

namespace BlockCalc.Dialogue

/-- What a dialogue shows. -/
inductive Event where
  /-- The invitation to enter a line, which is not followed by a line feed. -/
  | prompt (text : String)
  | output (text : String)
  | error (text : String)
deriving DecidableEq

/-- The first line of a dialogue. -/
def greeting : String :=
  "\x1b[38;2;153;221;255mExprLang\x1b[0m REPL. Type :reset to clear variables, :quit to exit."

/-- The invitation to enter a line; it is another one while lines are being collected. -/
def promptText (collecting : Bool) : String :=
  if collecting then "\x1b[38;2;153;221;255m..>\x1b[0m " else "\x1b[38;2;153;221;255m>>>\x1b[0m "

/-- What is shown of a value: nothing if it is void. -/
def valueEvents (value : Value) : List Event :=
  if value = .void then [] else [.output value.render]

/-- What a dialogue makes of a line: it ends, or it shows something and goes on. -/
inductive Reply (σ : Type) where
  | quit
  | proceed (events : List Event) (session : Session σ)

variable {σ : Type} (settings : Settings σ)

/-- Whether tokens of earlier lines wait for evaluation. -/
def isCollecting (session : Session σ) : Bool :=
  !session.lexer.tokens.isEmpty

/-- The invitation that a session makes. -/
def prompt (session : Session σ) : Event :=
  .prompt (promptText (isCollecting session))

/-- Evaluates what has been collected; a failure is shown by its traceback. -/
def evaluate (session : Session σ) : Reply σ :=
  match session.parse settings "" with
  | (.ok value, session) => .proceed (valueEvents value) session
  | (.error failure, session) =>
      .proceed
        [.error (Traceback.text settings.fileName session.log settings.verbose failure)] session

/-- Takes a line in, and evaluates if no bracket is open then. -/
def collect (session : Session σ) (line : String) : Reply σ :=
  let session := session.feed (line ++ "\n")
  if 0 < session.lexer.unclosed then .proceed [] session else evaluate settings session

/-- The reply to a line. Commands and blank lines only count while nothing is collected. -/
def answer (session : Session σ) (line : String) : Reply σ :=
  if isCollecting session then collect settings session line
  else
    let command := Text.trim line
    if command = ":quit" then .quit
    else if command = ":reset" then .proceed [] session.reset
    else if command = "" then .proceed [] session
    else collect settings session line

/-- What a dialogue over some lines shows from a session on. -/
def converse (session : Session σ) : List String → List Event
  | [] => [prompt session, .output ""]
  | line :: rest =>
      prompt session ::
        match answer settings session line with
        | .quit => []
        | .proceed events session => events ++ converse session rest

/-- The settings of the sessions that dialogues are held with. -/
def settingsFor (verbose : Bool) (nesting : NestingLimit) : Settings Unit where
  fileName := "<repl>"
  verbose := verbose
  nesting := nesting

/-- All that a dialogue over some lines shows. -/
def transcript (verbose : Bool) (nesting : NestingLimit) (lines : List String) : List Event :=
  .output greeting :: converse (settingsFor verbose nesting) (.fresh ()) lines

end BlockCalc.Dialogue
