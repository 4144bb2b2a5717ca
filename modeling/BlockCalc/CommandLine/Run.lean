import BlockCalc.CommandLine.Arguments
import BlockCalc.Dialogue
import BlockCalc.Folder

/-!
# Runs of the command

What the command writes and with which code it exits. `Plan.ofArguments` decides what is to be done,
which does not depend on files or input, and `Plan.run` does it, given a way to read files and the
standard input.
-/

namespace BlockCalc.CommandLine

/-- How the command is used, as shown before a misuse and in the help. -/
def usage : String :=
  "usage: exprlang [-h] [-source] [-verbose] [--traceback-json]\n" ++
  "                [--max-depth MAX_DEPTH]\n" ++
  "                [program]\n"

/-- What the command shows when it is asked for help. -/
def helpText : String :=
  usage ++
  "\n" ++
  "ExprLang expression evaluator\n" ++
  "\n" ++
  "positional arguments:\n" ++
  "  program               Source file path or literal source with -source\n" ++
  "\n" ++
  "options:\n" ++
  "  -h, --help            show this help message and exit\n" ++
  "  -source, --source     Treat program argument as literal source text\n" ++
  "  -verbose, --verbose   Emit scope snapshots in tracebacks\n" ++
  "  --traceback-json      Also emit JSON traceback\n" ++
  "  --max-depth MAX_DEPTH\n" ++
  "                        Maximum nesting depth of brackets and blocks\n"

/-- What a run of the command writes, and its exit code. -/
structure Report where
  code : Nat := 0
  output : String := ""
  errors : String := ""
  /-- Whether the arguments alone ended the run. -/
  atArguments : Bool := false
deriving DecidableEq

/-- Why a run of the command breaks off without a report. -/
inductive Crash where
  /-- The name of the file holds a character of code zero. -/
  | nullInName
  | notUtf8
  /-- The nesting limit is given, but not as a number. -/
  | limitMissing
deriving DecidableEq

/-- How the command evaluates and what it tells of failures. -/
structure Manner where
  verbose : Bool
  tracebackJson : Bool
  nesting : NestingLimit

/-- What a run of the command is going to do. -/
inductive Plan where
  | stop (report : Report)
  | breakOff (crash : Crash)
  | evaluate (manner : Manner) (text : String)
  | load (manner : Manner) (fileName : String)
  | converse (verbose : Bool) (nesting : NestingLimit)

/-- What options ask for; the nesting limit is looked at first. -/
def Plan.ofOptions (options : Options) : Plan :=
  match options.maxDepth.map NestingLimit.ofInt? with
  | none => .breakOff .limitMissing
  | some none =>
      .stop
        { code := 1
          errors := "--max-depth must be between 1 and " ++ NestingLimit.greatest.levels.repr ++
            "\n" }
  | some (some nesting) =>
      let manner : Manner := ⟨options.verbose, options.tracebackJson, nesting⟩
      match options.program, options.source with
      | none, true => .stop { code := 1, errors := "-source requires a program string\n" }
      | none, false => .converse options.verbose nesting
      | some text, true => .evaluate manner text
      | some fileName, false => .load manner fileName

/-- What arguments ask for; a misuse is reported with the usage. -/
def Plan.ofArguments (arguments : List String) : Plan :=
  match Options.ofArguments arguments with
  | .ok options => .ofOptions options
  | .error .help => .stop { output := helpText, atArguments := true }
  | .error (.misuse misuse) =>
      .stop
        { code := 2
          errors := usage ++ "exprlang: error: " ++ misuse.message ++ "\n"
          atArguments := true }

/-- Evaluates one text: a value goes to the output unless it is void, a failure to the errors. -/
def evaluate (manner : Manner) (fileName text : String) : Report :=
  let settings : Settings Unit :=
    { fileName, verbose := manner.verbose, nesting := manner.nesting }
  match (Session.fresh ()).parse settings text with
  | (.ok .void, _) => {}
  | (.ok value, _) => { output := value.render ++ "\n" }
  | (.error failure, session) =>
      let text := Traceback.text fileName session.log manner.verbose failure ++ "\n"
      let document :=
        if manner.tracebackJson then (Traceback.json session.log failure).pretty ++ "\n" else ""
      { code := 1, errors := text ++ document }

/-- The text of a file, whose line ends are all written as line feeds. -/
def decodeFile (content : ByteArray) : Except Crash String :=
  match String.fromUTF8? content with
  | some text => .ok (Text.unifyLineEnds text)
  | none => .error .notUtf8

/-- Evaluates the text of a file, or reports why it cannot be read. -/
def load (manner : Manner) (readFile : String → Except ReadFailure ByteArray)
    (fileName : String) : Except Crash Report := do
  if fileName.toList.contains '\x00' then
    throw .nullInName
  match readFile fileName with
  | .ok content => return evaluate manner fileName (← decodeFile content)
  | .error failure =>
      return {
        code := 1
        errors := "Failed to read " ++ fileName ++ ": [Errno " ++ failure.number.repr ++ "] " ++
          failure.message ++ ": " ++ Text.quoted fileName ++ "\n" }

/-- What an event of a dialogue writes to the output. -/
def outputOf : Dialogue.Event → String
  | .prompt text => text
  | .output text => text ++ "\n"
  | .error _ => ""

/-- What an event of a dialogue writes to the error output. -/
def errorsOf : Dialogue.Event → String
  | .error text => text ++ "\n"
  | _ => ""

/-- Holds a dialogue over the lines of an input. -/
def converse (verbose : Bool) (nesting : NestingLimit) (input : String) : Report :=
  let lines := Text.feedLines [] (Text.unifyLineEnds input).toList
  let events := Dialogue.transcript verbose nesting lines
  { output := String.join (events.map outputOf), errors := String.join (events.map errorsOf) }

/-- Does what is planned, given a way to read files and the standard input. -/
def Plan.run (plan : Plan) (readFile : String → Except ReadFailure ByteArray) (input : String) :
    Except Crash Report :=
  match plan with
  | .stop report => .ok report
  | .breakOff crash => .error crash
  | .evaluate manner text => .ok (CommandLine.evaluate manner unnamedFile text)
  | .load manner fileName => CommandLine.load manner readFile fileName
  | .converse verbose nesting => .ok (CommandLine.converse verbose nesting input)

end BlockCalc.CommandLine
