import BlockCalc.CommandLine.Run

/-!
# The command

Reads arguments, files and lines, and writes what the runs of the command and the dialogues give. A
dialogue is answered line by line, so that it can be held at a terminal.
-/

namespace BlockCalc.CommandLine

/-- The failure of a code of the operating system, which may be given with a minus sign. -/
def readFailureOfCode (code : UInt32) (message : String) : ReadFailure :=
  let number := if code < 0x80000000 then code else 0 - code
  .ofNumber number.toNat message

/-- The failure that an error of the operating system stands for. -/
def readFailureOf : IO.Error → ReadFailure
  | .noFileOrDirectory _ code message => readFailureOfCode code message
  | .inappropriateType _ code message | .invalidArgument _ code message
  | .permissionDenied _ code message | .resourceExhausted _ code message
  | .noSuchThing _ code message => readFailureOfCode code message
  | .otherError code message | .resourceBusy code message
  | .hardwareFault code message => readFailureOfCode code message
  | failure => .other 5 failure.toString

/-- Reads a file of the real file system. -/
def readFromDisk (fileName : String) : IO (Except ReadFailure ByteArray) := do
  try
    return .ok (← IO.FS.readBinFile fileName)
  catch failure =>
    return .error (readFailureOf failure)

/-- Writes an event of a dialogue at once. -/
def showEvent (event : Dialogue.Event) : IO Unit := do
  (← IO.getStdout).putStr (outputOf event)
  (← IO.getStdout).flush
  (← IO.getStderr).putStr (errorsOf event)

/-- Holds a dialogue on the standard input from a session on. -/
partial def converseOnInput (settings : Settings Unit) (session : Session Unit) : IO Unit := do
  showEvent (Dialogue.prompt session)
  let line ← (← IO.getStdin).getLine
  if line.isEmpty then
    showEvent (.output "")
  else
    let line := ((Text.feedLines [] (Text.unifyLineEnds line).toList).head?).getD ""
    match Dialogue.answer settings session line with
    | .quit => pure ()
    | .proceed events session =>
        events.forM showEvent
        converseOnInput settings session

/-- Writes a report and gives its exit code. -/
def writeReport (report : Report) : IO UInt32 := do
  (← IO.getStdout).putStr report.output
  (← IO.getStderr).putStr report.errors
  return report.code.toUInt32

/-- Does what is planned on the real files, input and outputs. -/
def carryOut : Plan → IO UInt32
  | .converse verbose nesting => do
      showEvent (.output Dialogue.greeting)
      converseOnInput (Dialogue.settingsFor verbose nesting) (.fresh ())
      return 0
  | plan => do
      let content ← match plan with
        | .load _ fileName => readFromDisk fileName
        | _ => pure (.error .notFound)
      match plan.run (fun _ => content) "" with
      | .ok report => writeReport report
      | .error .nullInName =>
          (← IO.getStderr).putStr "The name of the program holds a null character.\n"
          return 1
      | .error .notUtf8 =>
          (← IO.getStderr).putStr "The program is not a text in UTF-8.\n"
          return 1
      | .error .limitMissing =>
          (← IO.getStderr).putStr "The nesting limit is not a number.\n"
          return 1

end BlockCalc.CommandLine

/-- The program: plans what its arguments ask for and does it. -/
def main (arguments : List String) : IO UInt32 :=
  BlockCalc.CommandLine.carryOut (.ofArguments arguments)
