import BlockCalc.Settings
import BlockCalc.Text.Numeral
import BlockCalc.Text.Quoted

/-!
# Arguments

What the arguments of the command ask for. Options may be shortened as long as they stay unambiguous
and may stand before or after the program. An argument that starts with a dash is an option unless
it is a lone dash, a negative number, or unknown with a space in it. After two dashes all arguments
are taken as they are. The first argument that is no option is the program, and all others are
unrecognized.

Characters behind an option with one dash are read as options of one letter, of which help is the
only one. So such an argument ends the reading in any case: with the help if all those characters
are that letter, and otherwise because of the first character that is another one.
-/

namespace BlockCalc.CommandLine

/-- The options of the command. -/
inductive Switch where
  | help
  | source
  | verbose
  | tracebackJson
  | maxDepth
deriving DecidableEq

namespace Switch

/-- The ways in which options are written, in the order in which candidates are listed. -/
def spellings : List (String × Switch) :=
  [("-h", help), ("--help", help), ("-source", source), ("--source", source),
    ("-verbose", verbose), ("--verbose", verbose), ("--traceback-json", tracebackJson),
    ("--max-depth", maxDepth)]

/-- The name under which messages speak of an option. -/
def title : Switch → String
  | help => "-h/--help"
  | source => "-source/--source"
  | verbose => "-verbose/--verbose"
  | tracebackJson => "--traceback-json"
  | maxDepth => "--max-depth"

end Switch

/-- What can be wrong with the arguments. -/
inductive Misuse where
  | ambiguous (argument : String) (candidates : List String)
  | ignoredArgument (switch : Switch) (argument : String)
  | missingArgument (switch : Switch)
  | invalidInteger (switch : Switch) (argument : String)
  | unrecognized (arguments : List String)
deriving DecidableEq

/-- What the command says of a misuse. -/
def Misuse.message : Misuse → String
  | ambiguous argument candidates =>
      "ambiguous option: " ++ argument ++ " could match " ++ ", ".intercalate candidates
  | ignoredArgument switch argument =>
      "argument " ++ switch.title ++ ": ignored explicit argument " ++ Text.quoted argument
  | missingArgument switch => "argument " ++ switch.title ++ ": expected one argument"
  | invalidInteger switch argument =>
      "argument " ++ switch.title ++ ": invalid int value: " ++ Text.quoted argument
  | unrecognized arguments => "unrecognized arguments: " ++ " ".intercalate arguments

/-- What an argument is taken for before the meaning of options is looked at. -/
inductive Argument where
  /-- An option, with what follows an equals sign. -/
  | option (switch : Switch) (argument : Option String)
  /-- An option with one dash and characters behind it, which an equals sign may set off. -/
  | bundle (switch : Switch) (letters : List Char)
  | unknown (argument : String)
  | plain (argument : String)
deriving DecidableEq

/-- An argument cut at its first equals sign, if it has one. -/
def cutEquals : List Char → Option (List Char × List Char)
  | [] => none
  | '=' :: rest => some ([], rest)
  | character :: rest => (cutEquals rest).map fun (before, after) => (character :: before, after)

/-- Whether characters are decimal digits, of any script and at least one. -/
def isDigits (characters : List Char) : Bool :=
  !characters.isEmpty && characters.all fun character => (Text.decimalDigit? character).isSome

/-- Whether an argument looks like a negative number; a line feed may follow. -/
def isNegativeNumber (characters : List Char) : Bool :=
  match characters with
  | '-' :: digits =>
      let digits := if digits.getLast? = some '\n' then digits.dropLast else digits
      isDigits digits ||
        match digits.dropWhile fun character => (Text.decimalDigit? character).isSome with
        | '.' :: fraction => isDigits fraction
        | _ => false
  | _ => false

/-- What an argument is that starts with a dash but begins no spelling of an option. -/
def Argument.ofUnmatched (text : String) : Argument :=
  if isNegativeNumber text.toList || text.toList.contains ' ' then .plain text else .unknown text

/-- The spellings of options that an argument begins. -/
def candidates (start : List Char) : List (String × Switch) :=
  Switch.spellings.filter fun (spelling, _) => start.isPrefixOf spelling.toList

/-- What a spelling of an option is together with what follows an equals sign. -/
def Argument.ofSpelling (spelling : List Char) (switch : Switch) (value : Option (List Char)) :
    Argument :=
  match spelling, value with
  | '-' :: '-' :: _, value => .option switch (value.map String.ofList)
  | _, some (letter :: letters) => .bundle switch (letter :: letters)
  | _, value => .option switch (value.map String.ofList)

/-- What an argument of at least two characters is that starts with a dash. -/
def Argument.ofDashed (text : String) : Except Misuse Argument :=
  let characters := text.toList
  let (name, value) := match cutEquals characters with
    | some (name, value) => (name, some value)
    | none => (characters, none)
  match Switch.spellings.lookup (String.ofList name) with
  | some switch => .ok (.ofSpelling name switch value)
  | none =>
      match characters with
      | '-' :: '-' :: _ =>
          match candidates name with
          | [] => .ok (.ofUnmatched text)
          | [(_, switch)] => .ok (.ofSpelling name switch value)
          | several => .error (.ambiguous text (several.map (·.1)))
      | '-' :: 'h' :: letters => .ok (.bundle .help letters)
      | _ =>
          match candidates characters with
          | (_, switch) :: _ => .ok (.option switch none)
          | [] => .ok (.ofUnmatched text)

/-- What an argument is; a lone dash and what has no dash in front are plain. -/
def Argument.ofText (text : String) : Except Misuse Argument :=
  match text.toList with
  | '-' :: _ :: _ => Argument.ofDashed text
  | _ => .ok (.plain text)

/-- What the arguments ask for. -/
structure Options where
  program : Option String := none
  source : Bool := false
  verbose : Bool := false
  tracebackJson : Bool := false
  /-- The nesting limit, which is missing if the option gives two dashes for it. -/
  maxDepth : Option Int := some NestingLimit.greatest.levels
deriving DecidableEq

/-- Where the program stands among the arguments read so far. -/
inductive ProgramPlace where
  | missing
  | last
  | earlier
deriving DecidableEq

/-- What the arguments read so far ask for, with those that nothing took. -/
structure Reading where
  options : Options := {}
  place : ProgramPlace := .missing
  extras : List String := []

/-- Why the arguments are not read to the end: for the help, or for a misuse. -/
inductive Interruption where
  | help
  | misuse (misuse : Misuse)
deriving DecidableEq

namespace Reading

/-- Takes an argument that is no option: the first one is the program. -/
def takePlain (reading : Reading) (argument : String) : Reading :=
  match reading.place with
  | .missing =>
      { reading with options := { reading.options with program := some argument }, place := .last }
  | _ => { reading with place := .earlier, extras := reading.extras ++ [argument] }

/-- Takes note that an argument other than the program has been read. -/
def pass (reading : Reading) : Reading :=
  { reading with place := if reading.place = .missing then .missing else .earlier }

/-- Takes an option that stands alone. -/
def takeFlag (reading : Reading) (switch : Switch) : Except Interruption Reading :=
  let options := reading.options
  match switch with
  | .help => .error .help
  | .source => .ok { reading.pass with options := { options with source := true } }
  | .verbose => .ok { reading.pass with options := { options with verbose := true } }
  | .tracebackJson => .ok { reading.pass with options := { options with tracebackJson := true } }
  | .maxDepth => .error (.misuse (.missingArgument .maxDepth))

/-- The number that an argument gives, or none if it is two dashes. -/
def numberOf (switch : Switch) (argument : String) : Except Interruption (Option Int) :=
  if argument = "--" then .ok none
  else
    match Text.integer? argument with
    | some number => .ok (some number)
    | none => .error (.misuse (.invalidInteger switch argument))

/-- Takes an option with its argument, which only the nesting limit has. -/
def takeValue (reading : Reading) (switch : Switch) (argument : String) :
    Except Interruption Reading :=
  if switch = .maxDepth then do
    let maxDepth ← numberOf switch argument
    return { reading.pass with options := { reading.options with maxDepth } }
  else .error (.misuse (.ignoredArgument switch argument))

/-- How the characters behind an option with one dash end the reading. -/
def bundleEnd (switch : Switch) : List Char → Interruption
  | [] => .help
  | 'h' :: rest => bundleEnd .help rest
  | letters => .misuse (.ignoredArgument switch (String.ofList letters))

/-- Takes the arguments one after the other. -/
def takeAll (reading : Reading) : List Argument → Except Interruption Reading
  | [] => .ok reading
  | .option .maxDepth none :: .plain argument :: rest => do
      takeAll (← reading.takeValue .maxDepth argument) rest
  | .option switch none :: rest => do takeAll (← reading.takeFlag switch) rest
  | .option switch (some argument) :: rest => do
      takeAll (← reading.takeValue switch argument) rest
  | .bundle switch letters :: _ => .error (bundleEnd switch letters)
  | .unknown argument :: rest =>
      takeAll { reading.pass with extras := reading.extras ++ [argument] } rest
  | .plain argument :: rest => takeAll (reading.takePlain argument) rest

/--
Takes the arguments after two dashes. The two dashes themselves are dropped next to the program and
unrecognized elsewhere.
-/
def takeVerbatim (reading : Reading) (arguments : List String) : Reading :=
  match reading.place, arguments with
  | .missing, [] => reading
  | .missing, program :: rest =>
      { reading with
        options := { reading.options with program := some program }
        extras := reading.extras ++ rest }
  | .last, arguments => { reading with extras := reading.extras ++ arguments }
  | .earlier, arguments => { reading with extras := reading.extras ++ "--" :: arguments }

end Reading

/-- The arguments before two dashes, and those after them if there are any two dashes. -/
def splitVerbatim : List String → List String × Option (List String)
  | [] => ([], none)
  | "--" :: rest => ([], some rest)
  | argument :: rest =>
      let (before, verbatim) := splitVerbatim rest
      (argument :: before, verbatim)

/-- What the arguments say, or why they are not heeded. -/
def Options.ofArguments (arguments : List String) : Except Interruption Options := do
  let (before, verbatim) := splitVerbatim arguments
  let read ← match before.mapM Argument.ofText with
    | .ok read => pure read
    | .error misuse => throw (.misuse misuse)
  let reading ← Reading.takeAll {} read
  let reading := match verbatim with
    | some arguments => reading.takeVerbatim arguments
    | none => reading
  if reading.extras.isEmpty then
    return reading.options
  else
    throw (.misuse (.unrecognized reading.extras))

end BlockCalc.CommandLine
