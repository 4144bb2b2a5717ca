import BlockCalc.Failure
import BlockCalc.StepLog

/-!
# Tracebacks

How a failure is reported: the groups that were open, outermost first, where it struck, and the last
step before it as the log has it. A traceback is written as plain text or as a JSON document.
-/

namespace BlockCalc.Traceback

/-- One level of a traceback; the top level has no location. -/
structure Level where
  name : String
  location : Option Location
deriving DecidableEq

/-- The name of a level that a group opens. -/
def groupName (group : Group) : String :=
  let kind := match group.bracket with
    | .round => "group"
    | .curly => "block"
  kind ++ " '" ++ group.bracket.opener ++ "' (depth " ++ group.depth.repr ++ ")"

/-- The levels of a failure, outermost first. -/
def levels (failure : Failure) : List Level :=
  { name := "<top-level>", location := none } ::
    failure.groups.map fun group => { name := groupName group, location := some group.location }

/-- The log entry of the last step before a failure. -/
def lastStep? (log : StepLog) (failure : Failure) : Option Entry :=
  failure.stepIndex.bind fun index => log.find? index

/-- A statement on a line of its own, unless it is empty. -/
def statementLine (statement : String) : List String :=
  if statement = "" then [] else ["    " ++ statement]

/-- The lines of a level. -/
def levelLines (fileName : String) (level : Level) : List String :=
  match level.location with
  | none => ["  File \"" ++ fileName ++ "\", in " ++ level.name]
  | some location =>
      ("  File \"" ++ location.file ++ "\", line " ++ location.line.repr ++ ", column " ++
        location.column.repr ++ ", in " ++ level.name) :: statementLine location.statement

/-- The lines that say where a failure struck. -/
def placeLines : Option Location → List String
  | none => []
  | some location =>
      ("  Failed at line " ++ location.line.repr ++ ", column " ++ location.column.repr) ::
        statementLine location.statement

/-- Bindings on one line. -/
def bindingsText (bindings : Table String) : String :=
  ", ".intercalate (bindings.entries.map fun (name, value) => name ++ "=" ++ value)

/-- The lines about the last step before a failure, with its bindings if they are wanted. -/
def entryLines (verbose : Bool) : Option Entry → List String
  | none => []
  | some entry =>
      ("    State log index: " ++ entry.index.repr ++ "  State id: " ++ entry.id) ::
        match verbose, entry.bindings with
        | true, some bindings => ["    Env snapshot: " ++ bindingsText bindings]
        | _, _ => []

/-- The traceback of a failure as text. -/
def text (fileName : String) (log : StepLog) (verbose : Bool) (failure : Failure) : String :=
  "\n".intercalate
    (["Traceback (innermost group last):"] ++
      (levels failure).flatMap (levelLines fileName) ++
      placeLines failure.location ++
      entryLines verbose (lastStep? log failure) ++
      [failure.cause.title ++ ": " ++ failure.cause.message ++ " (kind: " ++ failure.cause.kind ++
        ")"])

/-- A location as a JSON object. -/
def locationJson (location : Location) : Json :=
  .object [("file", .text location.file), ("line", .number location.line),
    ("column", .number location.column), ("statement", .text location.statement)]

/-- A member that is left out if there is nothing to tell. -/
def member? (name : String) (value : Option Json) : List (String × Json) :=
  match value with
  | none => []
  | some value => [(name, value)]

/-- A level as a JSON object. -/
def levelJson (level : Level) (index : Nat) : Json :=
  .object
    ([("frame_index", .number index), ("name", .text level.name)] ++
      member? "source_location" (level.location.map locationJson))

/-- Bindings as a JSON object. -/
def bindingsJson (bindings : Table String) : Json :=
  .object (bindings.entries.map fun (name, value) => (name, .text value))

/-- The members about the last step before a failure. -/
def entryMembers : Option Entry → List (String × Json)
  | none => []
  | some entry =>
      [("state_id", .text entry.id), ("rewrite_record", .object entry.record.entries)] ++
        member? "env_snapshot" (entry.bindings.map bindingsJson)

/-- The traceback of a failure as a JSON document. -/
def json (log : StepLog) (failure : Failure) : Json :=
  .object [
    ("error", .object
      ([("type", .text failure.cause.title), ("kind", .text failure.cause.kind),
        ("message", .text failure.cause.message),
        ("failing_step_index", match failure.stepIndex with
          | none => .null
          | some index => .number index)] ++
        member? "source_location" (failure.location.map locationJson) ++
        entryMembers (lastStep? log failure))),
    ("traceback", .array ((levels failure).zipIdx.map fun (level, index) => levelJson level index))]

end BlockCalc.Traceback
