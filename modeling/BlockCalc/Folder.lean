/-!
# Folders

Reading a file by its path, and how that fails. A `Folder` holds files and directories in memory,
below a place of which nothing else is known, and finds them as a file system does: empty steps and
single dots stay where they are, which has to be a directory, and two dots lead to the directory
above.
-/

namespace BlockCalc

/-- Why a file cannot be read. -/
inductive ReadFailure where
  | notFound
  /-- The file may not be read, which only happens in a real file system. -/
  | denied
  | notDirectory
  | isDirectory
  | nameTooLong
  | other (number : Nat) (message : String)
deriving DecidableEq

namespace ReadFailure

/-- The number that the operating system gives to a failure. -/
def number : ReadFailure → Nat
  | notFound => 2
  | denied => 13
  | notDirectory => 20
  | isDirectory => 21
  | nameTooLong => 36
  | other number _ => number

/-- What the operating system says of a failure. -/
def message : ReadFailure → String
  | notFound => "No such file or directory"
  | denied => "Permission denied"
  | notDirectory => "Not a directory"
  | isDirectory => "Is a directory"
  | nameTooLong => "File name too long"
  | other _ message => message

/-- The failure of a number, with what is said of it if it is none of those that have a name. -/
def ofNumber (number : Nat) (message : String) : ReadFailure :=
  match number with
  | 2 => notFound
  | 13 => denied
  | 20 => notDirectory
  | 21 => isDirectory
  | 36 => nameTooLong
  | number => other number message

end ReadFailure

/-- The steps of a path; `collected` is the current step so far, last character first. -/
def pathSteps (collected : List Char) : List Char → List String
  | [] => [String.ofList collected.reverse]
  | '/' :: rest => String.ofList collected.reverse :: pathSteps [] rest
  | character :: rest => pathSteps (character :: collected) rest

/-- What stands at a path. -/
inductive Node where
  | file (content : ByteArray)
  | directory

/-- Files and directories, each under its path. -/
structure Folder where
  files : List (List String × ByteArray) := []
  directories : List (List String) := []

namespace Folder

/-- The steps of a name without those that stay where they are. -/
def pathOf (name : String) : List String :=
  (pathSteps [] name.toList).filter fun step => step != "" && step != "."

/-- A folder of files and directories given by name. -/
def ofNames (files : List (String × ByteArray)) (directories : List String) : Folder where
  files := files.map fun (name, content) => (pathOf name, content)
  directories := directories.map pathOf

/-- What stands at a path, all directories above a file or directory included. -/
def node? (folder : Folder) (path : List String) : Option Node :=
  match folder.files.lookup path with
  | some content => some (.file content)
  | none =>
      if path.isEmpty || folder.directories.any path.isPrefixOf ||
          folder.files.any (fun (other, _) => path.isPrefixOf other) then
        some .directory
      else none

/-- The longest step of a path, in bytes. -/
def stepLimit : Nat := 255

/-- The longest path, in bytes. -/
def pathLimit : Nat := 4095

/-- Whether a step leads to no entry of its own. -/
def isDotStep (step : String) : Bool :=
  step == "" || step == "." || step == ".."

/-- Follows the steps of a path from a node whose own path, last step first, is `place`. -/
def walk (folder : Folder) : Node → (place : List String) → List String →
    Except ReadFailure Node
  | node, _, [] => .ok node
  | .file _, _, _ :: _ => .error .notDirectory
  | .directory, place, step :: rest =>
      if step = "" ∨ step = "." then walk folder .directory place rest
      else if step = ".." then
        match place with
        | _ :: above => walk folder .directory above rest
        | [] => .error (if rest.all isDotStep then .isDirectory else .notFound)
      else if stepLimit < step.utf8ByteSize then .error .nameTooLong
      else
        match folder.node? (step :: place).reverse with
        | some node => walk folder node (step :: place) rest
        | none => .error .notFound

/-- The content of a file. Nothing is known above the place where the folder is. -/
def read (folder : Folder) (name : String) : Except ReadFailure ByteArray :=
  if name = "" then .error .notFound
  else if pathLimit < name.utf8ByteSize then .error .nameTooLong
  else
    match pathSteps [] name.toList with
    | "" :: steps =>
        .error (if steps.all isDotStep then .isDirectory else .notFound)
    | steps =>
        match folder.walk .directory [] steps with
        | .ok (.file content) => .ok content
        | .ok .directory => .error .isDirectory
        | .error failure => .error failure

end Folder

end BlockCalc
