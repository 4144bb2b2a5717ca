import BlockCalc.Failure
import BlockCalc.Table

/-!
# Scopes

A scope is a stack of frames, one for the top level and one for each open block. A name denotes its
binding in the innermost frame that has one, so a declaration in a block shadows those outside until
the block is left. The frame of the top level is always there, which the type records.
-/

namespace BlockCalc

/-- The bindings of one block in the order of their declarations. -/
abbrev Frame := Table Value

/-- Frames that are searched from the innermost one outward. -/
structure Scope where
  top : Frame := .empty
  /-- The frames of the open blocks, innermost first. -/
  blocks : List Frame := []
deriving DecidableEq

/-- Sets a name in the first frame that binds it. -/
def assignFirst? (name : String) (value : Value) : List Frame → Option (List Frame)
  | [] => none
  | frame :: rest =>
      if frame.contains name then some (frame.insert name value :: rest)
      else (assignFirst? name value rest).map (frame :: ·)

/-- The longest text that a snapshot shows in full. -/
def snapshotWidth : Nat := 80

/-- A text of at most `snapshotWidth` characters, the last three of which are dots if it was cut. -/
def clip (text : String) : String :=
  let characters := text.toList
  if characters.length ≤ snapshotWidth then text
  else String.ofList (characters.take (snapshotWidth - 3)) ++ "..."

namespace Scope

/-- The scope without bindings, outside all blocks. -/
def empty : Scope := {}

/-- How many blocks are entered. -/
def depth (scope : Scope) : Nat :=
  scope.blocks.length

/-- The frames in the order in which they are searched. -/
def innermostFirst (scope : Scope) : List Frame :=
  scope.blocks ++ [scope.top]

/-- The frames in the order in which they were entered. -/
def outermostFirst (scope : Scope) : List Frame :=
  scope.top :: scope.blocks.reverse

/-- The frame in which declarations go. -/
def innermost (scope : Scope) : Frame :=
  match scope.blocks with
  | [] => scope.top
  | frame :: _ => frame

/-- Replaces the frame in which declarations go. -/
def withInnermost (scope : Scope) (frame : Frame) : Scope :=
  match scope.blocks with
  | [] => { scope with top := frame }
  | _ :: outer => { scope with blocks := frame :: outer }

/-- Whether the innermost frame lacks a name, so that a declaration of it makes a binding. -/
def isNew (scope : Scope) (name : String) : Bool :=
  !scope.innermost.contains name

/-- Declares a name in the innermost frame; a name that is there keeps its value. -/
def declare (scope : Scope) (name : String) : Scope :=
  scope.withInnermost (scope.innermost.insertIfNew name .uninitialized)

/-- The value of a name in the innermost frame that binds it. -/
def read? (scope : Scope) (name : String) : Option Value :=
  scope.innermostFirst.findSome? (·.get? name)

/-- Whether some frame binds a name. -/
def has (scope : Scope) (name : String) : Bool :=
  scope.innermostFirst.any (·.contains name)

/-- The value of a name, which must be bound. -/
def read (scope : Scope) (name : String) : Except Cause Value :=
  match scope.read? name with
  | some value => .ok value
  | none => .error (.variableNotFound name)

/-- Sets the binding that a name denotes. -/
def assign (scope : Scope) (name : String) (value : Value) : Except Cause Scope :=
  match assignFirst? name value scope.blocks with
  | some blocks => .ok { scope with blocks }
  | none =>
      if scope.top.contains name then .ok { scope with top := scope.top.insert name value }
      else .error (.variableNotFound name)

/-- Replaces the value of a name by what `change` makes of it, and gives the new value too. -/
def update (scope : Scope) (name : String) (change : Value → Except Cause Value) :
    Except Cause (Value × Scope) := do
  let value ← change (← scope.read name)
  return (value, ← scope.assign name value)

/-- Enters a block, which has no bindings yet. -/
def enter (scope : Scope) : Scope :=
  { scope with blocks := .empty :: scope.blocks }

/-- Leaves the innermost block and gives its frame; the top level cannot be left. -/
def exit (scope : Scope) : Except Cause (Frame × Scope) :=
  match scope.blocks with
  | [] => .error (.unhandled .outermostExit)
  | frame :: outer => .ok (frame, { scope with blocks := outer })

/-- Leaves all blocks. -/
def unwind (scope : Scope) : Scope :=
  { scope with blocks := [] }

/-- The visible bindings, each name at the place of its outermost frame. -/
def visible (scope : Scope) : Table Value :=
  scope.outermostFirst.foldl (fun table frame => table.insertMany frame.entries) .empty

/-- The visible bindings as they are shown, long texts cut. -/
def snapshot (scope : Scope) : Table String :=
  scope.visible.map fun value => clip value.render

end Scope

end BlockCalc
