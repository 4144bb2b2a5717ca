/-!
# Locations and brackets

A location names a place in a source by file, line and column, and carries the text of its line. A
group is a bracket that is open, with the place where it was opened.
-/

namespace BlockCalc

/-- A place in a source, with the trimmed text of the line that it is on. -/
structure Location where
  file : String
  /-- Lines count from one. -/
  line : Nat
  /-- Columns count characters from one. -/
  column : Nat
  statement : String
deriving DecidableEq

/-- The two kinds of brackets: round ones hold an expression, curly ones a block of statements. -/
inductive Bracket where
  | round
  | curly
deriving DecidableEq

namespace Bracket

/-- How a bracket is opened. -/
def opener : Bracket → String
  | round => "("
  | curly => "\x7b"

/-- How a bracket is closed. -/
def closer : Bracket → String
  | round => ")"
  | curly => "\x7d"

/-- The bracket that a text opens. -/
def ofOpener? (symbol : String) : Option Bracket :=
  if symbol = round.opener then some round
  else if symbol = curly.opener then some curly
  else none

/-- The bracket that a text closes. -/
def ofCloser? (symbol : String) : Option Bracket :=
  if symbol = round.closer then some round
  else if symbol = curly.closer then some curly
  else none

end Bracket

/-- An open bracket; the outermost one has depth one. -/
structure Group where
  bracket : Bracket
  location : Location
  depth : Nat
deriving DecidableEq

end BlockCalc
