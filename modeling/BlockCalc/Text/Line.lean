/-!
# Lines of a text

Two readings of where a line ends. `lines` takes every Unicode line boundary as an end and gives no
empty line after the last one, while `unifyLineEnds` is what reading a file does: it writes every
kind of carriage return as a line feed and leaves all other characters alone.
-/

namespace BlockCalc.Text

/-- A character ends a line: line feeds, carriage returns, and all other boundaries of lines. -/
def isLineEnd (character : Char) : Bool :=
  let code := character.toNat
  (0x0A ≤ code && code ≤ 0x0D) || (0x1C ≤ code && code ≤ 0x1E) || code == 0x85 ||
    code == 0x2028 || code == 0x2029

/-- The lines of a text, of which `collected` is the current line so far, last character first. -/
def splitLines (collected : List Char) : List Char → List (List Char)
  | [] => if collected.isEmpty then [] else [collected.reverse]
  | '\r' :: '\n' :: rest => collected.reverse :: splitLines [] rest
  | character :: rest =>
      if isLineEnd character then collected.reverse :: splitLines [] rest
      else splitLines (character :: collected) rest

/-- The lines of a text without their ends. -/
def lines (text : String) : List String :=
  (splitLines [] text.toList).map String.ofList

/-- Writes each carriage return, with the line feed that may follow it, as one line feed. -/
def unifyReturns : List Char → List Char
  | [] => []
  | '\r' :: '\n' :: rest => '\n' :: unifyReturns rest
  | character :: rest => (if character = '\r' then '\n' else character) :: unifyReturns rest

/-- The text with every line end of a file written as a line feed. -/
def unifyLineEnds (text : String) : String :=
  String.ofList (unifyReturns text.toList)

/--
The lines of an input stream without their line feeds; a last line without one counts, and nothing
after the last line feed does not.
-/
def feedLines (collected : List Char) : List Char → List String
  | [] => if collected.isEmpty then [] else [String.ofList collected.reverse]
  | '\n' :: rest => String.ofList collected.reverse :: feedLines [] rest
  | character :: rest => feedLines (character :: collected) rest

end BlockCalc.Text
