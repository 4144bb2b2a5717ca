import BlockCalc.Text.Blank
import BlockCalc.Text.Line

/-!
# Source text

The text that has been fed since the last evaluation, with its lines at hand. A location shows the
line that it is on without the blanks around it.
-/

namespace BlockCalc

/-- The trimmed lines of a text. -/
def statementsOf (text : String) : Array String :=
  ((Text.lines text).map Text.trim).toArray

/-- A text with its trimmed lines. -/
structure Source where
  text : String := ""
  /-- The lines of the text, split once when it is fed. -/
  statements : Array String := statementsOf text
  statements_eq : statements = statementsOf text := by rfl

namespace Source

/-- The source before any text is fed. -/
def empty : Source := {}

/-- The source with more text behind it, whose lines are split anew. -/
def append (source : Source) (text : String) : Source where
  text := source.text ++ text

/-- The trimmed text of a line, counted from one; a line that is not there has none. -/
def statement (source : Source) (line : Nat) : String :=
  match line with
  | 0 => ""
  | index + 1 => source.statements[index]?.getD ""

end Source

end BlockCalc
