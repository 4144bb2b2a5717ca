/-!
# Values

The values that expressions compute, and how a value is shown. A pointer holds the value it was made
from, so it is a copy and not a reference: assigning to the variable later does not change it.
-/

namespace BlockCalc

/-- What an expression evaluates to and what a variable holds. -/
inductive Value where
  /-- The result of a statement that yields nothing. -/
  | void
  /-- What a variable holds between its declaration and its first assignment. -/
  | uninitialized
  | integer (number : Int)
  | text (content : String)
  | pointer (target : Value)
deriving DecidableEq, Inhabited

namespace Value

/-- How one character of a text is shown: a backslash or a double quote after a backslash. -/
def escapeChar (character : Char) : List Char :=
  if character = '\\' ∨ character = '"' then ['\\', character] else [character]

/-- The characters that show a text between its quotes. -/
def escape (content : String) : String :=
  String.ofList (content.toList.flatMap escapeChar)

/-- The text that shows a value. -/
def render : Value → String
  | void => "Void"
  | uninitialized => "Uninitialized"
  | integer number => "Integer(" ++ number.repr ++ ")"
  | text content => "String(\"" ++ escape content ++ "\")"
  | pointer target => "Pointer(" ++ render target ++ ")"

end Value

end BlockCalc
