import BlockCalc.Location
import BlockCalc.Operator

/-!
# Tokens

The units that a program is written in. A token keeps the position of its first character. Words are
made of word characters, operators and brackets of punctuation, and strings of what stands between
double quotes, the quotes included.
-/

namespace BlockCalc

/-- A line and a column, both counted from one. -/
structure Position where
  line : Nat := 1
  column : Nat := 1
deriving DecidableEq

namespace Position

/-- The position after a character; only a line feed starts a new line. -/
def after (position : Position) (character : Char) : Position :=
  if character = '\n' then { line := position.line + 1 }
  else { position with column := position.column + 1 }

end Position

/-- What a character can be part of outside strings and comments. -/
inductive CharClass where
  | word
  | punctuation
  | space
deriving DecidableEq

/-- The class of a character: ASCII spaces, ASCII punctuation except the underscore, or word. -/
def CharClass.of (character : Char) : CharClass :=
  let code := character.toNat
  if code == 0x20 || code == 0x09 || code == 0x0A || code == 0x0D || code == 0x0C then .space
  else if (0x21 ≤ code && code ≤ 0x2F) || (0x3A ≤ code && code ≤ 0x40) ||
      (0x5B ≤ code && code ≤ 0x60 && code != 0x5F) || (0x7B ≤ code && code ≤ 0x7E) then .punctuation
  else .word

/-- What a token is made of: one kind per class of characters that are no spaces, and strings. -/
inductive TokenKind where
  | punctuation
  | word
  | string
deriving DecidableEq

/--
A unit of a program with the position of its first character and the operators that it writes.
Only punctuation writes operators. They are looked up once, where a token is made, and the token
carries the proof that they are the ones of its text.
-/
structure Token where
  kind : TokenKind
  text : String
  start : Position
  binary? : Option BinaryOp := if kind = .punctuation then BinaryOp.ofSymbol? text else none
  unary? : Option UnaryOp := if kind = .punctuation then UnaryOp.ofSymbol? text else none
  nonempty : text.toList ≠ [] := by decide
  binary?_eq : binary? = if kind = .punctuation then BinaryOp.ofSymbol? text else none := by rfl
  unary?_eq : unary? = if kind = .punctuation then UnaryOp.ofSymbol? text else none := by rfl
deriving DecidableEq

namespace Token

/-- A token is told by its kind, its text and its place; these settle the operators. -/
theorem ext_of_text {left right : Token} (kind : left.kind = right.kind)
    (text : left.text = right.text) (start : left.start = right.start) : left = right := by
  rcases left with ⟨_, _, _, _, _, _, binary, unary⟩
  rcases right with ⟨_, _, _, _, _, _, otherBinary, otherUnary⟩
  cases kind
  cases text
  cases start
  cases binary.trans otherBinary.symm
  cases unary.trans otherUnary.symm
  rfl

/-- The word that declares variables. -/
def letKeyword : String := "let"

/-- A token is punctuation that is written in a given way. -/
def isSymbol (token : Token) (symbol : String) : Bool :=
  token.kind = .punctuation && token.text == symbol

/-- A semicolon ends a statement. -/
def isSeparator (token : Token) : Bool :=
  token.isSymbol ";"

/-- The bracket that a token opens. -/
def opens? (token : Token) : Option Bracket :=
  if token.kind = .punctuation then Bracket.ofOpener? token.text else none

/-- The bracket that a token closes. -/
def closes? (token : Token) : Option Bracket :=
  if token.kind = .punctuation then Bracket.ofCloser? token.text else none

/-- A token is the word that declares variables. -/
def isLet (token : Token) : Bool :=
  token.kind = .word && token.text == letKeyword

/-- The first character of a token, which always has one. -/
def first (token : Token) : Char :=
  token.text.toList.head token.nonempty

/-- A word that starts with a decimal digit is an integer literal, or none at all. -/
def startsWithDigit (token : Token) : Bool :=
  token.first.isDigit

/-- Whether a token can name a variable. -/
def isIdentifier (token : Token) : Bool :=
  token.kind = .word && !token.startsWithDigit && !token.isLet

end Token

/-- How many more brackets tokens open than they close. -/
def unclosedBrackets (tokens : List Token) : Int :=
  (tokens.countP fun token => token.opens?.isSome) - (tokens.countP fun token => token.closes?.isSome)

end BlockCalc
