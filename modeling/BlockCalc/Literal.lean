import BlockCalc.Text.Numeral
import BlockCalc.Value
import BlockCalc.Operation

/-!
# Literals

The values that tokens write out. A string literal stands for the characters between its quotes,
with backslashes left as they are. An integer literal is decimal, hexadecimal after `0x` or binary
after `0b`, may have underscores anywhere among its digits, and must fit into a word.
-/

namespace BlockCalc.Literal

/--
The characters of a literal without its closing quote. The literal, without its opening quote, is
read from its end; a quote after a backslash does not close, and the closing quote may be missing.
-/
def dropClosingQuote : (reversed : List Char) → List Char
  | '"' :: '\\' :: rest => '"' :: '\\' :: rest
  | '"' :: rest => rest
  | reversed => reversed

/-- The characters between the quotes of a string literal. -/
def stringBody (literal : List Char) : List Char :=
  let body := match literal with
    | '"' :: body => body
    | body => body
  (dropClosingQuote body.reverse).reverse

/-- The value of a string literal. -/
def string (literal : String) : Value :=
  .text (String.ofList (stringBody literal.toList))

/-- Why a token that starts with a digit is no integer. -/
inductive IntegerFault where
  /-- A digit is missing or wrong, or no word can hold the number. -/
  | invalid
  /-- The literal is decimal and has more digits than are converted. -/
  | tooLong (digits : Nat)
deriving DecidableEq

/-- The value of a character as a digit of a base of at most sixteen. -/
def digit? (base : Nat) (character : Char) : Option Nat :=
  let code := character.toNat
  let value :=
    if 0x30 ≤ code ∧ code ≤ 0x39 then some (code - 0x30)
    else if 0x61 ≤ code ∧ code ≤ 0x66 then some (code - 0x61 + 10)
    else if 0x41 ≤ code ∧ code ≤ 0x46 then some (code - 0x41 + 10)
    else none
  value.filter (· < base)

/-- The base of an integer literal with the characters that follow the mark of the base. -/
def splitBase : List Char → Nat × List Char
  | '0' :: 'x' :: digits => (16, digits)
  | '0' :: 'X' :: digits => (16, digits)
  | '0' :: 'b' :: digits => (2, digits)
  | '0' :: 'B' :: digits => (2, digits)
  | digits => (10, digits)

/-- The number that an integer literal writes out. -/
def integer (literal : String) : Except IntegerFault Int :=
  let (base, written) := splitBase literal.toList
  match (written.filter (· ≠ '_')).mapM (digit? base) with
  | none => .error .invalid
  | some [] => .error .invalid
  | some digits =>
      if base = 10 ∧ Text.numeralLimit < digits.length then .error (.tooLong digits.length)
      else
        let number : Int := Text.ofDigits base digits
        if Word.greatest < number then .error .invalid else .ok number

end BlockCalc.Literal
