import BlockCalc.Text.Printable

/-!
# Quoted text

A text between quotes, as a message shows a name or an argument. Single quotes are used unless the
text holds a single quote and no double quote. A backslash and the quote in use are escaped, and a
character that is not printable is written by its code in two, four or eight hexadecimal digits.
-/

namespace BlockCalc.Text

/-- The lower-case hexadecimal digits of a number, with zeros in front up to a width. -/
def hexadecimal (width number : Nat) : List Char :=
  let digits := Nat.toDigits 16 number
  List.replicate (width - digits.length) '0' ++ digits

/-- How one character is written between quotes of a given kind. -/
def quoteChar (quote character : Char) : List Char :=
  if character = quote ∨ character = '\\' then ['\\', character]
  else if character = '\t' then ['\\', 't']
  else if character = '\n' then ['\\', 'n']
  else if character = '\r' then ['\\', 'r']
  else if isPrintable character then [character]
  else
    let code := character.toNat
    if code < 0x100 then '\\' :: 'x' :: hexadecimal 2 code
    else if code < 0x10000 then '\\' :: 'u' :: hexadecimal 4 code
    else '\\' :: 'U' :: hexadecimal 8 code

/-- The quotes that a text is shown in. -/
def quoteFor (characters : List Char) : Char :=
  if characters.contains '\'' && !characters.contains '"' then '"' else '\''

/-- A text as it is shown between quotes. -/
def quoted (text : String) : String :=
  let quote := quoteFor text.toList
  String.ofList (quote :: text.toList.flatMap (quoteChar quote) ++ [quote])

end BlockCalc.Text
