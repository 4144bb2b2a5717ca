import BlockCalc.Text.Blank

/-!
# Decimal numerals

Numerals as a command line accepts them: decimal digits of any script, single underscores between
digits, a sign, and blanks around the whole. Such a numeral has at most `numeralLimit` digits.
-/

namespace BlockCalc.Text

/-- The zeros of the scripts that have ten consecutive decimal digits, in Unicode 14. -/
def decimalZeros : List Nat := [
  0x30, 0x660, 0x6F0, 0x7C0, 0x966, 0x9E6, 0xA66, 0xAE6, 0xB66, 0xBE6, 0xC66, 0xCE6, 0xD66, 0xDE6,
  0xE50, 0xED0, 0xF20, 0x1040, 0x1090, 0x17E0, 0x1810, 0x1946, 0x19D0, 0x1A80, 0x1A90, 0x1B50,
  0x1BB0, 0x1C40, 0x1C50, 0xA620, 0xA8D0, 0xA900, 0xA9D0, 0xA9F0, 0xAA50, 0xABF0, 0xFF10, 0x104A0,
  0x10D30, 0x11066, 0x110F0, 0x11136, 0x111D0, 0x112F0, 0x11450, 0x114D0, 0x11650, 0x116C0, 0x11730,
  0x118E0, 0x11950, 0x11C50, 0x11D50, 0x11DA0, 0x16A60, 0x16AC0, 0x16B50, 0x1D7CE, 0x1D7D8, 0x1D7E2,
  0x1D7EC, 0x1D7F6, 0x1E140, 0x1E2F0, 0x1E950, 0x1FBF0]

/-- The value of a character as a decimal digit of some script. -/
def decimalDigit? (character : Char) : Option Nat :=
  let code := character.toNat
  (decimalZeros.find? fun first => first ≤ code && code < first + 10).map (code - ·)

/-- The longest numeral, in digits, that is converted to a number. -/
def numeralLimit : Nat := 4300

/-- The digits of a numeral in which single underscores may stand between two digits. -/
def numeralDigits? : List Char → Option (List Nat)
  | [] => none
  | [last] => (decimalDigit? last).map ([·])
  | first :: '_' :: rest => do
      let digit ← decimalDigit? first
      return digit :: (← numeralDigits? rest)
  | first :: rest => do
      let digit ← decimalDigit? first
      return digit :: (← numeralDigits? rest)

/-- The number that a list of digits stands for, most significant digit first. -/
def ofDigits (base : Nat) (digits : List Nat) : Nat :=
  digits.foldl (fun number digit => number * base + digit) 0

/-- The natural number that an unsigned numeral stands for. -/
def natural? (characters : List Char) : Option Nat := do
  let digits ← numeralDigits? characters
  if digits.length ≤ numeralLimit then some (ofDigits 10 digits) else none

/-- The integer that a numeral stands for, with its sign and the blanks around it. -/
def integer? (text : String) : Option Int :=
  match trimWhere isNumeralBlank text.toList with
  | '-' :: digits => (natural? digits).map fun number => -(number : Int)
  | '+' :: digits => (natural? digits).map Int.ofNat
  | digits => (natural? digits).map Int.ofNat

end BlockCalc.Text
