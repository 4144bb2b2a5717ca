/-!
# Blank characters

The characters that count as empty space around a text, and the removal of such space from both
ends. The class is the Unicode white space together with the four separators U+001C to U+001F.
Blanks around a numeral are a smaller class, because those four separators do not surround numbers.
-/

namespace BlockCalc.Text

/-- A blank is Unicode white space or one of the four information separators. -/
def isBlank (character : Char) : Bool :=
  let code := character.toNat
  (0x09 ≤ code && code ≤ 0x0D) || (0x1C ≤ code && code ≤ 0x20) || code == 0x85 || code == 0xA0 ||
    code == 0x1680 || (0x2000 ≤ code && code ≤ 0x200A) || code == 0x2028 || code == 0x2029 ||
    code == 0x202F || code == 0x205F || code == 0x3000

/-- Blanks that may surround a numeral. -/
def isNumeralBlank (character : Char) : Bool :=
  isBlank character && !(0x1C ≤ character.toNat && character.toNat ≤ 0x1F)

/-- Drops the characters of a class from both ends. -/
def trimWhere (drops : Char → Bool) (characters : List Char) : List Char :=
  ((characters.dropWhile drops).reverse.dropWhile drops).reverse

/-- A text without the blanks around it. -/
def trim (text : String) : String :=
  String.ofList (trimWhere isBlank text.toList)

end BlockCalc.Text
