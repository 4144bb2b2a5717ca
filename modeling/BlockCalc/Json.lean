/-!
# JSON documents

JSON values without floating-point numbers, and their layout over several lines: members and
elements stand on lines of their own, indented by two spaces a level, and the text is plain ASCII
because every other character is written by the UTF-16 units of its code.
-/

namespace BlockCalc

/-- A JSON value whose numbers are integers and whose members keep their order. -/
inductive Json where
  | null
  | bool (truth : Bool)
  | number (value : Int)
  | text (content : String)
  | array (elements : List Json)
  | object (members : List (String × Json))
deriving Inhabited

namespace Json

/-- An array of texts. -/
def texts (contents : List String) : Json :=
  .array (contents.map .text)

/-- A UTF-16 unit as an escape of four hexadecimal digits. -/
def unitEscape (unit : Nat) : List Char :=
  let digits := Nat.toDigits 16 unit
  '\\' :: 'u' :: (List.replicate (4 - digits.length) '0' ++ digits)

/-- How one character is written inside a JSON string. -/
def escapeChar (character : Char) : List Char :=
  match character with
  | '"' => ['\\', '"']
  | '\\' => ['\\', '\\']
  | '\n' => ['\\', 'n']
  | '\r' => ['\\', 'r']
  | '\t' => ['\\', 't']
  | '\x08' => ['\\', 'b']
  | '\x0c' => ['\\', 'f']
  | other =>
      let code := other.toNat
      if 0x20 ≤ code ∧ code < 0x7F then [other]
      else if code < 0x10000 then unitEscape code
      else
        let offset := code - 0x10000
        unitEscape (0xD800 + offset / 0x400) ++ unitEscape (0xDC00 + offset % 0x400)

/-- A text between double quotes, with escapes. -/
def encodeText (content : String) : String :=
  String.ofList ('"' :: content.toList.flatMap escapeChar ++ ['"'])

/-- A line feed followed by the indentation of a level. -/
def lineBreak (level : Nat) : String :=
  String.ofList ('\n' :: List.replicate (2 * level) ' ')

mutual

/-- A value laid out over several lines, starting at an indentation level. -/
def layout (level : Nat) : Json → String
  | .null => "null"
  | .bool truth => if truth then "true" else "false"
  | .number value => value.repr
  | .text content => encodeText content
  | .array [] => "[]"
  | .array (first :: rest) =>
      "[" ++ lineBreak (level + 1) ++ layout (level + 1) first ++ layoutElements level rest
  | .object [] => "\x7b\x7d"
  | .object ((name, value) :: rest) =>
      "\x7b" ++ lineBreak (level + 1) ++ encodeText name ++ ": " ++ layout (level + 1) value ++
        layoutMembers level rest

/-- The elements after the first one, with the closing bracket. -/
def layoutElements (level : Nat) : List Json → String
  | [] => lineBreak level ++ "]"
  | element :: rest =>
      "," ++ lineBreak (level + 1) ++ layout (level + 1) element ++ layoutElements level rest

/-- The members after the first one, with the closing brace. -/
def layoutMembers (level : Nat) : List (String × Json) → String
  | [] => lineBreak level ++ "\x7d"
  | (name, value) :: rest =>
      "," ++ lineBreak (level + 1) ++ encodeText name ++ ": " ++ layout (level + 1) value ++
        layoutMembers level rest

end

/-- A document laid out over several lines. -/
def pretty (document : Json) : String :=
  document.layout 0

end Json

end BlockCalc
