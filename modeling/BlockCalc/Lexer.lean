import BlockCalc.Token

/-!
# The lexer

Cuts text into tokens. Spaces and strings end the token before them, and so does a character of the
other class. Of two punctuation characters the second one joins the first if together they write a
binary operator. Comments are skipped as if they were not there, so a token goes on after a comment
in its midst. A string that is not closed goes on to the end of the text that is fed, and so does a
block comment; the next text starts afresh.
-/

namespace BlockCalc

/-- What the characters that are being read belong to. -/
inductive ScanMode where
  | code
  | string
  | lineComment
  | blockComment
deriving DecidableEq

/--
The characters read so far of the token in hand, last one first, and where the first one stands.
-/
structure Lexeme where
  reversed : List Char := []
  start : Position := {}

namespace Lexeme

/-- The lexeme of a character that stands at a position. -/
def single (character : Char) (position : Position) : Lexeme :=
  ⟨[character], position⟩

/-- A lexeme with one more character; the first one settles where the lexeme stands. -/
def push (lexeme : Lexeme) (character : Char) (position : Position) : Lexeme :=
  match lexeme.reversed with
  | [] => single character position
  | _ :: _ => { lexeme with reversed := character :: lexeme.reversed }

/-- Whether a character that is no space continues a lexeme. -/
def joins (lexeme : Lexeme) (character : Char) : Bool :=
  match lexeme.reversed with
  | [] => true
  | last :: _ =>
      match CharClass.of character, CharClass.of last with
      | .word, .word => true
      | .punctuation, .punctuation =>
          (BinaryOp.ofSymbol? (String.ofList (character :: lexeme.reversed).reverse)).isSome
      | _, _ => false

/-- Whether a double quote after a lexeme closes the string that the lexeme begins. -/
def closesString (lexeme : Lexeme) : Bool :=
  match lexeme.reversed with
  | [] => false
  | last :: _ => last != '\\'

/-- The kind of the token that a lexeme outside strings becomes, by its first character. -/
def kind (lexeme : Lexeme) : TokenKind :=
  match lexeme.reversed.getLast? with
  | some first => if CharClass.of first = .punctuation then .punctuation else .word
  | none => .word

/-- The token of a lexeme that ends while reading in a mode, if it has any characters. -/
def tokens (lexeme : Lexeme) (mode : ScanMode) : List Token :=
  match lexeme.reversed with
  | [] => []
  | last :: before =>
      let kind := if mode = .string then .string else lexeme.kind
      let text := String.ofList (last :: before).reverse
      [{ kind, text, start := lexeme.start
         binary? := if kind = .punctuation then BinaryOp.ofSymbol? text else none
         unary? := if kind = .punctuation then UnaryOp.ofSymbol? text else none
         nonempty := by simp [text] }]

end Lexeme

/-- The tokens of a text, with the position of its end; `pending` is the token in hand. -/
def scan (mode : ScanMode) (pending : Lexeme) (position : Position) :
    List Char → List Token × Position
  | [] => (pending.tokens mode, position)
  | character :: rest =>
      match mode with
      | .string =>
          let lexeme := pending.push character position
          if character = '"' ∧ pending.closesString then
            let (following, stop) := scan .code {} (position.after character) rest
            (lexeme.tokens .string ++ following, stop)
          else scan .string lexeme (position.after character) rest
      | .lineComment =>
          if character = '\n' then
            let (following, stop) := scan .code {} (position.after character) rest
            (pending.tokens .code ++ following, stop)
          else scan .lineComment pending (position.after character) rest
      | .blockComment =>
          match character, rest with
          | '*', '/' :: rest => scan .code pending ((position.after '*').after '/') rest
          | _, rest => scan .blockComment pending (position.after character) rest
      | .code =>
          match character, rest with
          | '/', '/' :: rest => scan .lineComment pending ((position.after '/').after '/') rest
          | '/', '*' :: rest => scan .blockComment pending ((position.after '/').after '*') rest
          | _, rest =>
              if CharClass.of character = .space then
                let (following, stop) := scan .code {} (position.after character) rest
                (pending.tokens .code ++ following, stop)
              else if character = '"' then
                let (following, stop) :=
                  scan .string (.single character position) (position.after character) rest
                (pending.tokens .code ++ following, stop)
              else if pending.joins character then
                scan .code (pending.push character position) (position.after character) rest
              else
                let (following, stop) :=
                  scan .code (.single character position) (position.after character) rest
                (pending.tokens .code ++ following, stop)

/-- The tokens that wait for evaluation, and the position at which the next text starts. -/
structure Lexer where
  tokens : List Token := []
  position : Position := {}
deriving DecidableEq

namespace Lexer

/-- The lexer that was fed nothing. -/
def fresh : Lexer := {}

/-- The tokens of a text that follows what was fed before. -/
def newTokens (lexer : Lexer) (text : String) : List Token :=
  (scan .code {} lexer.position text.toList).1

/-- The lexer after a text, with the tokens of the text at the end of its buffer. -/
def feed (lexer : Lexer) (text : String) : Lexer :=
  let (tokens, position) := scan .code {} lexer.position text.toList
  { tokens := lexer.tokens ++ tokens, position }

/-- How many more brackets the waiting tokens open than they close. -/
def unclosed (lexer : Lexer) : Int :=
  unclosedBrackets lexer.tokens

end Lexer

end BlockCalc
