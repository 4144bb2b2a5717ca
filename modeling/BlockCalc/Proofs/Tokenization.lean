import BlockCalc.Lexer
import Mathlib.Data.List.Chain

/-!
# Tokens and the text that they come from

The pieces of a text are what comments leave of it: characters of code, string literals, and blanks
where a space stood. They are found without any notion of a token. This file proves that the tokens
of a text lie in its pieces from left to right, each piece that is no blank in exactly one of them,
and that no token could have been longer: where two tokens meet without a blank between them, the
first one does not go on with the first character of the second one.
-/

namespace BlockCalc

namespace BinaryOp

theorem ofSymbol?_eq_some_iff {text : String} {operator : BinaryOp} :
    ofSymbol? text = some operator ↔ text = operator.symbol := by
  constructor
  · intro found
    have same := List.find?_some found
    exact (beq_iff_eq.mp same).symm
  · rintro rfl
    cases operator <;> rfl

theorem punctuation_symbol (operator : BinaryOp) :
    ∀ character ∈ operator.symbol.toList, CharClass.of character = .punctuation := by
  have all : operator.symbol.toList.all (CharClass.of · = .punctuation) := by
    cases operator <;> decide
  simpa using all

end BinaryOp

theorem UnaryOp.ofSymbol?_eq_some_iff {text : String} {operator : UnaryOp} :
    ofSymbol? text = some operator ↔ text = operator.symbol := by
  constructor
  · intro found
    have same := List.find?_some found
    exact (beq_iff_eq.mp same).symm
  · rintro rfl
    cases operator <;> rfl

/-- What is left of a text without its comments: characters, whole literals, and blanks. -/
inductive Piece where
  | code (character : Char)
  /-- A string literal with its quotes, of which the closing one may be missing. -/
  | string (literal : List Char)
  | blank

/-- The characters that a piece has a part in tokens with. -/
def Piece.characters : Piece → List Char
  | code character => [character]
  | string literal => literal
  | blank => []

/-- What follows a block comment, seen from a place inside it. -/
def afterBlockComment : List Char → List Char
  | [] => []
  | '*' :: '/' :: rest => rest
  | _ :: rest => afterBlockComment rest

/-- The part of a block comment that starts at a place inside it. -/
def insideBlockComment : List Char → List Char
  | [] => []
  | '*' :: '/' :: _ => ['*', '/']
  | character :: rest => character :: insideBlockComment rest

theorem insideBlockComment_append_after (text : List Char) :
    insideBlockComment text ++ afterBlockComment text = text := by
  fun_induction insideBlockComment text with
  | case1 => rfl
  | case2 rest => rfl
  | case3 character rest noEnd ih => simpa [afterBlockComment] using ih

/--
The rest of a string literal behind one of its characters, and what follows the literal. A double
quote ends the literal unless a backslash stands directly before it.
-/
def splitString (previous : Char) : List Char → List Char × List Char
  | [] => ([], [])
  | character :: rest =>
      if character = '"' ∧ previous ≠ '\\' then ([character], rest)
      else
        let (literal, following) := splitString character rest
        (character :: literal, following)

theorem length_afterBlockComment_le (text : List Char) :
    (afterBlockComment text).length ≤ text.length := by
  fun_induction afterBlockComment text with
  | case1 => simp
  | case2 rest => simp; omega
  | case3 first rest _ ih => simp; omega

theorem length_splitString_le (previous : Char) (text : List Char) :
    (splitString previous text).2.length ≤ text.length := by
  fun_induction splitString previous text with
  | case1 => simp
  | case2 => simp
  | case3 previous character rest _ literal following split ih =>
      simp only [split] at ih
      simp
      omega

/-- The pieces of a text. A line comment ends before the line feed, which is a blank. -/
def pieces : List Char → List Piece
  | [] => []
  | '/' :: '/' :: rest => pieces (rest.dropWhile (· ≠ '\n'))
  | '/' :: '*' :: rest => pieces (afterBlockComment rest)
  | '"' :: rest => .string ('"' :: (splitString '"' rest).1) :: pieces (splitString '"' rest).2
  | character :: rest =>
      if CharClass.of character = .space then .blank :: pieces rest
      else .code character :: pieces rest
termination_by text => text.length
decreasing_by
  · have := (List.dropWhile_suffix (l := rest) (· ≠ '\n')).length_le
    simp only [List.length_cons]
    omega
  · have := length_afterBlockComment_le rest
    simp only [List.length_cons]
    omega
  · have := length_splitString_le '"' rest
    simp only [List.length_cons]
    omega
  · simp
  · simp

namespace Token

/-- The token is written as its kind demands. -/
def Proper (token : Token) : Prop :=
  match token.kind with
  | .string => token.text.toList.head? = some '"'
  | .word => ∀ character ∈ token.text.toList, CharClass.of character = .word
  | .punctuation =>
      (∃ character, token.text.toList = [character] ∧ CharClass.of character = .punctuation) ∨
        ∃ operator : BinaryOp, token.text = operator.symbol

/-- The pieces of a text that a token stands for. -/
def pieces (token : Token) : List Piece :=
  match token.kind with
  | .string => [.string token.text.toList]
  | _ => token.text.toList.map .code

/-- Two tokens that meet are not two words, nor together the start of an operator. -/
structure Apart (left right : Token) : Prop where
  words : ¬(left.kind = .word ∧ right.kind = .word)
  operator : left.kind = .punctuation → right.kind = .punctuation →
    ∀ operator : BinaryOp, left.text.push right.first ≠ operator.symbol

end Token

/-- Tokens in the order of a text, with `none` for each blank between them. -/
abbrev Layout := List (Option Token)

namespace Layout

/-- The pieces of the tokens and blanks of a layout. -/
def pieces (layout : Layout) : List Piece :=
  layout.flatMap fun
    | some token => token.pieces
    | none => [.blank]

theorem characters_pieces_token (token : Token) :
    token.pieces.flatMap Piece.characters = token.text.toList := by
  simp only [Token.pieces]
  split <;> simp [Piece.characters, List.flatMap_map]

theorem characters_pieces (layout : Layout) :
    layout.pieces.flatMap Piece.characters =
      (layout.filterMap id).flatMap (·.text.toList) := by
  induction layout with
  | nil => rfl
  | cons first rest ih =>
      cases first with
      | none => simpa [pieces, Piece.characters] using ih
      | some token => simpa [pieces, characters_pieces_token] using ih

/-- Wherever two tokens meet without a blank between them, they stay apart. -/
def Maximal (layout : Layout) : Prop :=
  layout.IsChain fun left right =>
    ∀ token next, left = some token → right = some next → token.Apart next

end Layout

/-- How the tokens of a text lie in its pieces. -/
structure Lies (layout : Layout) (pieces : List Piece) (tokens : List Token) : Prop where
  tokens_eq : layout.filterMap id = tokens
  pieces_eq : layout.pieces = pieces
  proper : ∀ token ∈ tokens, token.Proper
  maximal : layout.Maximal

namespace Lexeme

/-- The characters of a lexeme in the order of reading. -/
def characters (lexeme : Lexeme) : List Char :=
  lexeme.reversed.reverse

/-- The lexeme is empty, begins a word, or is punctuation that may stand together. -/
def Proper (lexeme : Lexeme) : Prop :=
  (∀ character ∈ lexeme.characters, CharClass.of character = .word) ∨
    (∀ character ∈ lexeme.characters, CharClass.of character = .punctuation) ∧
      (lexeme.characters.length = 1 ∨
        ∃ operator : BinaryOp, String.ofList lexeme.characters = operator.symbol)

theorem proper_empty : Proper {} :=
  Or.inl (by simp [characters])

theorem proper_single {character : Char} (noSpace : CharClass.of character ≠ .space)
    (position : Position) : (single character position).Proper := by
  simp only [Proper, characters, single, List.reverse_singleton, List.mem_singleton, forall_eq,
    List.length_singleton, true_or, and_true]
  cases class_ : CharClass.of character with
  | word => exact Or.inl rfl
  | punctuation => exact Or.inr rfl
  | space => exact absurd class_ noSpace

@[simp]
theorem characters_push (lexeme : Lexeme) (character : Char) (position : Position) :
    (lexeme.push character position).characters = lexeme.characters ++ [character] := by
  rcases lexeme with ⟨_ | ⟨last, before⟩, start⟩ <;> simp [push, single, characters]

theorem proper_push {lexeme : Lexeme} (proper : lexeme.Proper) {character : Char}
    (noSpace : CharClass.of character ≠ .space) (joins : lexeme.joins character = true)
    (position : Position) : (lexeme.push character position).Proper := by
  rcases lexeme with ⟨_ | ⟨last, before⟩, start⟩
  · exact proper_single noSpace position
  · have lastMember : last ∈ characters ⟨last :: before, start⟩ := by simp [characters]
    simp only [Lexeme.joins] at joins
    simp only [Proper, characters_push, List.mem_append, List.mem_singleton]
    split at joins
    · rename_i word lastWord
      left
      rcases proper with words | ⟨punctuation, _⟩
      · rintro other (member | rfl)
        · exact words other member
        · exact word
      · simp [punctuation last lastMember] at lastWord
    · rename_i isPunctuation lastPunctuation
      right
      rcases proper with words | ⟨punctuation, _⟩
      · simp [words last lastMember] at lastPunctuation
      · refine ⟨?_, Or.inr ?_⟩
        · rintro other (member | rfl)
          · exact punctuation other member
          · exact isPunctuation
        · rcases Option.isSome_iff_exists.mp joins with ⟨operator, found⟩
          refine ⟨operator, ?_⟩
          simpa [characters] using BinaryOp.ofSymbol?_eq_some_iff.mp found
    · cases joins

theorem kind_of_class {last : Char} {before : List Char} {start : Position} {class_ : CharClass}
    (all : ∀ character ∈ characters ⟨last :: before, start⟩, CharClass.of character = class_) :
    kind ⟨last :: before, start⟩ = if class_ = .punctuation then .punctuation else .word := by
  have nonempty := List.cons_ne_nil last before
  have first : CharClass.of ((last :: before).getLast nonempty) = class_ :=
    all _ (List.mem_reverse.mpr (List.getLast_mem nonempty))
  simp only [kind, List.getLast?_eq_some_getLast nonempty, first]

theorem tokens_code {lexeme : Lexeme} (proper : lexeme.Proper) :
    lexeme.characters = [] ∧ lexeme.tokens .code = [] ∨
      ∃ token : Token, lexeme.tokens .code = [token] ∧ token.Proper ∧ token.kind ≠ .string ∧
        token.text.toList = lexeme.characters := by
  rcases lexeme with ⟨_ | ⟨last, before⟩, start⟩
  · exact Or.inl ⟨rfl, rfl⟩
  · refine Or.inr ⟨_, rfl, ?_⟩
    rcases proper with words | ⟨punctuation, together⟩
    · have kind := kind_of_class words
      simp only [Token.Proper, kind]
      refine ⟨?_, by simp, by simp [characters]⟩
      simpa [characters] using words
    · have kind := kind_of_class punctuation
      simp only [Token.Proper, kind]
      refine ⟨?_, by simp, by simp [characters]⟩
      rcases together with single | operator
      · rcases List.length_eq_one_iff.mp single with ⟨character, alone⟩
        refine Or.inl ⟨character, by simpa [characters] using alone, ?_⟩
        exact punctuation character (by simp [alone])
      · exact Or.inr operator

end Lexeme

theorem scan_code_lineComment (pending : Lexeme) (position : Position) (rest : List Char) :
    scan .code pending position ('/' :: '/' :: rest) =
      scan .lineComment pending ((position.after '/').after '/') rest := by
  simp only [scan]

theorem scan_code_blockComment (pending : Lexeme) (position : Position) (rest : List Char) :
    scan .code pending position ('/' :: '*' :: rest) =
      scan .blockComment pending ((position.after '/').after '*') rest := by
  simp only [scan]

theorem scan_code_quote (pending : Lexeme) (position : Position) (rest : List Char) :
    scan .code pending position ('"' :: rest) =
      let (following, stop) := scan .string (.single '"' position) (position.after '"') rest
      (pending.tokens .code ++ following, stop) := by
  simp [scan, CharClass.of]

theorem scan_code_of_no_comment {character : Char} {rest : List Char}
    (noLine : ∀ following, character = '/' → rest = '/' :: following → False)
    (noBlock : ∀ following, character = '/' → rest = '*' :: following → False)
    (pending : Lexeme) (position : Position) :
    scan .code pending position (character :: rest) =
      if CharClass.of character = .space then
        let (following, stop) := scan .code {} (position.after character) rest
        (pending.tokens .code ++ following, stop)
      else if character = '"' then
        let (following, stop) :=
          scan .string (.single character position) (position.after character) rest
        (pending.tokens .code ++ following, stop)
      else if pending.joins character then
        scan .code (pending.push character position) (position.after character) rest
      else
        let (following, stop) :=
          scan .code (.single character position) (position.after character) rest
        (pending.tokens .code ++ following, stop) := by
  rw [scan.eq_def]
  dsimp only
  split
  · exact (noLine _ rfl rfl).elim
  · exact (noBlock _ rfl rfl).elim
  · rfl

/-- Line comments end where the next line feed is, and leave the token in hand alone. -/
theorem scan_lineComment (pending : Lexeme) (position : Position) (text : List Char) :
    scan .lineComment pending position text =
      scan .code pending ((text.takeWhile (· ≠ '\n')).foldl Position.after position)
        (text.dropWhile (· ≠ '\n')) := by
  induction text generalizing position with
  | nil => rfl
  | cons character rest ih =>
      by_cases ends : character = '\n'
      · subst ends
        simp [scan, CharClass.of]
      · simp only [scan, ends, if_false, ih]
        simp [ends]

theorem scan_blockComment (pending : Lexeme) (position : Position) (text : List Char) :
    scan .blockComment pending position text =
      scan .code pending ((insideBlockComment text).foldl Position.after position)
        (afterBlockComment text) := by
  fun_induction afterBlockComment text generalizing position with
  | case1 => rfl
  | case2 rest => simp [scan, insideBlockComment]
  | case3 first rest noEnd ih =>
      rw [scan.eq_def]
      simp [insideBlockComment, ih]

/-- A string literal is one token, which starts where the literal does. -/
theorem scan_string (last : Char) (before : List Char) (start position : Position)
    (text : List Char) :
    ∃ token : Token, token.kind = .string ∧
      token.text.toList = (last :: before).reverse ++ (splitString last text).1 ∧
      token.start = start ∧
        scan .string ⟨last :: before, start⟩ position text =
          let (following, stop) :=
            scan .code {} ((splitString last text).1.foldl Position.after position)
              (splitString last text).2
          (token :: following, stop) := by
  induction text generalizing last before position with
  | nil => exact ⟨_, rfl, by simp [splitString], rfl, rfl⟩
  | cons character rest ih =>
      by_cases ends : character = '"' ∧ last ≠ '\\'
      · rcases ends with ⟨rfl, noBackslash⟩
        refine ⟨{
          kind := .string
          text := String.ofList ('"' :: last :: before).reverse
          start := start
          nonempty := by simp }, rfl, ?_, rfl, ?_⟩
        · simp [splitString, noBackslash]
        · simp [scan, Lexeme.closesString, Lexeme.push, splitString, noBackslash, Lexeme.tokens]
      · rcases ih character (last :: before) (position.after character) with
          ⟨token, kind, written, sameStart, scanned⟩
        refine ⟨token, kind, ?_, sameStart, ?_⟩
        · simpa [splitString, ends] using written
        · have open_ : ¬(character = '"' ∧ Lexeme.closesString ⟨last :: before, start⟩ = true) := by
            simpa [Lexeme.closesString] using ends
          simpa only [scan, open_, if_false, Lexeme.push, splitString, ends, List.foldl_cons]
            using scanned

/-- The characters begin the first token of the layout, or there are none. -/
def Layout.Begins (layout : Layout) (characters : List Char) : Prop :=
  characters = [] ∨
    ∃ first rest, layout = some first :: rest ∧ first.kind ≠ .string ∧
      characters <+: first.text.toList

namespace Lies

variable {layout : Layout} {following : List Piece} {tokens : List Token}

theorem mem_of_head (lies : Lies layout following tokens) {next : Token}
    (head : next ∈ layout.head?.join) : next ∈ tokens := by
  rw [← lies.tokens_eq]
  rcases layout with _ | ⟨_ | first, rest⟩
  · cases head
  · cases head
  · cases head
    simp

theorem nil : Lies [] [] [] where
  tokens_eq := rfl
  pieces_eq := rfl
  proper := by simp
  maximal := .nil

theorem blank (lies : Lies layout following tokens) :
    Lies (none :: layout) (.blank :: following) tokens where
  tokens_eq := lies.tokens_eq
  pieces_eq := by simp [← lies.pieces_eq, Layout.pieces]
  proper := lies.proper
  maximal := lies.maximal.cons (by simp)

theorem token {token : Token} (proper : token.Proper) (lies : Lies layout following tokens)
    (apart : ∀ next ∈ layout.head?.join, token.Apart next) :
    Lies (some token :: layout) (token.pieces ++ following) (token :: tokens) where
  tokens_eq := by simp [← lies.tokens_eq]
  pieces_eq := by simp [← lies.pieces_eq, Layout.pieces]
  proper := List.forall_mem_cons.mpr ⟨proper, lies.proper⟩
  maximal := by
    apply lies.maximal.cons
    rintro _ head _ next ⟨⟩ rfl
    exact apart next (by simp_all)

end Lies

theorem Layout.Begins.of_append {layout : Layout} {characters more : List Char}
    (begins : layout.Begins (characters ++ more)) : layout.Begins characters := by
  rcases begins with none_ | ⟨first, rest, starts, kind, written⟩
  · exact Or.inl (List.append_eq_nil_iff.mp none_).1
  · exact Or.inr ⟨first, rest, starts, kind, (List.prefix_append characters more).trans written⟩

theorem Token.apart_of_string {token next : Token}
    (string : token.kind = .string ∨ next.kind = .string) : token.Apart next := by
  constructor <;> rcases string with string | string <;> simp [string]

theorem Token.apart_of_joins {pending : Lexeme} {token next : Token} (proper : token.Proper)
    (nextProper : next.Proper) (written : token.text.toList = pending.characters)
    (ends : pending.joins next.first = false) :
    token.Apart next := by
  rcases pending with ⟨_ | ⟨last, before⟩, start⟩
  · cases ends
  · have lastMember : last ∈ token.text.toList := by simp [written, Lexeme.characters]
    have firstMember : next.first ∈ next.text.toList := List.head_mem _
    simp only [Lexeme.joins] at ends
    constructor
    · rintro ⟨word, nextWord⟩
      simp only [Token.Proper, word] at proper
      simp only [Token.Proper, nextWord] at nextProper
      simp [proper last lastMember, nextProper _ firstMember] at ends
    · intro _ _ operator together
      have symbol : token.text.toList ++ [next.first] = operator.symbol.toList := by
        rw [← together, String.toList_push]
      have punctuation := operator.punctuation_symbol
      rw [← symbol] at punctuation
      have isOperator : BinaryOp.ofSymbol? (String.ofList (next.first :: last :: before).reverse) =
          some operator := by
        rw [BinaryOp.ofSymbol?_eq_some_iff, String.ext_iff, ← symbol, written]
        simp [Lexeme.characters]
      rw [punctuation last (by simp [lastMember]), punctuation next.first (by simp)] at ends
      simp only [isOperator, Option.isSome_some, Bool.true_eq_false] at ends

theorem Lies.flush {pending : Lexeme} (proper : pending.Proper) {layout : Layout}
    {following : List Piece} {tokens : List Token} (lies : Lies layout following tokens)
    (ends : ∀ next ∈ layout.head?.join, next.kind ≠ .string → pending.joins next.first = false) :
    ∃ layout, Lies layout (pending.characters.map .code ++ following)
      (pending.tokens .code ++ tokens) ∧ layout.Begins pending.characters := by
  rcases Lexeme.tokens_code proper with ⟨empty, noToken⟩ | ⟨token, single, isProper, kind, written⟩
  · exact ⟨layout, by simpa [empty, noToken] using lies, Or.inl empty⟩
  · refine ⟨some token :: layout, ?_, Or.inr ⟨token, layout, rfl, kind, by simp [written]⟩⟩
    have pieces : token.pieces = pending.characters.map .code := by
      simp only [Token.pieces, written]
    rw [← pieces, single]
    apply lies.token isProper
    intro next head
    by_cases string : next.kind = .string
    · exact Token.apart_of_string (Or.inr string)
    · have nextProper : next.Proper := lies.proper next (lies.mem_of_head head)
      exact Token.apart_of_joins isProper nextProper written (ends next head string)

theorem Lies.string {token : Token} {literal : List Char} (kind : token.kind = .string)
    (written : token.text.toList = '"' :: literal) {layout : Layout} {following : List Piece}
    {tokens : List Token} (lies : Lies layout following tokens) :
    Lies (some token :: layout) (.string ('"' :: literal) :: following) (token :: tokens) := by
  have proper : token.Proper := by simp [Token.Proper, kind, written]
  have isString : token.pieces = [.string ('"' :: literal)] := by
    simp [Token.pieces, kind, written]
  have laid := lies.token proper fun _ _ => Token.apart_of_string (Or.inl kind)
  rwa [isString] at laid

/-- What is pending ends in front of a token that begins with a character it does not go on with. -/
theorem Lies.flush_of_begins {pending : Lexeme} (proper : pending.Proper) {character : Char}
    (apart : pending.joins character = false) {layout : Layout} {following : List Piece}
    {tokens : List Token} (lies : Lies layout following tokens)
    (begins : layout.Begins [character]) :
    ∃ layout, Lies layout (pending.characters.map .code ++ following)
      (pending.tokens .code ++ tokens) ∧ layout.Begins pending.characters := by
  rcases begins with impossible | ⟨first, others, rfl, _, written⟩
  · cases impossible
  · refine lies.flush proper ?_
    rintro next ⟨⟩ _
    rcases written with ⟨more, written⟩
    have same : first.first = character := by simp [Token.first, ← written]
    rw [same]
    exact apart

theorem exists_layout (text : List Char) {pending : Lexeme} (proper : pending.Proper)
    (position : Position) :
    ∃ layout, Lies layout (pending.characters.map .code ++ pieces text)
      (scan .code pending position text).1 ∧ layout.Begins pending.characters := by
  induction text using pieces.induct generalizing pending position with
  | case1 => simpa [pieces, scan] using Lies.nil.flush proper (by simp)
  -- A comment ends no token: what is pending goes on behind it.
  | case2 rest ih =>
      rw [scan_code_lineComment, scan_lineComment, pieces]
      exact ih proper _
  | case3 rest ih =>
      rw [scan_code_blockComment, scan_blockComment, pieces]
      exact ih proper _
  | case4 rest ih =>
      rcases scan_string '"' [] position (position.after '"') rest with
        ⟨token, kind, written, _, scanned⟩
      rcases ih Lexeme.proper_empty _ with ⟨layout, lies, _⟩
      have withString : Lies (some token :: layout) (pieces ('"' :: rest))
          (scan .string (.single '"' position) (position.after '"') rest).1 := by
        simpa [pieces, Lexeme.single, scanned, Lexeme.characters] using lies.string kind written
      rw [scan_code_quote]
      exact withString.flush proper (by
        rintro next ⟨⟩ noString
        exact absurd kind noString)
  | case5 character rest noLine noBlock noQuote space ih =>
      rcases ih Lexeme.proper_empty (position.after character) with ⟨layout, lies, _⟩
      have blank : Lies (none :: layout) (pieces (character :: rest))
          (scan .code {} (position.after character) rest).1 := by
        simpa [pieces, space, Lexeme.characters] using lies.blank
      rw [scan_code_of_no_comment noLine noBlock]
      simp only [space, if_true]
      exact blank.flush proper (by simp)
  | case6 character rest noLine noBlock noQuote noSpace ih =>
      have isCode : pieces (character :: rest) = .code character :: pieces rest := by
        simp [pieces, noSpace]
      have noString : character ≠ '"' := noQuote
      rw [scan_code_of_no_comment noLine noBlock, isCode]
      simp only [noSpace, noString, if_false]
      split
      · -- A pending lexeme that grows is still the beginning of the first token behind it.
        rename_i joins
        rcases ih (Lexeme.proper_push proper noSpace joins position) (position.after character) with
          ⟨layout, lies, begins⟩
        rw [Lexeme.characters_push] at lies begins
        exact ⟨layout, by simpa using lies, begins.of_append⟩
      · rename_i apart
        rcases ih (Lexeme.proper_single noSpace position) (position.after character) with
          ⟨layout, lies, begins⟩
        exact lies.flush_of_begins proper (by simpa using apart) begins

/--
Feeding a text adds its tokens to those that wait. The tokens of a text are what remains of it
without comments and blanks, each is written as its kind demands, and none could have been longer.
Operators are looked up by what a token is written like, in punctuation only.
-/
theorem Lexer.newTokens_lie_in_pieces (lexer : Lexer) (text : String) :
    (lexer.feed text).tokens = lexer.tokens ++ lexer.newTokens text ∧
      (lexer.newTokens text).flatMap (·.text.toList) =
        (pieces text.toList).flatMap Piece.characters ∧
      (∀ token ∈ lexer.newTokens text, token.Proper) ∧
      (∃ layout : Layout, layout.filterMap id = lexer.newTokens text ∧
        layout.pieces = pieces text.toList ∧ layout.Maximal) ∧
      ∀ token ∈ lexer.newTokens text,
        (∀ operator, token.binary? = some operator ↔
          token.kind = .punctuation ∧ token.text = operator.symbol) ∧
        ∀ operator, token.unary? = some operator ↔
          token.kind = .punctuation ∧ token.text = operator.symbol := by
  rcases exists_layout text.toList Lexeme.proper_empty lexer.position with ⟨layout, lies, _⟩
  have tokens_eq : layout.filterMap id = lexer.newTokens text := lies.tokens_eq
  have pieces_eq : layout.pieces = pieces text.toList := lies.pieces_eq
  refine ⟨rfl, ?_, lies.proper, ⟨layout, tokens_eq, pieces_eq, lies.maximal⟩, ?_⟩
  · rw [← tokens_eq, ← pieces_eq, layout.characters_pieces]
  · intro token _
    constructor
    · intro operator
      simp only [token.binary?_eq, Option.ite_none_right_eq_some, BinaryOp.ofSymbol?_eq_some_iff]
    · intro operator
      simp only [token.unary?_eq, Option.ite_none_right_eq_some, UnaryOp.ofSymbol?_eq_some_iff]

end BlockCalc
