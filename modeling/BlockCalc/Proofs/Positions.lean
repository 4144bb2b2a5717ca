import BlockCalc.Proofs.Comments

/-!
# Where tokens start

The position of a token is that of its first character in everything that was fed, counted in lines
and columns. This holds across comments in the midst of a token, line feeds in strings and comments,
and any number of texts, because what the lexer knows at each moment is the position of the end of
what it has read, and the position at which the token in hand began.
-/

namespace BlockCalc

/-- The position behind a text that starts at the first line and column. -/
def Position.behind (text : List Char) : Position where
  line := 1 + text.count '\n'
  column := 1 + (text.reverse.takeWhile (· ≠ '\n')).length

theorem Position.behind_append_singleton (text : List Char) (character : Char) :
    behind (text ++ [character]) = (behind text).after character := by
  by_cases lineFeed : character = '\n'
  · simp [behind, after, lineFeed, Nat.add_assoc]
  · simp [behind, after, lineFeed, Nat.add_assoc]

theorem Position.foldl_after_behind (text more : List Char) :
    more.foldl after (behind text) = behind (text ++ more) := by
  induction more generalizing text with
  | nil => simp
  | cons character rest ih =>
      rw [List.foldl_cons, ← behind_append_singleton, ih, List.append_assoc, List.singleton_append]

theorem splitString_append_eq (previous : Char) (text : List Char) :
    (splitString previous text).1 ++ (splitString previous text).2 = text := by
  fun_induction splitString previous text with
  | case1 => rfl
  | case2 => rfl
  | case3 previous character rest _ literal following split ih =>
      simp only [split] at ih
      simp [ih]

/-- A text of which each character is told to stand in a comment or not. -/
abbrev Marked := List (Char × Bool)

namespace Marked

/-- The text without what is told of its characters. -/
def text (marked : Marked) : List Char :=
  marked.map Prod.fst

/-- Characters of a comment. -/
def comment (text : List Char) : Marked :=
  text.map (·, true)

/-- Characters outside comments. -/
def code (text : List Char) : Marked :=
  text.map (·, false)

@[simp]
theorem text_append (marked more : Marked) : text (marked ++ more) = marked.text ++ more.text :=
  List.map_append

@[simp]
theorem text_comment (characters : List Char) : text (comment characters) = characters := by
  simp [text, comment, Function.comp_def]

@[simp]
theorem text_code (characters : List Char) : text (code characters) = characters := by
  simp [text, code, Function.comp_def]

end Marked

/--
Tells which characters of a text stand in comments. The line feed behind a line comment does not
belong to it, and the end of the text ends every comment.
-/
def mark : List Char → Marked
  | [] => []
  | '/' :: '/' :: rest =>
      .comment ('/' :: '/' :: rest.takeWhile (· ≠ '\n')) ++ mark (rest.dropWhile (· ≠ '\n'))
  | '/' :: '*' :: rest =>
      .comment ('/' :: '*' :: insideBlockComment rest) ++ mark (afterBlockComment rest)
  | '"' :: rest => .code ('"' :: (splitString '"' rest).1) ++ mark (splitString '"' rest).2
  | character :: rest => .code [character] ++ mark rest
termination_by text => text.length
decreasing_by
  · have := (List.dropWhile_suffix (l := rest) (· ≠ '\n')).length_le
    simp only [List.length_cons]
    omega
  · have := length_afterBlockComment_le rest
    simp only [List.length_cons]
    omega
  · have := length_splitString_le '"' rest
    simp only [List.length_cons]
    omega
  · simp

@[simp]
theorem text_mark (characters : List Char) : (mark characters).text = characters := by
  fun_induction mark characters with
  | case1 => rfl
  | case2 rest ih =>
      rw [Marked.text_append, Marked.text_comment, ih, List.cons_append, List.cons_append,
        List.takeWhile_append_dropWhile]
  | case3 rest ih => simp [ih, insideBlockComment_append_after]
  | case4 rest ih => simp [ih, splitString_append_eq]
  | case5 character rest noLine noBlock noQuote ih => simp [ih]

/-- The characters outside comments are the text without its comments. -/
theorem filter_mark (characters : List Char) :
    Marked.text ((mark characters).filter (!·.2)) = withoutComments characters := by
  have ofComment (inside : List Char) (following : Marked) :
      (Marked.comment inside ++ following).filter (!·.2) = following.filter (!·.2) := by
    simp [Marked.comment, List.filter_map, Function.comp_def]
  have ofCode (outside : List Char) (following : Marked) :
      (Marked.code outside ++ following).filter (!·.2) =
        Marked.code outside ++ following.filter (!·.2) := by
    simp [Marked.code, List.filter_map, Function.comp_def]
  fun_induction mark characters with
  | case1 => simp [withoutComments, Marked.text]
  | case2 rest ih => rw [ofComment, ih, withoutComments]
  | case3 rest ih => rw [ofComment, ih, withoutComments]
  | case4 rest ih => rw [ofCode, Marked.text_append, Marked.text_code, ih, withoutComments]; rfl
  | case5 character rest noLine noBlock noQuote ih =>
      rw [ofCode, Marked.text_append, Marked.text_code, ih, List.singleton_append]
      exact (withoutComments.eq_5 _ _ noLine noBlock noQuote).symm

namespace Marked

/-- The character at an offset stands in no comment, and at a position. -/
structure At (marked : Marked) (offset : Nat) (character : Char) (position : Position) : Prop where
  found : marked[offset]? = some (character, false)
  position_eq : position = .behind (marked.text.take offset)

namespace At

variable {marked : Marked} {offset : Nat} {character : Char} {position : Position}

theorem lt_length (at_ : marked.At offset character position) : offset < marked.length :=
  (List.getElem?_eq_some_iff.mp at_.found).1

theorem append (at_ : marked.At offset character position) (more : Marked) :
    (marked ++ more).At offset character position where
  found := by rw [List.getElem?_append_left at_.lt_length, at_.found]
  position_eq := by
    have within : offset ≤ marked.text.length := by
      rw [text, List.length_map]
      exact at_.lt_length.le
    rw [at_.position_eq, text_append, List.take_append_of_le_length within]

theorem end_ (marked : Marked) (character : Char) :
    (marked ++ code [character]).At marked.length character (.behind marked.text) where
  found := by simp [code]
  position_eq := by
    have sameLength : marked.length = marked.text.length := by simp [text]
    rw [sameLength, text_append, List.take_left]

end At

end Marked

/-- The token starts with the character at an offset of a text, outside comments. -/
def Token.StartsAt (marked : Marked) (token : Token) (offset : Nat) : Prop :=
  marked.At offset token.first token.start

/-- The tokens start at offsets in increasing order, the first one of them at or behind a floor. -/
def Located (marked : Marked) : Nat → List Token → Prop
  | _, [] => True
  | floor, token :: rest =>
      ∃ offset, floor ≤ offset ∧ token.StartsAt marked offset ∧ Located marked (offset + 1) rest

namespace Located

variable {marked more : Marked} {floor lower : Nat} {tokens others : List Token}

theorem mono (located : Located marked floor tokens) (le : lower ≤ floor) :
    Located marked lower tokens := by
  cases tokens with
  | nil => trivial
  | cons token rest =>
      rcases located with ⟨offset, behind, starts, following⟩
      exact ⟨offset, le.trans behind, starts, following⟩

/-- Tokens of a text are followed by tokens of what follows the text. -/
theorem append (located : Located marked floor tokens) (within : floor ≤ marked.length)
    (following : Located (marked ++ more) marked.length others) :
    Located (marked ++ more) floor (tokens ++ others) := by
  induction tokens generalizing floor with
  | nil => exact following.mono within
  | cons token rest ih =>
      rcases located with ⟨offset, behind, starts, restLocated⟩
      exact ⟨offset, behind, starts.append more, ih restLocated starts.lt_length⟩

theorem exists_offsets (located : Located marked floor tokens) :
    ∃ offsets : List Nat, (∀ offset ∈ offsets, floor ≤ offset) ∧ offsets.Pairwise (· < ·) ∧
      List.Forall₂ (Token.StartsAt marked) tokens offsets := by
  induction tokens generalizing floor with
  | nil => exact ⟨[], by simp, .nil, .nil⟩
  | cons token rest ih =>
      rcases located with ⟨offset, behind, starts, restLocated⟩
      rcases ih restLocated with ⟨offsets, above, increasing, rests⟩
      refine ⟨offset :: offsets, ?_, .cons above increasing, .cons starts rests⟩
      rw [List.forall_mem_cons]
      exact ⟨behind, fun later mem => behind.trans (Nat.le_of_succ_le (above later mem))⟩

end Located

/-- The token in hand, if there is one, starts in a text at or behind a floor. -/
def Lexeme.StartsIn (marked : Marked) (floor : Nat) (lexeme : Lexeme) : Prop :=
  ∀ first ∈ lexeme.characters.head?, ∃ offset, floor ≤ offset ∧ marked.At offset first lexeme.start

namespace Lexeme.StartsIn

variable {marked more : Marked} {floor : Nat} {lexeme : Lexeme}

theorem empty : StartsIn marked floor {} := by
  simp [StartsIn, characters]

theorem located (starts : StartsIn marked floor lexeme) (mode : ScanMode) :
    Located marked floor (lexeme.tokens mode) := by
  rcases lexeme with ⟨_ | ⟨last, before⟩, start⟩
  · trivial
  · have nonempty : (last :: before).reverse ≠ [] := by simp
    rcases starts _ (List.head?_eq_some_head nonempty) with ⟨offset, behind, first⟩
    exact ⟨offset, behind, by simpa [Token.StartsAt, Token.first] using first, trivial⟩

theorem append (starts : StartsIn marked floor lexeme) (more : Marked) :
    StartsIn (marked ++ more) floor lexeme := by
  intro first isFirst
  rcases starts first isFirst with ⟨offset, behind, at_⟩
  exact ⟨offset, behind, at_.append more⟩

theorem single (within : floor ≤ marked.length) (character : Char) :
    StartsIn (marked ++ .code [character]) floor (.single character (.behind marked.text)) := by
  intro first isFirst
  cases isFirst
  exact ⟨marked.length, within, .end_ marked character⟩

theorem push (starts : StartsIn marked floor lexeme) (within : floor ≤ marked.length)
    (character : Char) :
    StartsIn (marked ++ .code [character]) floor
      (lexeme.push character (.behind marked.text)) := by
  rcases lexeme with ⟨_ | ⟨last, before⟩, start⟩
  · exact single within character
  · intro first isFirst
    have sameFirst : (characters ⟨last :: before, start⟩).head? =
        (characters (push ⟨last :: before, start⟩ character (.behind marked.text))).head? := by
      rw [characters_push]
      simp [characters]
    exact starts.append _ first (sameFirst ▸ isFirst)

end Lexeme.StartsIn

/-- What was scanned are tokens of a text, at or behind a floor, and the position of its end. -/
structure Scanned (marked : Marked) (floor : Nat) (tokens : List Token) (stop : Position) :
    Prop where
  located : Located marked floor tokens
  stop_eq : stop = .behind marked.text

/-- The token in hand comes before the tokens of what is read behind it. -/
theorem Scanned.flush {marked more : Marked} {floor : Nat} {pending : Lexeme}
    (starts : pending.StartsIn marked floor) (within : floor ≤ marked.length) {tokens : List Token}
    {stop : Position} (scanned : Scanned (marked ++ more) marked.length tokens stop) :
    Scanned (marked ++ more) floor (pending.tokens .code ++ tokens) stop where
  located := (starts.located .code).append within scanned.located
  stop_eq := scanned.stop_eq

/-- Reading on moves the position to the end of what has been read then. -/
theorem foldl_after_marked (marked more : Marked) :
    more.text.foldl Position.after (.behind marked.text) = .behind (marked ++ more).text := by
  rw [Position.foldl_after_behind, Marked.text_append]

theorem le_length_append {marked : Marked} {floor : Nat} (within : floor ≤ marked.length)
    (more : Marked) : floor ≤ (marked ++ more).length :=
  within.trans (List.length_append ▸ Nat.le_add_right _ _)

/--
Scanning a text that stands behind another one finds its tokens where they are, after the token in
hand if there is one.
-/
theorem scanned_scan (text : List Char) {marked : Marked} {floor : Nat}
    (within : floor ≤ marked.length) {pending : Lexeme} (starts : pending.StartsIn marked floor) :
    Scanned (marked ++ mark text) floor (scan .code pending (.behind marked.text) text).1
      (scan .code pending (.behind marked.text) text).2 := by
  fun_induction mark text generalizing marked floor pending with
  | case1 =>
      rw [List.append_nil]
      exact ⟨starts.located .code, rfl⟩
  -- A comment ends no token: what is pending goes on behind it.
  | case2 rest ih =>
      have moved := foldl_after_marked marked
        (.comment ('/' :: '/' :: rest.takeWhile (· ≠ '\n')))
      rw [Marked.text_comment, List.foldl_cons, List.foldl_cons] at moved
      rw [scan_code_lineComment, scan_lineComment, moved, ← List.append_assoc]
      exact ih (le_length_append within _) (starts.append _)
  | case3 rest ih =>
      have moved := foldl_after_marked marked (.comment ('/' :: '*' :: insideBlockComment rest))
      rw [Marked.text_comment, List.foldl_cons, List.foldl_cons] at moved
      rw [scan_code_blockComment, scan_blockComment, moved, ← List.append_assoc]
      exact ih (le_length_append within _) (starts.append _)
  | case4 rest ih =>
      have moved := foldl_after_marked marked (.code ('"' :: (splitString '"' rest).1))
      rw [Marked.text_code, List.foldl_cons] at moved
      rcases scan_string '"' [] (.behind marked.text) ((Position.behind marked.text).after '"')
        rest with ⟨token, _, written, start, scanned⟩
      rw [scan_code_quote, Lexeme.single, scanned, moved]
      apply Scanned.flush starts within
      have inside : marked.length + 1 ≤
          (marked ++ Marked.code ('"' :: (splitString '"' rest).1)).length := by
        simp [Marked.code]
      have following := ih inside Lexeme.StartsIn.empty
      have first : token.first = '"' := by simp [Token.first, written]
      have starts : token.StartsAt
          (marked ++ (Marked.code ('"' :: (splitString '"' rest).1) ++
            mark (splitString '"' rest).2)) marked.length := by
        have at_ := (Marked.At.end_ marked '"').append
          (Marked.code (splitString '"' rest).1 ++ mark (splitString '"' rest).2)
        simpa [Token.StartsAt, first, start, Marked.code] using at_
      rw [List.append_assoc] at following
      exact ⟨⟨marked.length, le_rfl, starts, following.located⟩, following.stop_eq⟩
  | case5 character rest noLine noBlock noQuote ih =>
      have noString : character ≠ '"' := noQuote
      have moved := foldl_after_marked marked (.code [character])
      rw [Marked.text_code, List.foldl_cons, List.foldl_nil] at moved
      rw [scan_code_of_no_comment noLine noBlock]
      simp only [noString, if_false, moved]
      have behind : marked.length ≤ (marked ++ Marked.code [character]).length :=
        le_length_append le_rfl _
      split
      · have following := ih behind Lexeme.StartsIn.empty
        rw [List.append_assoc] at following
        exact following.flush starts within
      · split
        · rw [← List.append_assoc]
          exact ih (le_length_append within _) (starts.push within character)
        · have following := ih behind (Lexeme.StartsIn.single le_rfl character)
          rw [List.append_assoc] at following
          exact following.flush starts within

namespace Lexer

/-- The lexer has the tokens of a text where they are, and is at the end of the text. -/
def Has (lexer : Lexer) (marked : Marked) : Prop :=
  Scanned marked 0 lexer.tokens lexer.position

theorem has_fresh : fresh.Has [] :=
  ⟨trivial, rfl⟩

theorem Has.feed {lexer : Lexer} {marked : Marked} (has : lexer.Has marked) (text : String) :
    (lexer.feed text).Has (marked ++ mark text.toList) := by
  have starts : Lexeme.StartsIn marked marked.length {} := .empty
  have scanned := scanned_scan text.toList le_rfl starts
  rw [← has.stop_eq] at scanned
  exact ⟨has.located.append (Nat.zero_le _) scanned.located, scanned.stop_eq⟩

theorem Has.foldl_feed {lexer : Lexer} {marked : Marked} (has : lexer.Has marked)
    (texts : List String) :
    (texts.foldl Lexer.feed lexer).Has (marked ++ texts.flatMap (mark ·.toList)) := by
  induction texts generalizing lexer marked with
  | nil => rwa [List.flatMap_nil, List.append_nil]
  | cons text rest ih =>
      rw [List.flatMap_cons, ← List.append_assoc]
      exact ih (has.feed text)

/--
After any number of texts, the tokens start at increasing offsets of all that was fed, each outside
comments and with the line and the column of its first character, and the lexer is at the end.
-/
theorem positions_exact (texts : List String) :
    let lexer := texts.foldl feed fresh
    let marked : Marked := texts.flatMap (mark ·.toList)
    marked.text = texts.flatMap String.toList ∧
      Marked.text (marked.filter (!·.2)) = texts.flatMap (withoutComments ·.toList) ∧
      (∃ offsets : List Nat, offsets.Pairwise (· < ·) ∧
        List.Forall₂ (Token.StartsAt marked) lexer.tokens offsets) ∧
      lexer.position = .behind marked.text := by
  intro lexer marked
  have has : lexer.Has marked := has_fresh.foldl_feed texts
  rcases has.located.exists_offsets with ⟨offsets, _, increasing, starts⟩
  refine ⟨?_, ?_, ⟨offsets, increasing, starts⟩, has.stop_eq⟩
  · simp only [marked, Marked.text, List.map_flatMap]
    congr 1
    funext text
    exact text_mark text.toList
  · simp only [marked, Marked.text, List.filter_flatMap, List.map_flatMap]
    congr 1
    funext text
    exact filter_mark text.toList

end Lexer

end BlockCalc
