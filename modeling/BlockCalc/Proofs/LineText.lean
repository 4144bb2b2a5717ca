import BlockCalc.Proofs.Positions
import BlockCalc.Proofs.Unmatched
import Mathlib.Data.List.DropRight

/-!
# The text that a place shows

A place has the number of a line, counted in line feeds, and the text of the line with that number,
where every Unicode line boundary ends a line. The two agree as long as the lines before end in line
feeds only, with or without a carriage return. On the line itself, what stands behind another line
boundary is not shown. Behind a form feed, a place shows another line than the one that it is on.
-/

namespace BlockCalc

variable {σ : Type}

namespace Text

/-- The text of a line without the blanks around it. -/
def trimmed (line : List Char) : String :=
  String.ofList (trimWhere isBlank line)

/-- The whole lines before the one that an offset is on, where only line feeds end lines. -/
def linesBefore (text : List Char) (offset : Nat) : List Char :=
  (text.take offset).rdropWhile (· ≠ '\n')

/-- The line that an offset is on, where only line feeds end lines. -/
def lineAround (text : List Char) (offset : Nat) : List Char :=
  (text.take offset).rtakeWhile (· ≠ '\n') ++ (text.drop offset).takeWhile (· ≠ '\n')

/-- A text has no line boundary but line feeds, which carriage returns may precede. -/
def OnlyFeeds : List Char → Prop
  | [] => True
  | '\r' :: '\n' :: rest => OnlyFeeds rest
  | character :: rest => (isLineEnd character = true → character = '\n') ∧ OnlyFeeds rest

/-- The last line of a text, if it has any lines, ends in a line feed. -/
def EndsWhole (text : List Char) : Prop :=
  ∀ last ∈ text.getLast?, last = '\n'

section Trimming

variable {drops : Char → Bool} {front rest : List Char}

/-- Only characters that may be dropped are. -/
theorem filter_trimWhere (drops : Char → Bool) (characters : List Char) :
    (trimWhere drops characters).filter (!drops ·) = characters.filter (!drops ·) := by
  have filter_dropWhile (some : List Char) :
      (some.dropWhile drops).filter (!drops ·) = some.filter (!drops ·) := by
    induction some with
    | nil => rfl
    | cons character rest ih =>
        rw [List.dropWhile_cons]
        split
        · rename_i dropped
          rw [ih, List.filter_cons_of_neg (by simp [dropped])]
        · rfl
  rw [trimWhere, List.filter_reverse, filter_dropWhile, List.filter_reverse, filter_dropWhile,
    List.reverse_reverse]

theorem trimWhere_append_of_forall (dropped : ∀ character ∈ rest, drops character = true) :
    trimWhere drops (front ++ rest) = trimWhere drops front := by
  have noRest : rest.dropWhile drops = [] := List.dropWhile_eq_nil_iff.mpr dropped
  have noReversed : rest.reverse.dropWhile drops = [] :=
    List.dropWhile_eq_nil_iff.mpr (by simpa using dropped)
  rw [trimWhere, trimWhere, List.dropWhile_append]
  split
  · rename_i empty
    rw [noRest, List.isEmpty_iff.mp empty]
  · rw [List.reverse_append, List.dropWhile_append, noReversed]
    rfl

/-- A text is the same without its end, up to trimming, if and only if trimming drops the end. -/
theorem trimWhere_eq_append_iff : trimWhere drops front = trimWhere drops (front ++ rest) ↔
    ∀ character ∈ rest, drops character = true := by
  constructor
  · intro same character mem
    have kept : front.filter (!drops ·) = (front ++ rest).filter (!drops ·) := by
      rw [← filter_trimWhere, same, filter_trimWhere]
    rw [List.filter_append, List.self_eq_append_right, List.filter_eq_nil_iff] at kept
    simpa using kept character mem
  · intro dropped
    exact (trimWhere_append_of_forall dropped).symm

theorem trimmed_takeWhile_eq_iff (keeps : Char → Bool) (line : List Char) :
    trimmed (line.takeWhile keeps) = trimmed line ↔
      ∀ character ∈ line.dropWhile keeps, isBlank character = true := by
  rw [trimmed, trimmed, String.ofList_inj]
  conv_lhs => rhs; rw [← List.takeWhile_append_dropWhile (p := keeps) (l := line)]
  exact trimWhere_eq_append_iff

end Trimming

section Splitting

variable {character : Char} {collected rest : List Char}

theorem splitLines_of_isLineEnd (ends : isLineEnd character = true) (collected rest : List Char) :
    ∃ following, splitLines collected (character :: rest) =
      collected.reverse :: splitLines [] following := by
  rw [splitLines.eq_def]
  split
  · rename_i impossible
    cases impossible
  · exact ⟨_, rfl⟩
  · rename_i other followed _ same
    cases same
    rw [if_pos ends]
    exact ⟨_, rfl⟩

theorem splitLines_of_not_isLineEnd (inside : isLineEnd character = false) :
    splitLines collected (character :: rest) = splitLines (character :: collected) rest := by
  rw [splitLines.eq_def]
  split
  · rename_i impossible
    cases impossible
  · rename_i same
    cases same
    cases inside
  · rename_i same
    cases same
    rw [if_neg (by simp [inside])]

/-- The first line goes up to the first boundary. -/
theorem head_splitLines (collected text : List Char) :
    (splitLines collected text).head?.getD [] =
      collected.reverse ++ text.takeWhile (!isLineEnd ·) := by
  induction text generalizing collected with
  | nil =>
      cases collected with
      | nil => rfl
      | cons last before => simp [splitLines]
  | cons character rest ih =>
      cases ends : isLineEnd character with
      | true =>
          rcases splitLines_of_isLineEnd ends collected rest with ⟨following, split⟩
          simp [split, ends]
      | false =>
          rw [splitLines_of_not_isLineEnd ends, ih]
          simp [ends]

theorem EndsWhole.of_cons (whole : EndsWhole (character :: rest)) : EndsWhole rest := by
  intro last isLast
  apply whole
  simp [List.getLast?_cons, Option.mem_def.mp isLast]

/-- Behind lines that end in line feeds, there are as many lines less as there are line feeds. -/
theorem drop_splitLines {before : List Char} (feeds : OnlyFeeds before)
    (whole : EndsWhole before) (collected more : List Char)
    (start : before = [] → collected = []) :
    (splitLines collected (before ++ more)).drop (before.count '\n') = splitLines [] more := by
  fun_induction OnlyFeeds before generalizing collected with
  | case1 => simp [start rfl]
  | case2 rest ih =>
      rw [List.count_cons_of_ne (by decide), List.count_cons_self]
      exact ih feeds whole.of_cons.of_cons [] fun _ => rfl
  | case3 character rest noReturn ih =>
      rcases feeds with ⟨isFeed, restFeeds⟩
      rw [List.cons_append]
      cases ends : isLineEnd character with
      | true =>
          cases isFeed ends
          rw [List.count_cons_self]
          exact ih restFeeds whole.of_cons [] fun _ => rfl
      | false =>
          have noFeed : character ≠ '\n' := by
            rintro rfl
            cases ends
          have more : rest ≠ [] := by
            rintro rfl
            exact noFeed (whole character rfl)
          rw [splitLines_of_not_isLineEnd ends, List.count_cons_of_ne (by simpa using noFeed)]
          exact ih restFeeds whole.of_cons _ fun none => absurd none more

end Splitting

section Around

variable (text : List Char) (offset : Nat)

theorem endsWhole_linesBefore : EndsWhole (linesBefore text offset) := by
  intro last isLast
  rcases List.mem_getLast?_eq_getLast isLast with ⟨nonempty, rfl⟩
  have stops := List.rdropWhile_last_not _ _ nonempty
  rw [decide_eq_true_eq, Decidable.not_not] at stops
  exact stops

/-- The line feeds before an offset end the lines before its line. -/
theorem count_linesBefore :
    (linesBefore text offset).count '\n' = (text.take offset).count '\n' := by
  have noFeed : ((text.take offset).rtakeWhile (· ≠ '\n')).count '\n' = 0 := by
    rw [List.count_eq_zero]
    intro mem
    simpa using List.mem_rtakeWhile_imp mem
  have whole : linesBefore text offset ++ (text.take offset).rtakeWhile (· ≠ '\n') =
      text.take offset := List.rdropWhile_append_rtakeWhile
  rw [← whole, List.count_append, noFeed, Nat.add_zero]

/-- Around the line that an offset is on, there are whole lines and a line feed or nothing. -/
theorem exists_split_lineAround : ∃ rest : List Char,
    (rest.takeWhile (!isLineEnd ·)) = [] ∧
      text = linesBefore text offset ++ (lineAround text offset ++ rest) := by
  refine ⟨(text.drop offset).dropWhile (· ≠ '\n'), ?_, ?_⟩
  · cases behind : (text.drop offset).dropWhile (· ≠ '\n') with
    | nil => rfl
    | cons first further =>
        have isFeed : first = '\n' := by
          have stops := List.head?_dropWhile_not (fun character => decide (character ≠ '\n'))
            (text.drop offset)
          rw [behind] at stops
          simpa using stops
        subst isFeed
        rfl
  · rw [linesBefore, lineAround, List.append_assoc, List.takeWhile_append_dropWhile,
      ← List.append_assoc, List.rdropWhile_append_rtakeWhile, List.take_append_drop]

/-- Behind lines that end in line feeds, the line of an offset is found by its number. -/
theorem getElem?_splitLines (feeds : OnlyFeeds (linesBefore text offset)) :
    ((splitLines [] text)[(text.take offset).count '\n']?).getD [] =
      (lineAround text offset).takeWhile (!isLineEnd ·) := by
  rcases exists_split_lineAround text offset with ⟨rest, noFurther, split⟩
  have dropped := drop_splitLines feeds (endsWhole_linesBefore text offset) []
    (lineAround text offset ++ rest) fun _ => rfl
  rw [← split, count_linesBefore] at dropped
  rw [← List.head?_drop, dropped, head_splitLines, List.takeWhile_append, noFurther]
  split
  · rename_i whole
    rw [List.append_nil, (List.takeWhile_prefix _).eq_of_length whole]
    rfl
  · rfl

end Around

end Text

/-- What the place of a token tells that starts at an offset of a text. -/
structure Location.Tells (location : Location) (text : List Char) (offset : Nat) : Prop where
  line : location.line = 1 + (text.take offset).count '\n'
  column : location.column = 1 + ((text.take offset).rtakeWhile (· ≠ '\n')).length
  /-- The line of this number is shown, where every line boundary ends a line. -/
  statement : location.statement =
    Text.trimmed ((Text.splitLines [] text)[(text.take offset).count '\n']?.getD [])
  /-- Behind lines that end in line feeds, the line is shown up to its first boundary. -/
  shows : Text.OnlyFeeds (Text.linesBefore text offset) → location.statement =
    Text.trimmed ((Text.lineAround text offset).takeWhile (!Text.isLineEnd ·))
  /-- Then the line is shown if and only if nothing but blanks is behind its first boundary. -/
  shows_line_iff : Text.OnlyFeeds (Text.linesBefore text offset) →
    (location.statement = Text.trimmed (Text.lineAround text offset) ↔
      ∀ character ∈ (Text.lineAround text offset).dropWhile (!Text.isLineEnd ·),
        Text.isBlank character = true)

/-- The trimmed line of a number, which there need not be. -/
theorem Source.statement_succ (source : Source) (index : Nat) : source.statement (index + 1) =
    Text.trimmed ((Text.splitLines [] source.text.toList)[index]?.getD []) := by
  rw [statement, source.statements_eq, statementsOf, List.getElem?_toArray, Text.lines,
    List.map_map, List.getElem?_map]
  cases (Text.splitLines [] source.text.toList)[index]? with
  | none => rfl
  | some line => simp [Text.trim, Text.trimmed]

theorem Token.StartsAt.tells {marked : Marked} {token : Token} {offset : Nat}
    (starts : token.StartsAt marked offset) {source : Source}
    (same : source.text.toList = marked.text) (fileName : String) :
    (token.location fileName source).Tells marked.text offset := by
  have statement : source.statement token.start.line = Text.trimmed
      ((Text.splitLines [] marked.text)[(marked.text.take offset).count '\n']?.getD []) := by
    rw [starts.position_eq, Position.behind, Nat.add_comm, source.statement_succ, same]
  have shows (feeds : Text.OnlyFeeds (Text.linesBefore marked.text offset)) :
      source.statement token.start.line =
        Text.trimmed ((Text.lineAround marked.text offset).takeWhile (!Text.isLineEnd ·)) := by
    rw [statement, Text.getElem?_splitLines _ _ feeds]
  refine ⟨congrArg Position.line starts.position_eq, ?_, statement, shows, ?_⟩
  · have column := congrArg Position.column starts.position_eq
    rw [Position.behind, ← List.length_reverse] at column
    exact column
  · intro feeds
    rw [← Text.trimmed_takeWhile_eq_iff, ← shows feeds]
    rfl

theorem Marked.text_flatMap_mark (texts : List String) :
    Marked.text (texts.flatMap (mark ·.toList)) = texts.flatMap String.toList := by
  induction texts with
  | nil => rfl
  | cons text rest ih =>
      rw [List.flatMap_cons, Marked.text_append, text_mark, ih, List.flatMap_cons]

namespace Session

theorem lexer_foldl_feed (session : Session σ) (pieces : List String) :
    (pieces.foldl feed session).lexer = pieces.foldl Lexer.feed session.lexer :=
  (List.foldl_hom (fun session : Session σ => session.lexer) fun _ _ => rfl).symm

theorem text_foldl_feed (session : Session σ) (pieces : List String) :
    (pieces.foldl feed session).source.text.toList =
      session.source.text.toList ++ pieces.flatMap String.toList := by
  induction pieces generalizing session with
  | nil => rw [List.foldl_nil, List.flatMap_nil, List.append_nil]
  | cons piece rest ih =>
      rw [List.foldl_cons, ih, List.flatMap_cons, ← List.append_assoc, feed, Workspace.feed,
        Source.append, String.toList_append]

/--
After a text has been fed in any pieces, the place of each of its tokens tells the line and the
column of the first character of the token, and shows the text of the line with that number. Where
only line feeds have ended lines before, this is the line of the token up to its first boundary.
-/
theorem places_tell_lines (settings : Settings σ) (session : Session σ) (pieces : List String) :
    let fed := pieces.foldl feed session.dropText
    let text := pieces.flatMap String.toList
    fed.source.text.toList = text ∧
    ∃ offsets : List Nat, offsets.Pairwise (· < ·) ∧
      List.Forall₂ (fun token offset =>
          text[offset]? = some token.first ∧
          ∀ during : Session σ, during.source = fed.source → ∃ location,
            Eval.locate settings token during = .ok location during ∧ location.Tells text offset)
        fed.lexer.tokens offsets := by
  intro fed text
  have sameText : fed.source.text.toList = text := text_foldl_feed session.dropText pieces
  have markedText : Marked.text (pieces.flatMap (mark ·.toList)) = text :=
    Marked.text_flatMap_mark pieces
  have has : fed.lexer.Has (pieces.flatMap (mark ·.toList)) := by
    rw [lexer_foldl_feed]
    exact Lexer.has_fresh.foldl_feed pieces
  rcases has.located.exists_offsets with ⟨offsets, _, increasing, starts⟩
  refine ⟨sameText, offsets, increasing, starts.imp fun token offset startsAt => ⟨?_, ?_⟩⟩
  · rw [← markedText, Marked.text, List.getElem?_map, startsAt.found]
    rfl
  · intro during sameSource
    have tells := startsAt.tells (sameText.trans markedText.symm) settings.fileName
    rw [markedText, ← sameSource] at tells
    exact ⟨_, rfl, tells⟩

/-- The form feed on the second line makes the place on the third line show nothing. -/
theorem place_shows_nothing_behind_form_feed :
    let settings : Settings Unit := {}
    let session : Session Unit := fresh ()
    let text := "let a = 4;\n\x0c\na / 0"
    (session.parse settings text).1 =
      .error {
        cause := .divideByZero
        location := some { file := settings.fileName, line := 3, column := 3, statement := "" }
        stepIndex := some 4 } ∧
    text.toList[15]? = some '/' ∧ Position.behind (text.toList.take 15) = ⟨3, 3⟩ ∧
    Text.trimmed (Text.lineAround text.toList 15) = "a / 0" := by
  decide +kernel

end Session

end BlockCalc
