import BlockCalc.Proofs.Quiet
import BlockCalc.Proofs.Tokenization

/-!
# Texts fed line by line

Each text that is fed is read from code on, also where the text before it ended in the midst of a
string or a comment. Lines in which every string and every block comment is closed do not show
this: fed one after the other, each with a line feed at its end, they give the same tokens at the
same places as their text fed at once.
-/

namespace BlockCalc

/--
What a character behind a text would belong to, where the text is read in a mode; `previous` is the
character before the text.
-/
def modeAfter : ScanMode → Char → List Char → ScanMode
  | mode, _, [] => mode
  | .string, previous, character :: rest =>
      modeAfter (if character = '"' ∧ previous ≠ '\\' then .code else .string) character rest
  | .lineComment, _, character :: rest =>
      modeAfter (if character = '\n' then .code else .lineComment) character rest
  | .blockComment, _, '*' :: '/' :: rest => modeAfter .code '/' rest
  | .blockComment, _, character :: rest => modeAfter .blockComment character rest
  | .code, _, '/' :: '/' :: rest => modeAfter .lineComment '/' rest
  | .code, _, '/' :: '*' :: rest => modeAfter .blockComment '*' rest
  | .code, _, character :: rest =>
      modeAfter (if character = '"' then .string else .code) character rest

/-- Every string and every block comment of the line is closed in it. -/
def Settled (line : String) : Prop :=
  modeAfter .code '\n' line.toList ∈ [ScanMode.code, .lineComment]

instance (line : String) : Decidable (Settled line) :=
  inferInstanceAs (Decidable (_ ∈ _))

/-- The reading of what follows begins with tokens that it does not change, and then starts anew. -/
def Resumes (reading : List Char → List Token × Position) : Prop :=
  ∃ tokens stop, ∀ following, reading following =
    (tokens ++ (scan .code {} stop following).1, (scan .code {} stop following).2)

/-- The reading of a line feed and what follows it comes to that in a mode, behind some tokens. -/
def Reaches (mode : ScanMode) (reading : List Char → List Token × Position) : Prop :=
  ∃ tokens pending stop, ∀ following, reading following =
    let (later, finish) := scan mode pending stop ('\n' :: following)
    (tokens ++ later, finish)

theorem Reaches.behind {mode : ScanMode} {reading : List Char → List Token × Position}
    (reaches : Reaches mode reading) (before : List Token) :
    Reaches mode fun following =>
      let (tokens, stop) := reading following
      (before ++ tokens, stop) := by
  rcases reaches with ⟨tokens, pending, stop, same⟩
  exact ⟨before ++ tokens, pending, stop, fun following => by simp [same following]⟩

/-- A line feed that is reached outside strings and block comments ends what is in hand. -/
theorem Reaches.resumes {mode : ScanMode} {reading : List Char → List Token × Position}
    (reaches : Reaches mode reading) (settled : mode ∈ [ScanMode.code, .lineComment]) :
    Resumes reading := by
  rcases reaches with ⟨tokens, pending, stop, same⟩
  refine ⟨tokens ++ pending.tokens .code, stop.after '\n', fun following => ?_⟩
  simp only [List.mem_cons, List.not_mem_nil, or_false] at settled
  rcases settled with rfl | rfl <;> simp [same following, scan, CharClass.of]

theorem exists_cons_of_append_line {character : Char} (noFeed : character ≠ '\n')
    {rest following others : List Char} (starts : rest ++ '\n' :: following = character :: others) :
    ∃ tail, rest = character :: tail := by
  cases rest with
  | nil => exact absurd (List.cons.inj starts).1.symm noFeed
  | cons first tail => exact ⟨tail, by rw [(List.cons.inj starts).1]⟩

@[simp]
theorem Lexeme.head?_push (lexeme : Lexeme) (character : Char) (position : Position) :
    (lexeme.push character position).reversed.head? = some character := by
  rcases lexeme with ⟨_ | ⟨last, before⟩, start⟩ <;> rfl

theorem Lexeme.closesString_of_head? {lexeme : Lexeme} {last : Char}
    (ends : lexeme.reversed.head? = some last) : lexeme.closesString = (last != '\\') := by
  rcases lexeme with ⟨_ | ⟨character, before⟩, start⟩
  · cases ends
  · cases ends
    rfl

theorem scan_blockComment_of_no_end {character : Char} {rest : List Char}
    (noEnd : ∀ following, character = '*' → rest = '/' :: following → False) (pending : Lexeme)
    (position : Position) :
    scan .blockComment pending position (character :: rest) =
      scan .blockComment pending (position.after character) rest := by
  rw [scan.eq_def]
  dsimp only
  split
  · exact (noEnd _ rfl rfl).elim
  · rfl

/-- Reading a text comes to the line feed behind it in the mode that the text leads to. -/
theorem reaches_scan {mode : ScanMode} {previous : Char} (front : List Char) {pending : Lexeme}
    (last : mode = .string → pending.reversed.head? = some previous) (position : Position) :
    Reaches (modeAfter mode previous front) fun following =>
      scan mode pending position (front ++ '\n' :: following) := by
  fun_induction modeAfter mode previous front generalizing pending position with
  | case1 mode previous => exact ⟨[], pending, position, fun _ => rfl⟩
  | case2 previous character rest ih =>
      have closes := Lexeme.closesString_of_head? (last rfl)
      simp only [List.cons_append, scan, closes, bne_iff_ne]
      by_cases ends : character = '"' ∧ previous ≠ '\\'
      · simp only [if_pos ends] at ih ⊢
        exact (ih (by simp) _).behind _
      · simp only [if_neg ends] at ih ⊢
        exact ih (by simp) _
  | case3 previous character rest ih =>
      simp only [List.cons_append, scan]
      by_cases feed : character = '\n'
      · simp only [feed, if_true] at ih ⊢
        exact (ih (by simp) _).behind _
      · simp only [feed, if_false] at ih ⊢
        exact ih (by simp) _
  | case5 previous character rest noEnd ih =>
      have stillNoEnd (following : List Char) :
          ∀ others, character = '*' → rest ++ '\n' :: following = '/' :: others → False := by
        intro others star starts
        rcases exists_cons_of_append_line (by decide) starts with ⟨tail, slash⟩
        exact noEnd tail star slash
      simp only [List.cons_append, scan_blockComment_of_no_end (stillNoEnd _)]
      exact ih (by simp) _
  | case8 previous character rest noLine noBlock ih =>
      have stillNoLine (following : List Char) :
          ∀ others, character = '/' → rest ++ '\n' :: following = '/' :: others → False := by
        intro others slash starts
        rcases exists_cons_of_append_line (by decide) starts with ⟨tail, again⟩
        exact noLine tail slash again
      have stillNoBlock (following : List Char) :
          ∀ others, character = '/' → rest ++ '\n' :: following = '*' :: others → False := by
        intro others slash starts
        rcases exists_cons_of_append_line (by decide) starts with ⟨tail, star⟩
        exact noBlock tail slash star
      simp only [List.cons_append, scan_code_of_no_comment (stillNoLine _) (stillNoBlock _)]
      by_cases quote : character = '"'
      · subst quote
        simp only [if_true] at ih
        exact (ih (fun _ => rfl) _).behind _
      · simp only [quote, if_false] at ih ⊢
        by_cases space : CharClass.of character = .space
        · simp only [if_pos space]
          exact (ih (by simp) _).behind _
        · by_cases joins : pending.joins character = true
          · simp only [if_neg space, if_pos joins]
            exact ih (by simp) _
          · simp only [if_neg space, if_neg joins]
            exact (ih (by simp) _).behind _
  -- The other cases begin or end a comment, which is seen from two characters of the text.
  | _ =>
      rename_i ih
      simp only [List.cons_append, scan]
      exact ih (by simp) _

namespace Lexer

/-- Feeding a line in which everything is closed splits what is fed into two texts. -/
theorem exists_scan_line {line : String} (settled : Settled line) (position : Position) :
    ∃ tokens stop, scan .code {} position (line ++ "\n").toList = (tokens, stop) ∧
      ∀ text : String, scan .code {} position (line ++ "\n" ++ text).toList =
        (tokens ++ (scan .code {} stop text.toList).1, (scan .code {} stop text.toList).2) := by
  have resumes : Resumes fun following =>
      scan .code {} position (line.toList ++ '\n' :: following) :=
    (reaches_scan line.toList (by simp) position).resumes settled
  rcases resumes with ⟨tokens, stop, same⟩
  have lineFeed : "\n".toList = ['\n'] := rfl
  refine ⟨tokens, stop, ?_, fun text => ?_⟩
  · simpa [lineFeed, scan, Lexeme.tokens] using same []
  · simpa [lineFeed] using same text.toList

/-- Feeding a line in which everything is closed leaves the lexer as a text does that ends there. -/
theorem feed_line_append {line : String} (settled : Settled line) (lexer : Lexer)
    (text : String) :
    lexer.feed (line ++ "\n" ++ text) = (lexer.feed (line ++ "\n")).feed text := by
  rcases exists_scan_line settled lexer.position with ⟨tokens, stop, ended, whole⟩
  simp only [feed, ended, whole, List.append_assoc]

/--
Feeding a text in two pieces gives the same lexer as feeding it at once, and the same new tokens, if
the first piece ends with a line feed that is reached outside strings and block comments. It does
not matter which tokens wait already, at which place the text begins, and whether an operator, a
word or a line comment stands right before the cut.
-/
theorem feed_in_pieces {front : String} (settled : Settled front) (lexer : Lexer)
    (text : String) :
    let piece := front ++ "\n"
    (lexer.feed piece).feed text = lexer.feed (piece ++ text) ∧
      lexer.newTokens piece ++ (lexer.feed piece).newTokens text =
        lexer.newTokens (piece ++ text) := by
  refine ⟨(feed_line_append settled lexer text).symm, ?_⟩
  rcases exists_scan_line settled lexer.position with ⟨tokens, stop, ended, whole⟩
  simp only [newTokens, feed, ended, whole]

theorem feed_in_pieces_commented :
    let lexer : Lexer := { position := { line := 3, column := 7 } }
    let front := "let total = \"a // b\" /* \" */ +// a sum \""
    Settled front ∧
      (lexer.newTokens (front ++ "\n")).map (·.text) = ["let", "total", "=", "\"a // b\"", "+"] ∧
      (lexer.feed (front ++ "\n")).feed "= 1" = lexer.feed (front ++ "\n" ++ "= 1") ∧
      lexer.newTokens (front ++ "\n") ++ (lexer.feed (front ++ "\n")).newTokens "= 1" =
        lexer.newTokens (front ++ "\n" ++ "= 1") := by
  intro lexer front
  have settled : Settled front := by decide +kernel
  exact ⟨settled, by decide +kernel, feed_in_pieces settled lexer "= 1"⟩

end Lexer

theorem Source.append_append (source : Source) (first second : String) :
    source.append (first ++ second) = (source.append first).append second := by
  simp only [append, String.append_assoc]

/-- The text of lines, each with a line feed at its end. -/
def textOfLines : List String → String
  | [] => ""
  | line :: rest => line ++ "\n" ++ textOfLines rest

theorem textOfLines_append (front back : List String) :
    textOfLines (front ++ back) = textOfLines front ++ textOfLines back := by
  induction front with
  | nil => simp [textOfLines]
  | cons line rest ih => simp [textOfLines, ih, String.append_assoc]

namespace Session

variable {σ : Type}

theorem feed_line_append {line : String} (settled : Settled line) (session : Session σ)
    (text : String) :
    session.feed (line ++ "\n" ++ text) = (session.feed (line ++ "\n")).feed text := by
  simp only [feed, Workspace.feed, Lexer.feed_line_append settled, Source.append_append]

/-- Lines in which everything is closed may be fed together with what follows them. -/
theorem feed_textOfLines_append {lines : List String} (settled : ∀ line ∈ lines, Settled line)
    (session : Session σ) (text : String) :
    session.feed (textOfLines lines ++ text) = (session.feed (textOfLines lines)).feed text := by
  induction lines generalizing session with
  | nil => simp [textOfLines]
  | cons line rest ih =>
      rw [List.forall_mem_cons] at settled
      have grouped : textOfLines (line :: rest) ++ text =
          line ++ "\n" ++ (textOfLines rest ++ text) := String.append_assoc
      rw [grouped, feed_line_append settled.1, ih settled.2, textOfLines,
        feed_line_append settled.1]

end Session

end BlockCalc
