import BlockCalc.CommandLine.Run
import BlockCalc.Proofs.History
import BlockCalc.Proofs.Resumption

/-!
# Dialogues chunk by chunk

A dialogue takes its lines in one by one. What it does is easier to say of whole chunks of lines: a
chunk is the shortest beginning of the lines that closes all the brackets that it opens, and it is
evaluated as one text. `Converses` says so, without any line being fed, and with all that is shown
written out. Dialogues converse in this way as long as no line leaves a string or a block comment
open.
-/

namespace BlockCalc.Dialogue

variable {σ : Type} {settings : Settings σ}

/-- How many more brackets the text of lines opens than it closes. -/
def unclosedIn (lines : List String) : Int :=
  let tokens := Lexer.fresh.newTokens (textOfLines lines)
  (tokens.countP fun token => token.isSymbol "(" || token.isSymbol "\x7b") -
    (tokens.countP fun token => token.isSymbol ")" || token.isSymbol "\x7d")

/-- The lines do not open more brackets than they close, and no beginning of them does so. -/
structure Chunk (lines : List String) : Prop where
  nonempty : lines ≠ []
  closed : unclosedIn lines ≤ 0
  shortest : ∀ front, front ≠ [] → front <+: lines → front ≠ lines → 0 < unclosedIn front

/-- Brackets are open behind each of the lines. -/
def Unfinished (lines : List String) : Prop :=
  ∀ front, front ≠ [] → front <+: lines → 0 < unclosedIn front

/-- The line is neither blank nor a command. -/
def IsInput (line : String) : Prop :=
  Text.trim line ≠ ":quit" ∧ Text.trim line ≠ ":reset" ∧ Text.trim line ≠ ""

/-- The invitation to enter a line where none waits. -/
def firstPrompt : String := "\x1b[38;2;153;221;255m>>>\x1b[0m "

/-- The invitation to enter one more line behind those that wait. -/
def nextPrompt : String := "\x1b[38;2;153;221;255m..>\x1b[0m "

/-- What is shown while a line and some more lines are taken in. -/
def invitations (more : List String) : List Event :=
  .prompt firstPrompt :: more.map fun _ => .prompt nextPrompt

/-- What is shown of an evaluation: its value unless that is void, or a traceback. -/
def verdict (settings : Settings σ) : Except Failure Value × Session σ → List Event
  | (.ok .void, _) => []
  | (.ok value, _) => [.output value.render]
  | (.error failure, after) =>
      [.error (Traceback.text settings.fileName after.log settings.verbose failure)]

/-- The events of a dialogue over lines, from a session in which nothing waits. -/
inductive Converses (settings : Settings σ) : Session σ → List String → List Event → Prop where
  | done (session : Session σ) :
      Converses settings session [] [.prompt firstPrompt, .output ""]
  | quit (session : Session σ) {line : String} (command : Text.trim line = ":quit")
      (rest : List String) :
      Converses settings session (line :: rest) [.prompt firstPrompt]
  | reset {session : Session σ} {line : String} (command : Text.trim line = ":reset")
      {rest : List String} {events : List Event}
      (later : Converses settings session.reset rest events) :
      Converses settings session (line :: rest) (.prompt firstPrompt :: events)
  | blank {session : Session σ} {line : String} (blank : Text.trim line = "")
      {rest : List String} {events : List Event} (later : Converses settings session rest events) :
      Converses settings session (line :: rest) (.prompt firstPrompt :: events)
  | chunk {session : Session σ} {first : String} {more rest : List String} {events : List Event}
      (isInput : IsInput first) (chunk : Chunk (first :: more))
      (later : Converses settings (session.parse settings (textOfLines (first :: more))).2 rest
        events) :
      Converses settings session (first :: (more ++ rest))
        (invitations more ++
          verdict settings (session.parse settings (textOfLines (first :: more))) ++ events)
  | unfinished (session : Session σ) {first : String} {more : List String} (isInput : IsInput first)
      (unfinished : Unfinished (first :: more)) :
      Converses settings session (first :: more)
        (invitations more ++ [.prompt nextPrompt, .output ""])

theorem unclosedBrackets_eq (tokens : List Token) :
    unclosedBrackets tokens =
      (tokens.countP fun token => token.isSymbol "(" || token.isSymbol "\x7b") -
        (tokens.countP fun token => token.isSymbol ")" || token.isSymbol "\x7d") := by
  have opens (token : Token) :
      token.opens?.isSome = (token.isSymbol "(" || token.isSymbol "\x7b") := by
    simp only [Token.opens?, Bracket.ofOpener?, Bracket.opener, Token.isSymbol]
    by_cases round : token.text = "(" <;> by_cases curly : token.text = "\x7b" <;>
      simp [round, curly, apply_ite]
  have closes (token : Token) :
      token.closes?.isSome = (token.isSymbol ")" || token.isSymbol "\x7d") := by
    simp only [Token.closes?, Bracket.ofCloser?, Bracket.closer, Token.isSymbol]
    by_cases round : token.text = ")" <;> by_cases curly : token.text = "\x7d" <;>
      simp [round, curly, apply_ite]
  simp only [unclosedBrackets, opens, closes]

theorem unclosed_feed {session : Session σ} (clean : session.Clean) (lines : List String) :
    (session.feed (textOfLines lines)).lexer.unclosed = unclosedIn lines := by
  simp only [Session.feed, Workspace.feed, clean.lexer_eq, Lexer.feed, Lexer.unclosed, unclosedIn,
    Lexer.newTokens, unclosedBrackets_eq]
  rfl

theorem isCollecting_of_unclosed {session : Session σ} (unclosed : 0 < session.lexer.unclosed) :
    isCollecting session = true := by
  simp only [isCollecting, Bool.not_eq_true', List.isEmpty_eq_false_iff]
  intro noTokens
  simp [Lexer.unclosed, noTokens, unclosedBrackets] at unclosed

theorem isCollecting_of_clean {session : Session σ} (clean : session.Clean) :
    isCollecting session = false := by
  simp [isCollecting, clean.tokens]

theorem isCollecting_iff {session : Session σ} :
    isCollecting session = true ↔ session.lexer.tokens ≠ [] := by
  simp [isCollecting]

theorem prompt_eq (session : Session σ) :
    prompt session =
      .prompt (if session.lexer.tokens = [] then firstPrompt else nextPrompt) := by
  by_cases empty : session.lexer.tokens = []
  · simp [prompt, isCollecting, empty, promptText, firstPrompt]
  · simp [prompt, isCollecting, empty, promptText, nextPrompt]

theorem prompt_of_clean {session : Session σ} (clean : session.Clean) :
    prompt session = .prompt firstPrompt := by
  rw [prompt_eq, if_pos clean.tokens]

theorem evaluate_feed (session : Session σ) (text : String) :
    evaluate settings (session.feed text) =
      .proceed (verdict settings (session.parse settings text))
        (session.parse settings text).2 := by
  have sameRun : (session.feed text).parse settings "" = session.parse settings text := by
    simp only [Session.parse, Session.feed_empty]
  simp only [evaluate, sameRun]
  rcases session.parse settings text with ⟨failure | value, after⟩
  · rfl
  · cases value <;> rfl

section Collecting

variable {session : Session σ} {front : List String}

/-- A line that is taken in behind others is evaluated with them, unless brackets are open then. -/
theorem collect_behind (clean : session.Clean) (settled : ∀ line ∈ front, Settled line)
    (line : String) :
    collect settings (session.feed (textOfLines front)) line =
      if 0 < unclosedIn (front ++ [line]) then
        .proceed [] (session.feed (textOfLines (front ++ [line])))
      else
        .proceed (verdict settings (session.parse settings (textOfLines (front ++ [line]))))
          (session.parse settings (textOfLines (front ++ [line]))).2 := by
  have fed : (session.feed (textOfLines front)).feed (line ++ "\n") =
      session.feed (textOfLines (front ++ [line])) := by
    rw [textOfLines_append, ← Session.feed_textOfLines_append settled]
    simp [textOfLines]
  simp only [collect, fed, unclosed_feed clean, evaluate_feed]

/-- A line is taken in where others wait, and where it is neither blank nor a command. -/
theorem answer_behind (clean : session.Clean) {line : String}
    (enters : 0 < unclosedIn front ∨ IsInput line) :
    answer settings (session.feed (textOfLines front)) line =
      collect settings (session.feed (textOfLines front)) line := by
  simp only [answer]
  rcases enters with unclosed | ⟨noQuit, noReset, noBlank⟩
  · rw [if_pos (isCollecting_of_unclosed (by rwa [unclosed_feed clean]))]
  · simp only [noQuit, noReset, noBlank, if_false, ite_self]

theorem prompt_behind (clean : session.Clean) (unclosed : 0 < unclosedIn front) :
    prompt (session.feed (textOfLines front)) = .prompt nextPrompt := by
  rw [prompt, isCollecting_of_unclosed (by rwa [unclosed_feed clean])]
  rfl

theorem converse_behind (clean : session.Clean) (settled : ∀ line ∈ front, Settled line)
    {line : String} (enters : 0 < unclosedIn front ∨ IsInput line) (rest : List String) :
    let lines := textOfLines (front ++ [line])
    converse settings (session.feed (textOfLines front)) (line :: rest) =
      prompt (session.feed (textOfLines front)) ::
        if 0 < unclosedIn (front ++ [line]) then converse settings (session.feed lines) rest
        else
          verdict settings (session.parse settings lines) ++
            converse settings (session.parse settings lines).2 rest := by
  intro lines
  simp only [converse, answer_behind clean enters, collect_behind clean settled, lines]
  by_cases unclosed : 0 < unclosedIn (front ++ [line])
  · simp only [if_pos unclosed, List.nil_append]
  · simp only [if_neg unclosed]

/-- Lines are taken in one after the other as long as brackets are open behind each of them. -/
theorem converse_taken (clean : session.Clean) (settledFront : ∀ line ∈ front, Settled line)
    {line : String} {more : List String} (settled : ∀ other ∈ line :: more, Settled other)
    (enters : 0 < unclosedIn front ∨ IsInput line)
    (unfinished : ∀ next, next <+: more → 0 < unclosedIn (front ++ line :: next))
    (rest : List String) :
    converse settings (session.feed (textOfLines front)) (line :: (more ++ rest)) =
      prompt (session.feed (textOfLines front)) ::
        ((more.map fun _ => .prompt nextPrompt) ++
          converse settings (session.feed (textOfLines (front ++ line :: more))) rest) := by
  induction more generalizing front line with
  | nil =>
      rw [converse_behind clean settledFront enters, if_pos (unfinished [] List.nil_prefix)]
      rfl
  | cons next more ih =>
      have unclosed : 0 < unclosedIn (front ++ [line]) := unfinished [] List.nil_prefix
      rw [List.forall_mem_cons] at settled
      have settledBoth : ∀ other ∈ front ++ [line], Settled other := by
        simpa only [List.forall_mem_append, List.forall_mem_singleton] using
          ⟨settledFront, settled.1⟩
      have grouped (others : List String) :
          front ++ [line] ++ next :: others = front ++ line :: next :: others := by simp
      have unfinishedThere :
          ∀ others, others <+: more → 0 < unclosedIn (front ++ [line] ++ next :: others) := by
        intro others begins
        rw [grouped]
        exact unfinished (next :: others) (List.cons_prefix_cons.mpr ⟨rfl, begins⟩)
      have continued := ih settledBoth settled.2 (.inl unclosed) unfinishedThere
      rw [converse_behind clean settledFront enters, if_pos unclosed, List.cons_append, continued,
        prompt_behind clean unclosed, grouped]
      rfl

end Collecting

section Chunks

variable {session : Session σ} (clean : session.Clean) {first : String} (isInput : IsInput first)

include clean isInput

/-- Where nothing waits, the first line is invited in another way than those behind it. -/
theorem converse_first {more : List String} (settled : ∀ line ∈ first :: more, Settled line)
    (unfinished : Unfinished (first :: more)) (rest : List String) :
    converse settings session (first :: (more ++ rest)) =
      invitations more ++
        converse settings (session.feed (textOfLines (first :: more))) rest := by
  have unfinishedThere : ∀ next, next <+: more → 0 < unclosedIn ([] ++ first :: next) := by
    intro next begins
    exact unfinished (first :: next) (by simp) (List.cons_prefix_cons.mpr ⟨rfl, begins⟩)
  have taken : converse settings (session.feed (textOfLines [])) (first :: (more ++ rest)) = _ :=
    converse_taken clean (by simp) settled (.inr isInput) unfinishedThere rest
  have nothing : session.feed (textOfLines []) = session := session.feed_empty
  rw [nothing] at taken
  rw [taken, prompt, isCollecting_of_clean clean]
  rfl

/-- A chunk is taken in and evaluated as one text. -/
theorem converse_chunk {more : List String} (settled : ∀ line ∈ first :: more, Settled line)
    (chunk : Chunk (first :: more)) (rest : List String) :
    let ended := session.parse settings (textOfLines (first :: more))
    converse settings session (first :: (more ++ rest)) =
      invitations more ++ verdict settings ended ++ converse settings ended.2 rest := by
  intro ended
  have noMore : ¬0 < unclosedIn (first :: more) := Int.not_lt.mpr chunk.closed
  rcases List.eq_nil_or_concat' more with rfl | ⟨before, last, rfl⟩
  · have whole : converse settings (session.feed (textOfLines [])) (first :: ([] ++ rest)) = _ :=
      converse_behind clean (by simp) (.inr isInput) rest
    have nothing : session.feed (textOfLines []) = session := session.feed_empty
    rw [nothing] at whole
    rw [whole, prompt, isCollecting_of_clean clean, List.nil_append, if_neg noMore]
    rfl
  · rw [← List.cons_append, List.forall_mem_append] at settled
    have unfinished : Unfinished (first :: before) := by
      intro front nonempty begins
      refine chunk.shortest front nonempty (begins.trans ⟨[last], by simp⟩) ?_
      rintro rfl
      exact absurd begins.length_le (by simp)
    have unclosed : 0 < unclosedIn (first :: before) := unfinished _ (by simp) List.prefix_rfl
    rw [List.append_assoc, converse_first clean isInput settled.1 unfinished,
      List.singleton_append, converse_behind clean settled.1 (.inl unclosed), List.cons_append,
      if_neg noMore, prompt_behind clean unclosed]
    simp [invitations, ended]

/-- Lines behind each of which brackets are open are taken in, and nothing is evaluated. -/
theorem converse_unfinished {more : List String} (settled : ∀ line ∈ first :: more, Settled line)
    (unfinished : Unfinished (first :: more)) :
    converse settings session (first :: more) =
      invitations more ++ [.prompt nextPrompt, .output ""] := by
  have taken : converse settings session (first :: (more ++ [])) = _ :=
    converse_first clean isInput settled unfinished []
  have unclosed : 0 < unclosedIn (first :: more) := unfinished _ (by simp) List.prefix_rfl
  rw [List.append_nil] at taken
  rw [taken, converse, prompt_behind clean unclosed]

end Chunks

/-- Lines begin with a chunk unless brackets are open behind each of them. -/
theorem exists_chunk (lines : List String) :
    (∃ chunk rest, lines = chunk ++ rest ∧ Chunk chunk) ∨ Unfinished lines := by
  induction lines using List.reverseRecOn with
  | nil =>
      right
      intro front nonempty begins
      exact absurd (List.prefix_nil.mp begins) nonempty
  | append_singleton before last ih =>
      rcases ih with ⟨chunk, rest, rfl, isChunk⟩ | unfinished
      · exact Or.inl ⟨chunk, rest ++ [last], by simp, isChunk⟩
      · by_cases unclosed : 0 < unclosedIn (before ++ [last])
        · right
          intro front nonempty begins
          rcases List.prefix_concat_iff.mp begins with rfl | shorter
          · exact unclosed
          · exact unfinished front nonempty shorter
        · refine Or.inl ⟨before ++ [last], [], by simp, by simp, Int.not_lt.mp unclosed, ?_⟩
          intro front nonempty begins short
          rcases List.prefix_concat_iff.mp begins with same | shorter
          · exact absurd same short
          · exact unfinished front nonempty shorter

/-- Every input can be cut into commands, blank lines and chunks. -/
theorem exists_converses (settings : Settings σ) (session : Session σ) (lines : List String) :
    ∃ events, Converses settings session lines events := by
  induction size : lines.length using Nat.strong_induction_on generalizing session lines with
  | _ size ih =>
      subst size
      rcases lines with _ | ⟨first, rest⟩
      · exact ⟨_, .done session⟩
      · have shorter : rest.length < (first :: rest).length := by simp
        by_cases quit : Text.trim first = ":quit"
        · exact ⟨_, .quit session quit rest⟩
        · by_cases reset : Text.trim first = ":reset"
          · rcases ih _ shorter session.reset rest rfl with ⟨events, later⟩
            exact ⟨_, .reset reset later⟩
          · by_cases blank : Text.trim first = ""
            · rcases ih _ shorter session rest rfl with ⟨events, later⟩
              exact ⟨_, .blank blank later⟩
            · have isInput : IsInput first := ⟨quit, reset, blank⟩
              rcases exists_chunk (first :: rest) with ⟨chunk, others, cut, isChunk⟩ | unfinished
              · rcases chunk with _ | ⟨begin_, more⟩
                · exact absurd rfl isChunk.nonempty
                · cases cut
                  have othersShorter : others.length < (first :: (more ++ others)).length := by
                    simp only [List.length_cons, List.length_append]
                    omega
                  rcases ih _ othersShorter _ others rfl with ⟨events, later⟩
                  exact ⟨_, .chunk isInput isChunk later⟩
              · exact ⟨_, .unfinished session isInput unfinished⟩

theorem converse_of_converses (quiet : settings.hooks = .none) {session : Session σ}
    {lines : List String} {events : List Event}
    (converses : Converses settings session lines events)
    (clean : session.Clean) (settled : ∀ line ∈ lines, Settled line) :
    converse settings session lines = events := by
  induction converses with
  | done session => rw [converse, prompt_of_clean clean]
  | quit session command rest =>
      simp [converse, prompt_of_clean clean, answer, isCollecting_of_clean clean, command]
  | @reset session line command rest events later ih =>
      have continued := ih ⟨rfl, rfl, rfl, rfl, rfl⟩ (List.forall_mem_cons.mp settled).2
      simp [converse, prompt_of_clean clean, answer, isCollecting_of_clean clean, command, continued]
  | @blank session line blank rest events later ih =>
      have continued := ih clean (List.forall_mem_cons.mp settled).2
      simp [converse, prompt_of_clean clean, answer, isCollecting_of_clean clean, blank, continued]
  | @chunk session first more rest events isInput chunk later ih =>
      rw [← List.cons_append, List.forall_mem_append] at settled
      have cleanAfter :=
        Session.clean_parse (observing_of_quiet quiet)
          (silent_of_quiet quiet).catchable clean.blocks (textOfLines (first :: more))
      rw [converse_chunk clean isInput settled.1 chunk, ih cleanAfter settled.2]
  | unfinished session isInput unfinished =>
      exact converse_unfinished clean isInput settled unfinished

theorem converse_eq_iff_converses (quiet : settings.hooks = .none) {session : Session σ}
    (clean : session.Clean) {lines : List String} (settled : ∀ line ∈ lines, Settled line)
    (events : List Event) :
    converse settings session lines = events ↔ Converses settings session lines events := by
  constructor
  · rintro rfl
    rcases exists_converses settings session lines with ⟨events, converses⟩
    rwa [converse_of_converses quiet converses clean settled]
  · intro converses
    exact converse_of_converses quiet converses clean settled

/-- The sessions in which a dialogue over lines invites to enter a line. -/
def atPrompts (settings : Settings σ) (session : Session σ) : List String → List (Session σ)
  | [] => [session]
  | line :: rest =>
      session ::
        match answer settings session line with
        | .quit => []
        | .proceed _ session => atPrompts settings session rest

/-- An event invites to enter a line. -/
def isPrompt : Event → Bool
  | .prompt _ => true
  | _ => false

/-- The session is at the top level, and where text waits in it, brackets are open. -/
structure Waiting (session : Session σ) : Prop where
  blocks : session.scope.blocks = []
  isCollecting_iff : isCollecting session = true ↔ 0 < session.lexer.unclosed

theorem Waiting.of_clean {session : Session σ} (clean : session.Clean) : Waiting session where
  blocks := clean.blocks
  isCollecting_iff := by
    simp [isCollecting_of_clean clean, Lexer.unclosed, clean.tokens, unclosedBrackets]

/-- After an answer the session waits again, and the answer itself invites to nothing. -/
def Proceeds : Reply σ → Prop
  | .quit => True
  | .proceed events after => Waiting after ∧ events.filter isPrompt = []

theorem filter_isPrompt_verdict (settings : Settings σ)
    (ended : Except Failure Value × Session σ) :
    (verdict settings ended).filter isPrompt = [] := by
  rcases ended with ⟨failure | value, after⟩
  · rfl
  · cases value <;> rfl

theorem proceeds_collect (quiet : settings.hooks = .none) {session : Session σ}
    (topLevel : session.scope.blocks = []) (line : String) :
    Proceeds (collect settings session line) := by
  simp only [collect]
  split
  · rename_i unclosed
    exact ⟨⟨topLevel, by simp [isCollecting_of_unclosed unclosed, unclosed]⟩, rfl⟩
  · rw [evaluate_feed]
    have clean := Session.clean_parse (observing_of_quiet quiet)
      (silent_of_quiet quiet).catchable topLevel (line ++ "\n")
    exact ⟨.of_clean clean, filter_isPrompt_verdict settings _⟩

theorem proceeds_answer (quiet : settings.hooks = .none) {session : Session σ}
    (waiting : Waiting session) (line : String) : Proceeds (answer settings session line) := by
  simp only [answer]
  split
  · exact proceeds_collect quiet waiting.blocks line
  · split
    · trivial
    · split
      · exact ⟨.of_clean ⟨rfl, rfl, rfl, rfl, rfl⟩, rfl⟩
      · split
        · exact ⟨waiting, rfl⟩
        · exact proceeds_collect quiet waiting.blocks line

/-- Wherever a dialogue invites to enter a line, its session waits for one. -/
theorem waiting_atPrompts (quiet : settings.hooks = .none) {session : Session σ}
    (waiting : Waiting session) (lines : List String) :
    ∀ other ∈ atPrompts settings session lines, Waiting other := by
  induction lines generalizing session with
  | nil => simpa [atPrompts] using waiting
  | cons line rest ih =>
      have proceeds := proceeds_answer quiet waiting line
      rw [atPrompts, List.forall_mem_cons]
      refine ⟨waiting, ?_⟩
      cases answered : answer settings session line with
      | quit => simp
      | proceed events after =>
          rw [answered] at proceeds
          exact ih proceeds.1

theorem filter_isPrompt_converse (quiet : settings.hooks = .none) {session : Session σ}
    (waiting : Waiting session) (lines : List String) :
    (converse settings session lines).filter isPrompt =
      (atPrompts settings session lines).map prompt := by
  induction lines generalizing session with
  | nil => rfl
  | cons line rest ih =>
      have proceeds := proceeds_answer quiet waiting line
      simp only [converse, atPrompts, List.map_cons]
      cases answered : answer settings session line with
      | quit => rfl
      | proceed events after =>
          rw [answered] at proceeds
          simp only [List.filter_cons, List.filter_append, proceeds.2, ih proceeds.1]
          rfl

/--
A dialogue whose lines leave no string and no block comment open converses chunk by chunk. Wherever
it invites to enter a line, it is at the top level, and it invites to go on if and only if brackets
are open in the lines that wait. Its code is zero.
-/
theorem transcript_chunk_by_chunk (verbose : Bool) (nesting : NestingLimit) {lines : List String}
    (settled : ∀ line ∈ lines, Settled line) :
    let settings := settingsFor verbose nesting
    let start : Session Unit := .fresh ()
    (∀ events, transcript verbose nesting lines = .output greeting :: events ↔
      Converses settings start lines events) ∧
    (transcript verbose nesting lines).filter isPrompt =
      (atPrompts settings start lines).map (fun session =>
        .prompt (if session.lexer.tokens = [] then firstPrompt else nextPrompt)) ∧
    (∀ session ∈ atPrompts settings start lines,
      session.scope.blocks = [] ∧ (session.lexer.tokens ≠ [] ↔ 0 < session.lexer.unclosed)) ∧
    ∀ input, (CommandLine.converse verbose nesting input).code = 0 := by
  intro settings start
  have quiet : settings.hooks = .none := rfl
  have clean : start.Clean := ⟨rfl, rfl, rfl, rfl, rfl⟩
  have waiting : Waiting start := .of_clean clean
  refine ⟨?_, ?_, ?_, fun _ => rfl⟩
  · intro events
    rw [← converse_eq_iff_converses quiet clean settled events]
    simp [transcript, settings, start]
  · simp only [← prompt_eq]
    exact filter_isPrompt_converse quiet waiting lines
  · intro session member
    have waits := waiting_atPrompts quiet waiting lines session member
    exact ⟨waits.blocks, isCollecting_iff.symm.trans waits.isCollecting_iff⟩

theorem transcript_chunk_by_chunk_quoted :
    let lines := ["(\"*/\" // \"", ")", "", "let a", ":reset", "\x7b"]
    let events : List Event :=
      [.prompt firstPrompt, .prompt nextPrompt, .output "String(\"*/\")", .prompt firstPrompt,
        .prompt firstPrompt, .prompt firstPrompt, .prompt firstPrompt, .prompt nextPrompt,
        .output ""]
    (∀ line ∈ lines, Settled line) ∧ transcript false .greatest lines = .output greeting :: events ∧
      Converses (settingsFor false .greatest) (.fresh ()) lines events := by
  intro lines events
  have settled : ∀ line ∈ lines, Settled line := by decide
  have shown : transcript false .greatest lines = .output greeting :: events := by decide +kernel
  exact ⟨settled, shown, ((transcript_chunk_by_chunk false .greatest settled).1 events).mp shown⟩

end BlockCalc.Dialogue
