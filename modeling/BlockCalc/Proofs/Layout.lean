import BlockCalc.Proofs.Comments
import BlockCalc.Proofs.Script

/-!
# Layout

How a program is laid out in lines, with which comments, and in how many pieces it is fed, is seen
in nothing but the places of its tokens. Two evaluations of the same tokens at other places end in
the same way, leave the same bindings, and log the same steps, apart from where these happened and
what was bound then. This is so for any names of files, and whether or not the bindings are logged.
-/

namespace BlockCalc

variable {σ τ : Type}

theorem Token.Alike.opens? {left right : Token} (alike : left.Alike right) :
    right.opens? = left.opens? := by
  rcases alike with ⟨start, rfl⟩
  rfl

theorem Token.Alike.closes? {left right : Token} (alike : left.Alike right) :
    right.closes? = left.closes? := by
  rcases alike with ⟨start, rfl⟩
  rfl

theorem alike_head? {tokens others : List Token} (alike : tokens.Forall₂ Token.Alike others) :
    Option.Rel Token.Alike tokens.head? others.head? := by
  cases alike with
  | nil => exact .none
  | cons alikeFirst _ => exact .some alikeFirst

theorem alike_getLast? {tokens others : List Token} (alike : tokens.Forall₂ Token.Alike others) :
    Option.Rel Token.Alike tokens.getLast? others.getLast? := by
  rw [List.getLast?_eq_head?_reverse, List.getLast?_eq_head?_reverse]
  exact alike_head? (List.rel_reverse alike)

theorem alike_orElse {first other second otherSecond : Option Token}
    (alike : Option.Rel Token.Alike first other)
    (alikeSeconds : Option.Rel Token.Alike second otherSecond) :
    Option.Rel Token.Alike (first <|> second) (other <|> otherSecond) := by
  cases alike with
  | some alikeTokens => exact .some alikeTokens
  | none => exact alikeSeconds

namespace Forest

theorem tangled?_alike {tokens others : List Token} (alike : tokens.Forall₂ Token.Alike others)
    (waiting : List Bracket) :
    Option.Rel Token.Alike (tangled? waiting tokens) (tangled? waiting others) := by
  induction alike generalizing waiting with
  | nil => exact .none
  | @cons token other rest otherRest alikeToken _ ih =>
      simp only [tangled?, alikeToken.opens?, alikeToken.closes?]
      split
      · exact ih _
      · split
        · exact .some alikeToken
        · split
          · exact ih _
          · exact .some alikeToken
      · exact ih _

theorem unequal?_alike {tokens others : List Token} (alike : tokens.Forall₂ Token.Alike others)
    (bracket : Bracket) :
    Option.Rel Token.Alike (unequal? tokens bracket) (unequal? others bracket) := by
  have opened : (tokens.filter fun token => token.opens? = some bracket).Forall₂ Token.Alike
      (others.filter fun token => token.opens? = some bracket) := by
    apply List.rel_filter _ alike
    intro token other alikeToken
    simp [alikeToken.opens?]
  have closed : (tokens.filter fun token => token.closes? = some bracket).Forall₂ Token.Alike
      (others.filter fun token => token.closes? = some bracket) := by
    apply List.rel_filter _ alike
    intro token other alikeToken
    simp [alikeToken.closes?]
  simp only [unequal?, opened.length_eq, closed.length_eq]
  split
  · exact alike_getLast? opened
  · split
    · exact alike_getLast? closed
    · exact .none

theorem blamed?_alike {tokens others : List Token} (alike : tokens.Forall₂ Token.Alike others) :
    Option.Rel Token.Alike (blamed? tokens) (blamed? others) :=
  alike_orElse (unequal?_alike alike .round)
    (alike_orElse (unequal?_alike alike .curly) (tangled?_alike alike []))

/-- Where brackets do not match, alike tokens are to blame in alike tokens. -/
theorem ofTokens_alike_of_error {tokens others : List Token} {blamed : Token}
    (failed : ofTokens tokens = .error blamed) (alike : tokens.Forall₂ Token.Alike others) :
    ∃ other, ofTokens others = .error other ∧ blamed.Alike other := by
  have found : blamed? tokens = some blamed := by
    simp only [ofTokens] at failed
    split at failed
    · cases failed
      assumption
    · cases failed
  have blames := blamed?_alike alike
  rw [found] at blames
  cases otherFound : blamed? others with
  | none =>
      rw [otherFound] at blames
      cases blames
  | some other =>
      rw [otherFound] at blames
      cases blames with
      | some alikeTokens => exact ⟨other, by rw [ofTokens, otherFound], alikeTokens⟩

end Forest

namespace StepLog

/-- The steps that a log tells, without where they happened and what was bound then. -/
def story (log : StepLog) : List (Nat × Table Json) :=
  log.entries.toList.map fun entry => (entry.index, entry.record)

theorem story_push (log : StepLog) (entry : Entry) :
    (log.push entry).story = log.story ++ [(entry.index, entry.record)] := by
  simp [story, push]

theorem length_story (log : StepLog) : log.story.length = log.entries.size := by
  simp [story]

theorem lastId_eq (log : StepLog) :
    log.lastId = ((log.story.getLast?).map fun told => stateId told.1).getD seedId := by
  simp only [lastId, story, ← Array.getLast?_toList, List.getLast?_map]
  cases log.entries.toList.getLast? <;> rfl

/-- Logs that tell the same still do after the same step. -/
theorem story_push_of_tells {left right : StepLog} (same : left.story = right.story) {step : Step}
    {entry other : Entry} (tells : entry.Tells left step) (otherTells : other.Tells right step) :
    (left.push entry).story = (right.push other).story := by
  have sameSize : left.entries.size = right.entries.size := by
    rw [← length_story, ← length_story, same]
  rcases tells with ⟨_, _, _, rfl⟩
  rcases otherTells with ⟨_, _, _, rfl⟩
  simp only [story_push, nextEntry, lastId_eq, same, sameSize]

end StepLog

theorem Settings.Peers.story {settings : Settings σ} {peer : Settings τ}
    (quiet : settings.hooks = .none) (peerQuiet : peer.hooks = .none)
    (sameNesting : peer.nesting = settings.nesting) :
    settings.Peers peer fun left right => left.story = right.story where
  quiet := quiet
  peerQuiet := peerQuiet
  sameNesting := sameNesting
  push same tells otherTells := StepLog.story_push_of_tells same tells otherTells

namespace Session

theorem log_parse {settings : Settings σ} (quiet : settings.hooks = .none) (session : Session σ)
    (text : String) :
    (session.parse settings text).2.log =
      (Eval.finished (Eval.program settings (session.feed text).prepare)).log := by
  rw [parse_of_quiet quiet]
  cases Eval.program settings (session.feed text).prepare <;> rfl

theorem scope_foldl_feed (session : Session σ) (pieces : List String) :
    (pieces.foldl feed session).scope = session.scope := by
  induction pieces generalizing session with
  | nil => rfl
  | cons piece rest ih => exact ih (session.feed piece)

section Layout

variable {settings : Settings σ} {peer : Settings τ} {logs : StepLog → StepLog → Prop}
  {first : Session σ} {second : Session τ}

theorem beside_begun (peers : settings.Peers peer logs) (beside : first.Beside logs second)
    (sameLength : first.program.length = second.program.length) :
    (first.begun settings).Beside logs (second.begun peer) where
  scope := beside.scope
  brackets := beside.brackets
  log := by
    apply peers.push beside.log (first.tells_entry settings _ none)
    rw [sameLength]
    exact second.tells_entry peer _ none

/-- Alike programs show the same and leave related logs, also where their brackets do not match. -/
theorem program_of_peers (peers : settings.Peers peer logs) (beside : first.Beside logs second)
    (alike : first.program.Forall₂ Token.Alike second.program) :
    Eval.shown (Eval.program settings first) = Eval.shown (Eval.program peer second) ∧
      logs (Eval.finished (Eval.program settings first)).log
        (Eval.finished (Eval.program peer second)).log := by
  have begun := beside_begun peers beside alike.length_eq
  cases found : Forest.ofTokens first.program with
  | ok forest =>
      rcases Forest.ofTokens_alike found alike with ⟨other, otherFound, alikeForests⟩
      rw [Eval.program_of_found peers.quiet found, Eval.program_of_found peers.peerQuiet otherFound]
      exact (Eval.matches_statements_of_peers peers alikeForests).ends begun
  | error blamed =>
      rcases Forest.ofTokens_alike_of_error found alike with ⟨_, otherFound, start, rfl⟩
      rcases Eval.program_of_blamed peers.quiet found with ⟨location, ran⟩
      rcases Eval.program_of_blamed peers.peerQuiet otherFound with ⟨otherLocation, otherRan⟩
      rw [ran, otherRan]
      exact ⟨by simp only [Eval.shown, begun.scope, Token.text_moved], begun.log⟩

/--
Texts that give the same tokens at other places, however they are fed, have evaluations from the
same bindings that show the same and log the same steps; neither the name of the file nor whether
bindings are logged matters. Such a text arises from any text by taking its comments out.
-/
theorem parse_independent_of_layout (quiet : settings.hooks = .none)
    (peerQuiet : peer.hooks = .none) (sameNesting : peer.nesting = settings.nesting)
    (sameScope : first.scope = second.scope) (pieces otherPieces : List String)
    (text otherText : String)
    (alike : ((pieces.foldl feed first).feed text).lexer.tokens.Forall₂ Token.Alike
      ((otherPieces.foldl feed second).feed otherText).lexer.tokens) :
    let ended := (pieces.foldl feed first).parse settings text
    let otherEnded := (otherPieces.foldl feed second).parse peer otherText
    shown ended = shown otherEnded ∧ ended.2.log.story = otherEnded.2.log.story ∧
      ∀ (lexer other : Lexer) (commented : String),
        (lexer.newTokens commented).Forall₂ Token.Alike
          (other.newTokens (String.ofList (withoutComments commented.toList))) := by
  intro ended otherEnded
  have beside : ((pieces.foldl feed first).feed text).prepare.Beside
      (fun left right => left.story = right.story)
      ((otherPieces.foldl feed second).feed otherText).prepare := by
    refine ⟨?_, rfl, rfl⟩
    calc (pieces.foldl feed first).scope
      _ = first.scope := scope_foldl_feed first pieces
      _ = second.scope := sameScope
      _ = (otherPieces.foldl feed second).scope := (scope_foldl_feed second otherPieces).symm
  have together := program_of_peers (.story quiet peerQuiet sameNesting) beside alike
  refine ⟨?_, ?_, Lexer.alike_newTokens_withoutComments⟩
  · simp only [ended, otherEnded, shown_parse quiet, shown_parse peerQuiet, together.1]
  · simp only [ended, otherEnded, log_parse quiet, log_parse peerQuiet, together.2]

end Layout

theorem parse_independent_of_layout_commented :
    let settings : Settings Unit := {}
    let peer : Settings Unit := { fileName := "other", verbose := true }
    let session : Session Unit := fresh ()
    let ended := ([].foldl feed session).parse settings "let a=1;a"
    let otherEnded := (["let a // one\n", "= "].foldl feed session).parse peer "1; /* all */ a"
    shown ended = shown otherEnded ∧ ended.1 = .ok (.integer 1) := by
  intro settings peer session ended otherEnded
  have alike : ((([] : List String).foldl feed session).feed "let a=1;a").lexer.tokens.Forall₂
      Token.Alike
      ((["let a // one\n", "= "].foldl feed session).feed "1; /* all */ a").lexer.tokens := by
    decide +kernel
  have value : (((fresh () : Session Unit).parse {} "let a=1;a").1 = .ok (.integer 1)) := by
    decide +kernel
  have quiet : settings.hooks = .none := rfl
  have peerQuiet : peer.hooks = .none := rfl
  exact ⟨(parse_independent_of_layout quiet peerQuiet rfl rfl _ _ _ _ alike).1, value⟩

end Session

end BlockCalc
