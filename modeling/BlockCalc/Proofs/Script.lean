import BlockCalc.Proofs.Lockstep
import BlockCalc.Proofs.SideBySide

/-!
# Scripts and sequences of entries

A script that ends with a semicolon can be cut there: evaluating it together with what follows does
the same as evaluating the two one after the other. If the script fails, what follows is not
reached, and the bindings that it has made by then survive in both cases.
-/

namespace BlockCalc

variable {σ τ : Type}

namespace Forest

theorem eq_nil_of_tokens {forest : Forest} (empty : forest.tokens = []) : forest = nil := by
  cases forest <;> simp [tokens] at empty ⊢

/-- The last token of a forest stands outside all brackets, unless it is a closer. -/
theorem exists_append_leaf {forest : Forest} (matched : forest.Matched) {last : Token}
    (ends : forest.tokens.getLast? = some last) (noCloser : last.closes? = none) :
    ∃ front : Forest, forest = front.append (.leaf last .nil) := by
  induction forest with
  | nil => simp [tokens] at ends
  | leaf token rest ih =>
      rcases matched with ⟨opens, closes, restMatched⟩
      rcases restTokens : rest.tokens with _ | ⟨next, following⟩
      · simp only [tokens, restTokens, List.getLast?_singleton, Option.some.injEq] at ends
        exact ⟨.nil, by rw [eq_nil_of_tokens restTokens, ends]; rfl⟩
      · have restEnds : rest.tokens.getLast? = some last := by
          simpa [tokens, restTokens] using ends
        rcases ih restMatched restEnds with ⟨front, rfl⟩
        exact ⟨.leaf token front, rfl⟩
  | nest bracket opener inner closer rest _ ih =>
      rcases matched with ⟨opens, ⟨closer, rfl, closes⟩, innerMatched, restMatched⟩
      have behindInner : (closer :: rest.tokens).getLast? = some last := by
        rw [tokens, ← List.cons_append, List.getLast?_append_of_ne_nil _ (by simp)] at ends
        exact ends
      rcases restTokens : rest.tokens with _ | ⟨next, following⟩
      · simp only [restTokens, List.getLast?_singleton, Option.some.injEq] at behindInner
        simp [behindInner, noCloser] at closes
      · have restEnds : rest.tokens.getLast? = some last := by
          simpa [restTokens] using behindInner
        rcases ih restMatched restEnds with ⟨front, rfl⟩
        exact ⟨.nest bracket opener inner closer front, rfl⟩

end Forest

namespace Eval

variable {settings : Settings σ}

/-- Behind a semicolon nothing of a statement has been read. -/
theorem ensures_read_script {script : List Token} {forest : Forest}
    (found : Forest.ofTokens script = .ok forest) {separator : Token}
    (ends : script.getLast? = some separator) (isSeparator : separator.isSeparator = true)
    (session : Session σ) :
    Ensures (read settings .statements forest (.statement .void)) session
      (fun last _ => last = .statement .void) (fun _ _ => True) := by
  rcases Forest.ofTokens_eq_ok_iff.mp found with ⟨matched, rfl⟩
  rcases Forest.exists_append_leaf matched ends (Token.closes?_of_isSeparator isSeparator) with
    ⟨front, rfl⟩
  rw [read_append]
  apply (ensures_trivial _ session).bind
  intro before middle _
  simp only [read_leaf, readToken, isSeparator, if_true, endExpression, ensures_bind,
    ensures_advance]
  apply (ensures_trivial _ _).imp
  intro value finished _
  exact rfl

/-- A script that ends where a statement may start is evaluated before what follows it. -/
theorem statements_append {script following : Forest}
    (complete : ∀ session,
      Ensures (read settings .statements script (.statement .void)) session
        (fun last _ => last = .statement .void) (fun _ _ => True)) :
    statements settings (script.append following) = (do
      let _ ← statements settings script
      statements settings following) := by
  calc statements settings (script.append following)
    _ = (do
          let phase ← read settings .statements script (.statement .void)
          finish settings none (← read settings .statements following phase)) := by
      simp only [statements, read_append, bind_assoc]
    _ = (do
          let _ ← read settings .statements script (.statement .void)
          statements settings following) :=
      bind_of_ensures complete
    _ = (do
          let phase ← read settings .statements script (.statement .void)
          let _ ← finish settings none phase
          statements settings following) := by
      symm
      rw [bind_of_ensures complete]
      rfl
    _ = (do
          let _ ← statements settings script
          statements settings following) := by
      simp only [statements, bind_assoc]

/--
What a run shows apart from places: its value or the cause of its failure, and the bindings that an
evaluation leaves after it.
-/
def shown : EStateM.Result Failure (Session σ) Value → Except Cause Value × Scope
  | .ok value finished => (.ok value, finished.scope)
  | .error failure finished => (.error failure.cause, finished.scope.unwind)

/-- The session that a run leaves. -/
def finished {α : Type} : EStateM.Result Failure (Session σ) α → Session σ
  | .ok _ finished => finished
  | .error _ finished => finished

/-- Runs that match show the same and leave related logs. -/
theorem Matches.ends {logs : StepLog → StepLog → Prop} {left : Eval σ Value} {right : Eval τ Value}
    (matched : Matches logs Eq left right) {first : Session σ} {second : Session τ}
    (beside : first.Beside logs second) :
    shown (left first) = shown (right second) ∧
      logs (finished (left first)).log (finished (right second)).log := by
  have together := matched first second beside
  simp only [Ensures] at together
  cases leftRan : left first with
  | ok value after =>
      cases rightRan : right second with
      | ok other afterOther =>
          simp only [leftRan, rightRan] at together
          exact ⟨by simp only [shown, together.1, together.2.scope], together.2.log⟩
      | error failure afterOther => simp [leftRan, rightRan] at together
  | error failure after =>
      cases rightRan : right second with
      | ok other afterOther => simp [leftRan, rightRan] at together
      | error other afterOther =>
          simp only [leftRan, rightRan] at together
          exact ⟨by simp only [shown, together.1, together.2.scope], together.2.log⟩

theorem Matches.shown_eq {left right : Eval σ Value}
    (matched : Matches (fun _ _ => True) Eq left right) {first second : Session σ}
    (alike : first.Alike second) : shown (left first) = shown (right second) :=
  (matched.ends ⟨alike.scope, alike.brackets, trivial⟩).1

end Eval

namespace Session

/-- The session with other tokens waiting, which come from some source. -/
def holding (session : Session σ) (tokens : List Token) (source : Source) : Session σ :=
  { session with lexer := { session.lexer with tokens }, source }

/-- The value of an evaluation or the cause of its failure, and the bindings that it leaves. -/
def shown (ended : Except Failure Value × Session σ) : Except Cause Value × Scope :=
  (ended.1.mapError (·.cause), ended.2.scope)

theorem shown_parse {settings : Settings σ} (quiet : settings.hooks = .none) (session : Session σ)
    (text : String) :
    shown (session.parse settings text) =
      Eval.shown (Eval.program settings (session.feed text).prepare) := by
  rw [parse_of_quiet quiet]
  cases Eval.program settings (session.feed text).prepare <;> rfl

/-- An evaluation of tokens shows what a run of their forest shows. -/
theorem exists_shown_parse {settings : Settings σ} (quiet : settings.hooks = .none)
    (session : Session σ) {tokens : List Token} {forest : Forest}
    (found : Forest.ofTokens tokens = .ok forest) (source : Source) :
    ∃ start : Session σ, start.scope = session.scope ∧ start.groups = [] ∧
      start.place.Ahead forest.tokens ∧
      shown ((session.holding tokens source).parse settings "") =
        Eval.shown (Eval.statements settings forest start) := by
  have waiting : ((session.holding tokens source).feed "").lexer.tokens = tokens := by
    rw [feed_empty]
    rfl
  have foundThere : Forest.ofTokens ((session.holding tokens source).feed "").lexer.tokens =
      .ok forest := by
    rw [waiting]
    exact found
  rcases parse_of_forest quiet foundThere with ⟨log, parsed⟩
  refine ⟨{ ((session.holding tokens source).feed "").prepare with log }, rfl, rfl, ?_, ?_⟩
  · change forest.tokens <+: ((session.holding tokens source).feed "").lexer.tokens
    simp only [waiting, (Forest.ofTokens_eq_ok_iff.mp found).2, List.prefix_rfl]
  · rw [parsed]
    cases Eval.statements settings forest
      { ((session.holding tokens source).feed "").prepare with log } <;> rfl

/-- Wherever tokens stand, evaluating them shows what a run of their forest shows. -/
theorem shown_parse_alike {settings : Settings σ} (quiet : settings.hooks = .none)
    (session : Session σ) {tokens others : List Token} {forest : Forest}
    (found : Forest.ofTokens tokens = .ok forest) (alike : tokens.Forall₂ Token.Alike others)
    (source : Source) {start : Session σ} (startScope : start.scope = session.scope)
    (startGroups : start.groups = []) :
    shown ((session.holding others source).parse settings "") =
      Eval.shown (Eval.statements settings forest start) := by
  rcases Forest.ofTokens_alike found alike with ⟨other, otherFound, alikeForests⟩
  rcases exists_shown_parse quiet session otherFound source with
    ⟨otherStart, otherScope, otherGroups, _, otherShown⟩
  have sessions : start.Alike otherStart :=
    ⟨startScope.trans otherScope.symm,
      by rw [Session.brackets, startGroups, Session.brackets, otherGroups]⟩
  rw [otherShown, (Eval.matches_statements quiet alikeForests).shown_eq sessions]

/-- Tokens like a script and what follows it show what running the two in turn shows. -/
theorem shown_parse_append {settings : Settings σ} (quiet : settings.hooks = .none)
    (session : Session σ) {script rest whole : List Token} {scriptForest restForest : Forest}
    (scriptMatches : Forest.ofTokens script = .ok scriptForest)
    (restMatches : Forest.ofTokens rest = .ok restForest)
    {separator : Token} (ends : script.getLast? = some separator)
    (isSeparator : separator.isSeparator = true)
    (alike : (script ++ rest).Forall₂ Token.Alike whole) (source : Source) {start : Session σ}
    (startScope : start.scope = session.scope) (startGroups : start.groups = []) :
    shown ((session.holding whole source).parse settings "") =
      Eval.shown ((do
        let _ ← Eval.statements settings scriptForest
        Eval.statements settings restForest) start) := by
  rw [shown_parse_alike quiet session (Forest.ofTokens_append scriptMatches restMatches) alike
    source startScope startGroups,
    Eval.statements_append (Eval.ensures_read_script scriptMatches ends isSeparator)]

/--
Where a script ends with a semicolon, evaluating it and what follows it as one text shows what
evaluating the script alone shows, if that fails, and otherwise what evaluating the rest after it
shows.
-/
theorem parse_script_with_rest {settings : Settings σ} (quiet : settings.hooks = .none)
    (session : Session σ) {script rest whole : List Token} {scriptForest restForest : Forest}
    (scriptMatches : Forest.ofTokens script = .ok scriptForest)
    (restMatches : Forest.ofTokens rest = .ok restForest)
    {separator : Token} (ends : script.getLast? = some separator)
    (isSeparator : separator.isSeparator = true)
    (alike : (script ++ rest).Forall₂ Token.Alike whole)
    (scriptSource restSource wholeSource : Source) :
    let atOnce := (session.holding whole wholeSource).parse settings ""
    let first := (session.holding script scriptSource).parse settings ""
    let second := (first.2.holding rest restSource).parse settings ""
    (∀ failure, first.1 = .error failure → shown atOnce = shown first) ∧
      ∀ value, first.1 = .ok value → shown atOnce = shown second := by
  intro atOnce first second
  rcases exists_shown_parse quiet session scriptMatches scriptSource with
    ⟨start, startScope, startGroups, ahead, firstShown⟩
  rcases exists_shown_parse quiet first.2 restMatches restSource with
    ⟨restStart, restScope, restGroups, _, secondShown⟩
  -- Both evaluations start with the script, and the rest is reached only if it succeeds.
  have inTwo : shown atOnce = Eval.shown ((do
      let _ ← Eval.statements settings scriptForest
      Eval.statements settings restForest) start) :=
    shown_parse_append quiet session scriptMatches restMatches ends isSeparator alike wholeSource
      startScope startGroups
  cases ran : Eval.statements settings scriptForest start with
  | error failure finished =>
      rw [Eval.bind_of_error ran] at inTwo
      rw [ran] at firstShown
      refine ⟨fun _ _ => inTwo.trans firstShown.symm, ?_⟩
      intro value succeeded
      have sameResult : first.1.mapError (·.cause) = .error failure.cause :=
        congrArg Prod.fst firstShown
      rw [succeeded] at sameResult
      cases sameResult
  | ok value finished =>
      rw [Eval.bind_of_ok ran] at inTwo
      rw [ran] at firstShown
      refine ⟨?_, ?_⟩
      · intro failure failed
        have sameResult : first.1.mapError (·.cause) = .ok value := congrArg Prod.fst firstShown
        rw [failed] at sameResult
        cases sameResult
      · intro _ _
        have place := (Eval.ensures_statements (observing_of_quiet quiet) ahead).of_ok ran
        have sameScope : first.2.scope = finished.scope := congrArg Prod.snd firstShown
        have sessions : finished.Alike restStart := by
          refine ⟨sameScope.symm.trans restScope.symm, ?_⟩
          have sameGroups : finished.groups = start.groups := congrArg (·.groups) place
          rw [Session.brackets, sameGroups, startGroups, Session.brackets, restGroups]
        exact inTwo.trans
          (((Eval.matches_statements quiet (.refl restForest)).shown_eq sessions).trans
            secondShown.symm)

theorem parse_script_with_rest_declared :
    let settings : Settings Unit := {}
    let session : Session Unit := fresh ()
    let script : List Token :=
      [{ kind := .word, text := "let", start := {} },
        { kind := .word, text := "a", start := { column := 5 } },
        { kind := .punctuation, text := "=", start := { column := 7 } },
        { kind := .word, text := "1", start := { column := 9 } },
        { kind := .punctuation, text := ";", start := { column := 10 } }]
    let rest : List Token := [{ kind := .word, text := "a", start := {} }]
    let whole := script ++ [{ kind := .word, text := "a", start := { column := 12 } }]
    let atOnce := (session.holding whole .empty).parse settings ""
    let first := (session.holding script .empty).parse settings ""
    let second := (first.2.holding rest .empty).parse settings ""
    first.1 = .ok .void ∧ shown atOnce = shown second := by
  intro settings session script rest whole atOnce first second
  have succeeds : first.1 = .ok .void := by decide +kernel
  have alike : (script ++ rest).Forall₂ Token.Alike whole :=
    List.rel_append (Token.forall₂_alike_refl script) (.cons ⟨_, rfl⟩ .nil)
  have quiet : settings.hooks = .none := rfl
  have outcome := parse_script_with_rest quiet session (rfl : Forest.ofTokens script = .ok _)
    (rfl : Forest.ofTokens rest = .ok _) (rfl : script.getLast? = some _) rfl alike
    .empty .empty .empty
  exact ⟨succeeds, outcome.2 .void succeeds⟩

end Session

end BlockCalc
