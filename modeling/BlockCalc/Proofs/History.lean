import BlockCalc.Proofs.Lockstep

/-!
# Histories of sessions

A session is used by feeding text to it, evaluating, and resetting it, in any order. Whatever has
happened before, an evaluation leaves the session clean: no text waits, no bracket is open, and no
block is entered. What a clean session does from then on depends on nothing but the bindings at its
top level, so a fresh session with the same bindings does the same.

The handlers of the session may look on and end an evaluation wherever they are called, also while
it is being told of its own failure. An evaluation that ends early is made clean when it ends, if it
catches what ends it; one that succeeds has left all its brackets and blocks already. What is not
caught leaves brackets and blocks open, but even then no text waits.
-/

namespace BlockCalc

variable {σ : Type}

/-- Handlers that look on and complain at each of some events. -/
def Hooks.raising (events : List Event) (complaint : Complaint) : Hooks σ where
  listeners event :=
    if event ∈ events then
      [{ name := "trap"
         handle := fun _ session =>
          { workspace := session.toWorkspace
            observer := session.observer
            complaint } }]
    else []

namespace Hooks

theorem observing_raising (events : List Event) (complaint : Complaint) :
    (raising events complaint : Hooks σ).Observing where
  listeners := by
    intro event listener member notice session
    simp only [raising] at member
    split at member
    · rw [List.eq_of_mem_singleton member]
      exact ⟨rfl, rfl, rfl⟩
    · cases member
  stepRules := by simp [raising]

theorem catchable_raising (events : List Event) {complaint : Complaint}
    (caught : complaint.Caught) : (raising events complaint : Hooks σ).Catchable where
  listenersCaught := by
    intro event _ _ listener member notice session raised complains
    simp only [raising] at member
    split at member
    · rw [List.eq_of_mem_singleton member] at complains
      cases complains
      exact caught
    · cases member
  stepRulesCaught := by simp [raising]

end Hooks

/-- One use of a session. -/
inductive Command where
  | feed (text : String)
  | parse (text : String)
  | reset

/-- What a use of a session shows. -/
inductive Outcome where
  /-- The tokens of the text that was fed. -/
  | fed (tokens : List Token)
  /-- The value or the failure of an evaluation, with the log of its steps. -/
  | parsed (result : Except Failure Value) (log : StepLog)
  | reset

namespace Session

/-- Uses a session. -/
def perform (settings : Settings σ) (session : Session σ) : Command → Outcome × Session σ
  | .feed text => (.fed (session.lexer.newTokens text), session.feed text)
  | .parse text =>
      let (result, after) := session.parse settings text
      (.parsed result after.log, after)
  | .reset => (.reset, session.reset)

/-- The session after some uses. -/
def performAll (settings : Settings σ) (session : Session σ) (history : List Command) :
    Session σ :=
  history.foldl (fun session command => (session.perform settings command).2) session

/-- What uses of a session show one after the other, each with the scope that it leaves. -/
def outcomes (settings : Settings σ) (session : Session σ) :
    List Command → List (Outcome × Scope)
  | [] => []
  | command :: later =>
      let (outcome, after) := session.perform settings command
      (outcome, after.scope) :: after.outcomes settings later

/-- No text waits, no bracket is open, and the top level is the only frame. -/
structure Clean (session : Session σ) : Prop where
  tokens : session.lexer.tokens = []
  position : session.lexer.position = { line := 1, column := 1 }
  source : session.source = .empty
  groups : session.groups = []
  blocks : session.scope.blocks = []

theorem Clean.lexer_eq {session : Session σ} (clean : session.Clean) : session.lexer = .fresh := by
  rcases lexer : session.lexer with ⟨tokens, position⟩
  have noTokens := clean.tokens
  have start := clean.position
  simp only [lexer] at noTokens start
  rw [noTokens, start]
  rfl

theorem Clean.of_untouched {before after : Session σ} (clean : before.Clean)
    (untouched : before.Untouched after) : after.Clean := by
  rw [untouched]
  exact ⟨clean.tokens, clean.position, clean.source, clean.groups, clean.blocks⟩

theorem clean_dropText {session : Session σ} (groups : session.groups = [])
    (blocks : session.scope.blocks = []) : session.dropText.Clean :=
  ⟨rfl, rfl, rfl, groups, blocks⟩

theorem Untouched.dropText {before after : Session σ} (untouched : before.Untouched after) :
    before.dropText.Untouched after.dropText := by
  rw [untouched]
  rfl

section Parse

variable {settings : Settings σ} {session finished : Session σ} {text : String}

/-- Whatever listeners that look on are told of, they leave the session as it is. -/
theorem untouched_of_emit (observing : settings.hooks.Observing) (notice : Notice) :
    Eval.Ensures (Eval.emit settings notice) session (fun _ after => session.Untouched after)
      (fun _ after => session.Untouched after) := by
  rw [Eval.emit_eq observing]
  exact (Eval.watches_listeners observing notice session).mono (fun _ _ untouched => untouched)
    fun _ _ raised => raised.1

theorem untouched_of_tell (observing : settings.hooks.Observing) (notice : Notice) :
    Eval.Ensures (Eval.tell notice (settings.hooks.listeners notice.event)) session
      (fun _ after => session.Untouched after) (fun _ after => session.Untouched after) := by
  rw [Eval.tell_eq fun listener member => observing.listeners _ listener member notice,
    Eval.ensures_bind]
  exact (Eval.watches_listeners observing notice session).mono (fun _ _ untouched => untouched)
    fun _ _ raised => raised.1

/-- A successful evaluation leaves the session that it ends in, without the text. -/
theorem untouched_parse_of_ok (observing : settings.hooks.Observing) {value : Value}
    (ran : Eval.program settings (session.feed text).prepare = .ok value finished) :
    finished.dropText.Untouched (session.parse settings text).2 := by
  have untouched : Eval.Ensures (Eval.emit settings (.parseEnd value)) finished.dropText _ _ :=
    untouched_of_emit observing (.parseEnd value)
  simp only [parse, ran]
  cases told : Eval.emit settings (.parseEnd value) finished.dropText with
  | ok _ after => exact untouched.of_ok told
  | error failure after => exact untouched.of_error told

/-- An evaluation that does not catch its failure leaves all but the text as it is. -/
theorem parse_of_uncaught {failure : Failure}
    (ran : Eval.program settings (session.feed text).prepare = .error failure finished)
    (uncaught : finished.caught? failure = none) :
    session.parse settings text = (.error failure, finished.dropText) := by
  simp only [parse, ran, uncaught]

/-- A failed evaluation leaves the session that it ends in, outside all brackets and blocks. -/
theorem untouched_parse_of_error (observing : settings.hooks.Observing) {failure caught : Failure}
    (ran : Eval.program settings (session.feed text).prepare = .error failure finished)
    (catches : finished.caught? failure = some caught) :
    finished.unwind.dropText.Untouched (session.parse settings text).2 := by
  let notice : Notice := .onError (finished.report caught)
  have untouched : Eval.Ensures (Eval.tell notice (settings.hooks.listeners .onError))
      finished.unwind _ _ :=
    untouched_of_tell observing notice
  simp only [parse, ran, catches]
  cases told : Eval.tell notice (settings.hooks.listeners .onError) finished.unwind with
  | ok _ after => exact (untouched.of_ok told).dropText
  | error other after => exact (untouched.of_error told).dropText

theorem isSome_caught? (session : Session σ) {failure : Failure} (caught : failure.Caught) :
    (session.caught? failure).isSome := by
  rw [caught?]
  split
  · exact absurd ‹_› caught
  · rfl
  · rfl

theorem caught?_eq_none {failure : Failure} (uncaught : ¬failure.Caught) :
    finished.caught? failure = none := by
  simp only [caught?, Decidable.not_not.mp uncaught]

/-- However an evaluation ends, no text waits afterwards. -/
theorem dropsText_parse (observing : settings.hooks.Observing) (session : Session σ)
    (text : String) :
    (session.parse settings text).2.lexer = .fresh ∧
      (session.parse settings text).2.source = .empty := by
  have dropped {finished : Session σ}
      (untouched : finished.dropText.Untouched (session.parse settings text).2) :
      (session.parse settings text).2.lexer = .fresh ∧
        (session.parse settings text).2.source = .empty := by
    rw [untouched]
    exact ⟨rfl, rfl⟩
  cases ran : Eval.program settings (session.feed text).prepare with
  | ok value finished => exact dropped (untouched_parse_of_ok observing ran)
  | error failure finished =>
      cases catches : finished.caught? failure with
      | none =>
          rw [parse_of_uncaught ran catches]
          exact ⟨rfl, rfl⟩
      | some caught => exact dropped (untouched_parse_of_error observing ran catches)

end Parse

/-- An evaluation that starts at the top level and catches what ends it leaves the session clean. -/
theorem clean_parse {settings : Settings σ} (observing : settings.hooks.Observing)
    (catchable : settings.hooks.Catchable) {session : Session σ}
    (topLevel : session.scope.blocks = []) (text : String) :
    (session.parse settings text).2.Clean := by
  have spec : Eval.Ensures (Eval.program settings) (session.feed text).prepare _ _ :=
    Eval.ensures_program observing rfl
  cases ran : Eval.program settings (session.feed text).prepare with
  | ok value finished =>
      have place := spec.of_ok ran
      have groups : finished.groups = [] := congrArg Place.groups place
      have blocks : finished.scope.blocks = [] := by
        have depth : finished.scope.depth = session.scope.depth := congrArg Place.depth place
        simpa [Scope.depth, topLevel] using depth
      exact (clean_dropText groups blocks).of_untouched (untouched_parse_of_ok observing ran)
  | error failure finished =>
      have clean : finished.unwind.dropText.Clean := clean_dropText rfl rfl
      have caught := (spec.of_error ran).caught catchable
      rcases Option.isSome_iff_exists.mp (finished.isSome_caught? caught) with
        ⟨reported, catches⟩
      exact clean.of_untouched (untouched_parse_of_error observing ran catches)

theorem blocks_perform {settings : Settings σ} (observing : settings.hooks.Observing)
    (catchable : settings.hooks.Catchable) {session : Session σ}
    (topLevel : session.scope.blocks = []) (command : Command) :
    (session.perform settings command).2.scope.blocks = [] := by
  cases command with
  | feed text => exact topLevel
  | parse text => exact (clean_parse observing catchable topLevel text).blocks
  | reset => rfl

/-- Between two uses a session is at the top level. -/
theorem blocks_performAll {settings : Settings σ} (observing : settings.hooks.Observing)
    (catchable : settings.hooks.Catchable) {session : Session σ}
    (topLevel : session.scope.blocks = []) (history : List Command) :
    (session.performAll settings history).scope.blocks = [] := by
  induction history generalizing session with
  | nil => exact topLevel
  | cons command later ih => exact ih (blocks_perform observing catchable topLevel command)

/-- The sessions agree in what an evaluation starts from. -/
structure StartsAs (left right : Session σ) : Prop where
  scope : left.scope = right.scope
  lexer : left.lexer = right.lexer
  source : left.source = right.source
  observer : left.observer = right.observer

namespace StartsAs

variable {left right : Session σ}

theorem feed (same : left.StartsAs right) (text : String) :
    (left.feed text).StartsAs (right.feed text) where
  scope := same.scope
  lexer := congrArg (Lexer.feed · text) same.lexer
  source := congrArg (Source.append · text) same.source
  observer := same.observer

theorem prepare (same : left.StartsAs right) : left.prepare = right.prepare := by
  rcases left with ⟨⟨scope, lexer, source, program⟩, position, groups, log, observer⟩
  rcases right with ⟨⟨scope', lexer', source', program'⟩, position', groups', log', observer'⟩
  rcases same with ⟨rfl, rfl, rfl, rfl⟩
  rfl

theorem perform (same : left.StartsAs right) (settings : Settings σ) (command : Command) :
    (left.perform settings command).1 = (right.perform settings command).1 ∧
      (left.perform settings command).2.StartsAs (right.perform settings command).2 := by
  cases command with
  | feed text =>
      refine ⟨?_, same.feed text⟩
      simp only [Session.perform, same.lexer]
  | parse text =>
      have sameParse : left.parse settings text = right.parse settings text := by
        simp only [parse, (same.feed text).prepare]
      simp only [Session.perform, sameParse]
      exact ⟨trivial, rfl, rfl, rfl, rfl⟩
  | reset => exact ⟨rfl, rfl, rfl, rfl, same.observer⟩

theorem outcomes (same : left.StartsAs right) (settings : Settings σ) (later : List Command) :
    left.outcomes settings later = right.outcomes settings later := by
  induction later generalizing left right with
  | nil => rfl
  | cons command later ih =>
      rcases same.perform settings command with ⟨sameOutcome, sameAfter⟩
      simp only [Session.outcomes, sameOutcome, sameAfter.scope, ih sameAfter]

end StartsAs

/-- A clean session starts as a fresh one with the same bindings at the top level. -/
theorem Clean.startsAs_fresh {session : Session σ} (clean : session.Clean) :
    session.StartsAs { fresh session.observer with scope := { top := session.scope.top } } := by
  refine ⟨?_, clean.lexer_eq, clean.source, rfl⟩
  cases scope : session.scope with
  | mk top blocks =>
      have noBlocks := clean.blocks
      rw [scope] at noBlocks
      simp only at noBlocks
      rw [noBlocks]

/--
After any history, no text waits when an evaluation has ended, whatever handlers that look on raise.
If what they raise while it goes on is caught, it leaves a clean session, whatever they raise at its
end; and whatever the session is used for later, it shows what a fresh session with the same
bindings shows.
-/
theorem parse_ends_clean_and_as_fresh {settings : Settings σ}
    (observing : settings.hooks.Observing) (observer : σ) (history : List Command)
    (text : String) :
    let after := (((fresh observer).performAll settings history).parse settings text).2
    (after.lexer = .fresh ∧ after.source = .empty) ∧
      (settings.hooks.Catchable → after.Clean ∧
        ∀ later : List Command, after.outcomes settings later =
          Session.outcomes settings
            { fresh after.observer with scope := { top := after.scope.top } } later) := by
  intro after
  refine ⟨dropsText_parse observing _ text, fun catchable => ?_⟩
  have clean : after.Clean :=
    clean_parse observing catchable (blocks_performAll observing catchable rfl history) text
  exact ⟨clean, clean.startsAs_fresh.outcomes settings⟩

theorem parse_ends_clean_where_listeners_raise :
    let settings : Settings Unit := { hooks := .raising [.scopeEnter, .onError] (.crash "trap") }
    let after :=
      (((fresh ()).performAll settings [.parse "let a = 1"]).parse settings "\x7b a = 2 \x7d").2
    after.Clean ∧
      ∀ later : List Command, after.outcomes settings later =
        Session.outcomes settings
          { fresh after.observer with scope := { top := after.scope.top } } later :=
  (parse_ends_clean_and_as_fresh
    (Hooks.observing_raising [.scopeEnter, .onError] (.crash "trap")) ()
    [.parse "let a = 1"] "\x7b a = 2 \x7d").2
    (Hooks.catchable_raising [.scopeEnter, .onError] trivial)

/-- A listener that ends the whole program inside a block leaves the block and its bracket open. -/
theorem parse_left_open_by_exit :
    let settings : Settings Unit := { hooks := .raising [.scopeEnter] .exit }
    let after := ((fresh ()).parse settings "\x7b 1 \x7d").2
    settings.hooks.Observing ∧ after.groups.map (·.bracket) = [.curly] ∧
      after.scope.blocks = [.empty] ∧ ¬after.Clean := by
  intro settings after
  have brackets : after.groups.map (·.bracket) = [.curly] := by decide +kernel
  have blocks : after.scope.blocks = [.empty] := by decide +kernel
  refine ⟨Hooks.observing_raising [.scopeEnter] .exit, brackets, blocks, ?_⟩
  intro clean
  rw [clean.blocks] at blocks
  cases blocks

end Session

end BlockCalc
