import BlockCalc.Proofs.Turning

/-!
# Moments of an evaluation

A moment of an evaluation is what the evaluator knows when it is about to read on: what surrounds
the part that is being read, what has been read of the current statement, what is ahead up to the
closer, and the session. `Eval.Reaches` says that reading comes from one moment to another, by
reading over tokens and whole brackets or by going into a bracket. Whatever fails at a moment that
an evaluation comes to makes the evaluation fail.
-/

namespace BlockCalc

variable {σ : Type}

/-- A moment of an evaluation: what is being read, within what, and the session. -/
structure Moment (σ : Type) where
  enclosure : Enclosure
  phase : Phase
  /-- What is read next, up to the closer of the bracket or to the end. -/
  ahead : Forest
  session : Session σ

namespace Eval

/-- Opens a bracket and gives what surrounds its inside and the phase in which that begins. -/
def openBracket (settings : Settings σ) (enclosure : Enclosure) (bracket : Bracket)
    (opener : Token) (phase : Phase) : Eval σ (Enclosure × Phase) := do
  let _ ← beforeBracket settings enclosure opener phase
  let location ← locate settings opener
  advance
  let group ← openGroup settings bracket location
  match bracket with
  | .round => return (.parenthesis group, .operand [] [])
  | .curly => do
      enterBlock settings location
      return (.statements, .statement .void)

/-- Reading comes from one moment to another. -/
inductive Reaches (settings : Settings σ) : Moment σ → Moment σ → Prop where
  | refl (moment : Moment σ) : Reaches settings moment moment
  | past {enclosure : Enclosure} {phase next : Phase} {part rest : Forest}
      {session after : Session σ} {last : Moment σ}
      (ran : read settings enclosure part phase session = .ok next after)
      (further : Reaches settings ⟨enclosure, next, rest, after⟩ last) :
      Reaches settings ⟨enclosure, phase, part.append rest, session⟩ last
  | into {enclosure inside : Enclosure} {bracket : Bracket} {opener : Token}
      {closer : Option Token} {inner rest : Forest} {phase first : Phase}
      {session entered : Session σ} {last : Moment σ}
      (opens : openBracket settings enclosure bracket opener phase session =
        .ok (inside, first) entered)
      (further : Reaches settings ⟨inside, first, inner, entered⟩ last) :
      Reaches settings ⟨enclosure, phase, .nest bracket opener inner closer rest, session⟩ last

/-- Statements end behind an operand, for which these operators wait. -/
def LeavesWaiting (settings : Settings σ) (session : Session σ) (forest : Forest)
    (operators : List BinaryOp) : Prop :=
  (match read settings .statements forest (.statement .void) session with
    | .ok (.operator pending _) _ => pending.map (·.operator) == operators
    | _ => false) = true

instance (settings : Settings σ) (session : Session σ) (forest : Forest)
    (operators : List BinaryOp) : Decidable (LeavesWaiting settings session forest operators) :=
  inferInstanceAs (Decidable (_ = true))

theorem LeavesWaiting.exists_read {settings : Settings σ} {session : Session σ} {forest : Forest}
    {operators : List BinaryOp} (leaves : LeavesWaiting settings session forest operators) :
    ∃ pending term after, read settings .statements forest (.statement .void) session =
        .ok (.operator pending term) after ∧ pending.map (·.operator) = operators := by
  simp only [LeavesWaiting] at leaves
  split at leaves
  · exact ⟨_, _, _, ‹_›, beq_iff_eq.mp leaves⟩
  · cases leaves

section Failures

variable {settings : Settings σ}

/-- What fails inside a bracket, up to its closer, fails outside. -/
theorem read_nest_of_error {enclosure inside : Enclosure} {bracket : Bracket}
    {opener : Token} {closer : Option Token} {inner : Forest} {phase first : Phase}
    {session entered stopped : Session σ} {failure : Failure}
    (opens : openBracket settings enclosure bracket opener phase session =
      .ok (inside, first) entered)
    (failed : contents settings inside first inner closer entered = .error failure stopped)
    (rest : Forest) :
    read settings enclosure (.nest bracket opener inner closer rest) phase session =
      .error failure stopped := by
  rcases exists_of_bind_ok opens with ⟨⟨pending, unary⟩, ready, before, opens⟩
  rcases exists_of_bind_ok opens with ⟨location, _, located, opens⟩
  rcases exists_of_bind_ok opens with ⟨_, _, advanced, opens⟩
  rcases exists_of_bind_ok opens with ⟨group, opened, grouped, opens⟩
  rw [read_nest, bind_of_ok before]
  dsimp only
  rw [bind_of_ok located, bind_of_ok advanced, bind_of_ok grouped]
  apply bind_of_error
  cases bracket with
  | round =>
      cases opens
      exact failed
  | curly =>
      rcases exists_of_bind_ok opens with ⟨_, _, enters, opens⟩
      cases opens
      rw [enclosed, bind_of_ok enters]
      exact bind_of_error failed

/-- What fails at a moment that reading comes to fails from the start. -/
theorem Reaches.error {start last : Moment σ} (reaches : Reaches settings start last)
    {failure : Failure} {stopped : Session σ}
    (failed : read settings last.enclosure last.ahead last.phase last.session =
      .error failure stopped) :
    read settings start.enclosure start.ahead start.phase start.session =
      .error failure stopped := by
  induction reaches with
  | refl moment => exact failed
  | past ran _ ih =>
      rw [read_append, bind_of_ok ran]
      exact ih failed
  | into opens _ ih => exact read_nest_of_error opens (bind_of_error (ih failed)) _

theorem ensures_openBracket_uses (enclosure : Enclosure) (bracket : Bracket) (opener : Token)
    (phase : Phase) (session : Session σ) {allowed : String → Prop} :
    Ensures (openBracket settings enclosure bracket opener phase) session
      (fun opened _ => opened.2.Uses allowed) (fun _ _ => True) := by
  apply (ensures_trivial _ session).bind
  intro _ ready _
  apply (ensures_trivial _ ready).bind
  intro location located _
  apply (ensures_trivial _ located).bind
  intro _ advanced _
  apply (ensures_trivial _ advanced).bind
  intro group opened _
  cases bracket with
  | round => exact Pending.uses_nil
  | curly =>
      apply (ensures_trivial _ opened).bind
      intro _ entered _
      trivial

/-- No variable that is kept unresolved can get lost. -/
theorem Reaches.uses (quiet : settings.hooks = .none) {start last : Moment σ}
    (reaches : Reaches settings start last)
    (uses : start.phase.Uses (Usable (fun _ => True) start.session.scope.names)) :
    last.phase.Uses (Usable (fun _ => True) last.session.scope.names) := by
  induction reaches with
  | refl moment => exact uses
  | past ran _ ih =>
      have remains := (turnsTo_read quiet (fun _ _ _ => trivial) uses).of_ok ran
      exact ih remains.2.uses
  | into opens _ ih => exact ih ((ensures_openBracket_uses _ _ _ _ _).of_ok opens)

end Failures

end Eval

namespace Session

/-- The evaluation of a text, whose brackets match, comes to a moment. -/
def Comes (settings : Settings σ) (session : Session σ) (text : String) (moment : Moment σ) :
    Prop :=
  ∃ forest, Forest.ofTokens (session.feed text).lexer.tokens = .ok forest ∧
    Eval.Reaches settings
      ⟨.statements, .statement .void, forest, (session.feed text).prepare.begun settings⟩ moment

namespace Comes

variable {settings : Settings σ} {session : Session σ} {text : String} {moment : Moment σ}

theorem uses (quiet : settings.hooks = .none) (comes : session.Comes settings text moment) :
    moment.phase.Uses (Usable (fun _ => True) moment.session.scope.names) := by
  rcases comes with ⟨forest, _, reaches⟩
  exact reaches.uses quiet trivial

/-- What fails while an evaluation is at a moment is what the evaluation fails with. -/
theorem parse_of_error (quiet : settings.hooks = .none) (comes : session.Comes settings text moment)
    {failure : Failure} {stopped : Session σ}
    (failed : Eval.read settings moment.enclosure moment.ahead moment.phase moment.session =
      .error failure stopped) :
    session.parse settings text = (.error (stopped.report failure), stopped.unwind.dropText) := by
  rcases comes with ⟨forest, found, reaches⟩
  have prepared : Forest.ofTokens (session.feed text).prepare.program = .ok forest := found
  have failedRead := reaches.error failed
  rw [parse_of_quiet quiet, Eval.program_of_found quiet prepared, Eval.statements,
    Eval.bind_of_error failedRead]

end Comes

end Session

end BlockCalc
