import BlockCalc.Proofs.Brackets
import BlockCalc.Proofs.Deeds
import BlockCalc.Proofs.Literal
import BlockCalc.Proofs.Steady

/-!
# Reading in lockstep with brackets

Reading a part of a program takes an evaluation past exactly the tokens of that part, and leaves the
same brackets and blocks open as before. So a closer finds its own bracket open, and a block that is
left is one that was entered. The one failure of a guard that remains is a decimal literal with more
digits than are converted, and then that literal is the last token that was read.
-/

namespace BlockCalc

variable {σ α β : Type}

namespace Place

/-- The place after the reading of some tokens. -/
def advance (place : Place) (tokens : List Token) : Place :=
  { place with position := place.position + tokens.length }

/-- The tokens are the next ones of the program. -/
def Ahead (place : Place) (tokens : List Token) : Prop :=
  tokens <+: place.program.drop place.position

theorem advance_advance (place : Place) (tokens following : List Token) :
    (place.advance tokens).advance following = place.advance (tokens ++ following) := by
  simp [advance, Nat.add_assoc]

theorem Ahead.advance {place : Place} {tokens following : List Token}
    (ahead : place.Ahead (tokens ++ following)) : (place.advance tokens).Ahead following := by
  rcases ahead with ⟨rest, remaining⟩
  refine ⟨rest, ?_⟩
  have afterTokens := congrArg (List.drop tokens.length) remaining
  simpa [Place.advance, List.append_assoc] using afterTokens

theorem Ahead.of_append {place : Place} {tokens following : List Token}
    (ahead : place.Ahead (tokens ++ following)) : place.Ahead tokens :=
  (List.prefix_append tokens following).trans ahead

theorem Ahead.getElem? {place : Place} {token : Token} {following : List Token}
    (ahead : place.Ahead (token :: following)) :
    place.program[place.position]? = some token := by
  rcases ahead with ⟨rest, remaining⟩
  have first := congrArg List.head? remaining
  simpa using first.symm

end Place

/-- The last token that has been read. -/
def Session.lastRead? (session : Session σ) : Option Token :=
  match session.position with
  | 0 => none
  | index + 1 => session.program[index]?

/--
The failure comes from no guard but the one for literals that are too long, which has stopped at
such a literal of the program; where handlers complain, it may come from them, and then it is caught
if their complaints are.
-/
structure Failure.Accounted (settings : Settings σ) (program : List Token) (failure : Failure)
    (session : Session σ) : Prop where
  overlong : settings.hooks.Silent → failure.cause.IsGuard →
    ∃ token count, failure.cause = .unhandled (.tooManyDigits count) ∧
      session.program = program ∧ session.lastRead? = some token ∧ token.Overlong count
  caught : settings.hooks.Catchable → failure.Caught

/-- The operators of a phase are supplied, and a name that has been declared is no number. -/
def Phase.Sound : Phase → Prop
  | .named name => name.startsWithDigit = false
  | .operand pending _ => Eval.Supplied pending
  | .operator pending _ => Eval.Supplied pending
  | _ => True

theorem Failure.Ordinary.accounted {settings : Settings σ} {failure : Failure}
    (ordinary : failure.Ordinary settings) {program : List Token} {session : Session σ} :
    failure.Accounted settings program session where
  overlong silent guard := absurd guard (ordinary.noGuard silent)
  caught := ordinary.caught

namespace Eval

variable {settings : Settings σ}

theorem Ensures.accounted {action : Eval σ α} {session : Session σ} {program : List Token}
    {returns : α → Session σ → Prop}
    (ensures : Ensures action session returns fun failure _ => failure.Ordinary settings) :
    Ensures action session returns (Failure.Accounted settings program) :=
  ensures.mono (fun _ _ holds => holds) fun _ _ ordinary => ordinary.accounted

theorem steady_declare (observing : settings.hooks.Observing) (name : String)
    (location : Location) : Steady settings (declare settings name location) fun _ => True := by
  intro session
  simp only [declare, ensures_bind, ensures_get, ensures_setScope]
  apply (steady_record observing _ _ _).imp
  rintro _ after ⟨samePlace, _⟩
  exact ⟨by simpa [Session.place] using samePlace, trivial⟩

theorem steady_endExpression (enclosure : Enclosure) :
    Steady settings (endExpression enclosure : Eval σ Unit) fun _ => True := by
  cases enclosure with
  | statements => exact .pure trivial
  | parenthesis group => exact .fail not_false

section Tokens

variable {session : Session σ} {enclosure : Enclosure} {token : Token} {phase : Phase}

theorem supplied_of_awaits {upcoming : Option BinaryOp} {pending : List Pending}
    {unary : List Token} (awaits : phase.Awaits enclosure upcoming pending unary)
    (sound : phase.Sound) : Supplied pending := by
  cases awaits with
  | begins begins => exact supplied_nil
  | operand pending unary => exact sound

theorem supplied_of_offers {upcoming : Option BinaryOp} {pending : List Pending} {term : Term}
    (offers : phase.Offers settings session upcoming pending term) (sound : phase.Sound) :
    Supplied pending := by
  cases offers with
  | operator pending term => exact sound
  | named isTerm => exact supplied_nil
  | block value location follows => exact supplied_nil

/-- A word that is no number is never too long. -/
theorem noGuard_of_noTerm {failure : Failure} (noTerm : token.NoTerm settings session failure)
    (noNumber : token.startsWithDigit = false) : ¬failure.cause.IsGuard := by
  cases noTerm with
  | invalid starts written => exact not_false
  | tooLong starts written => simp [noNumber] at starts
  | keyword noNumber isLet => exact not_false
  | hidden noNumber noLet hidden => exact not_false

theorem Leads.sound {next : Phase} (leads : Leads settings session enclosure token phase next)
    (sound : phase.Sound) : next.Sound := by
  cases leads with
  | ends separator yields inStatements => trivial
  | keyword isLet begins => trivial
  | string awaits string => exact supplied_of_awaits awaits sound
  | word awaits word isTerm => exact supplied_of_awaits awaits sound
  | unary awaits punctuation isUnary => exact supplied_of_awaits awaits sound

theorem noGuard_of_unfinished {next : Option Token} {failure : Failure}
    (unfinished : phase.Unfinished settings session next failure) : ¬failure.cause.IsGuard := by
  cases unfinished <;> exact not_false

/-- A token that has just been read is refused for no guard, unless it is too long. -/
theorem Refuses.accounted {failure : Failure}
    (refuses : Refuses settings session enclosure token phase failure) (sound : phase.Sound)
    (lastRead : session.lastRead? = some token) :
    failure.Accounted settings session.place.program session := by
  cases refuses with
  | word awaits word noKeyword noTerm =>
      cases noTerm with
      | tooLong starts written =>
          refine ⟨fun _ _ => ?_, fun _ => Failure.caught_of_unhandled rfl⟩
          exact ⟨token, _, rfl, rfl, lastRead, token.overlong_of_tooLong word starts written⟩
      | _ =>
          apply Failure.Ordinary.accounted
          exact Failure.ordinary_of_noGuard not_false
  | name noSeparator noTerm =>
      exact (Failure.ordinary_of_noGuard (noGuard_of_noTerm noTerm sound)).accounted
  | unfinished separator unfinished =>
      exact (Failure.ordinary_of_noGuard (noGuard_of_unfinished unfinished)).accounted
  | _ =>
      apply Failure.Ordinary.accounted
      exact Failure.ordinary_of_noGuard not_false

end Tokens

theorem steady_finish (observing : settings.hooks.Observing) (next : Option Token) {phase : Phase}
    (sound : phase.Sound) : Steady settings (finish settings next phase) fun _ => True := by
  intro session
  apply Ensures.finish
  · intro value yields
    exact ⟨rfl, trivial⟩
  · intro failure unfinished
    exact Failure.ordinary_of_noGuard (noGuard_of_unfinished unfinished)
  · rintro pending term rfl
    exact steady_collapse observing sound term session

/-- Where the token has just been read, its failures are accounted for. -/
theorem ensures_readToken_accounted (observing : settings.hooks.Observing) (enclosure : Enclosure)
    {token : Token} {phase : Phase} (sound : phase.Sound) {session : Session σ}
    (lastRead : session.lastRead? = some token) :
    Ensures (readToken settings enclosure token phase) session
      (fun next after => after.place = session.place ∧ next.Sound)
      (Failure.Accounted settings session.place.program) := by
  apply Ensures.readToken
  intro deed does
  cases does with
  | turns leads => exact ⟨rfl, leads.sound sound⟩
  | refuses refuses => exact refuses.accounted sound lastRead
  | pushes offers stands =>
      apply Ensures.accounted
      apply (steady_pushOperator observing _ _ (supplied_of_offers offers sound) _ session).bind
      rintro pushed after ⟨samePlace, supplied⟩
      exact ⟨samePlace, supplied⟩
  | declares keyword identifier =>
      apply Ensures.accounted
      apply (steady_declare observing _ _ session).bind
      rintro _ after ⟨samePlace, _⟩
      exact ⟨samePlace, Token.startsWithDigit_of_isIdentifier identifier⟩
  | concludes separator =>
      apply Ensures.accounted
      have ends : Steady settings (do endExpression enclosure; return Phase.statement .void)
          Phase.Sound := (steady_endExpression enclosure).bind fun _ _ => .pure trivial
      exact ((steady_collapse observing sound _).bind fun _ _ => ends) session

theorem steady_beforeBracket (enclosure : Enclosure) (opener : Token) {phase : Phase}
    (sound : phase.Sound) :
    Steady settings (beforeBracket settings enclosure opener phase)
      fun before => Supplied before.1 := by
  intro session
  apply Ensures.beforeBracket
  · intro pending unary awaits
    exact ⟨rfl, supplied_of_awaits awaits sound⟩
  · intro failure bars
    apply Failure.ordinary_of_noGuard
    cases bars with
    | name noTerm => exact noGuard_of_noTerm noTerm sound
    | _ => exact not_false

theorem steady_afterBracket (bracket : Bracket) {pending : List Pending}
    (supplied : Supplied pending) (unary : List Token) (value : Value) (location : Location) :
    Steady settings (afterBracket settings bracket pending unary value location) Phase.Sound := by
  intro session
  simp only [ensures_afterBracket, Phase.closing]
  split
  · exact ⟨trivial, trivial⟩
  · exact ⟨trivial, supplied⟩

/-- A group that has been opened is the innermost one. -/
theorem ensures_openGroup (bracket : Bracket) (location : Location) (session : Session σ) :
    Ensures (openGroup settings bracket location) session
      (fun group after =>
        after.place = { session.place with groups := group :: session.place.groups })
      (fun failure _ => failure.Ordinary settings) := by
  simp only [openGroup, ensures_bind, ensures_get]
  split
  · exact Failure.ordinary_of_noGuard not_false
  · rfl

theorem ensures_closeGroup (closer : Option Token) {session : Session σ} {group : Group}
    {outer : List Group} (opened : session.place.groups = group :: outer) :
    Ensures (closeGroup closer) session
      (fun _ after => after.place = { session.place.advance closer.toList with groups := outer })
      (fun failure _ => failure.Ordinary settings) := by
  simp only [closeGroup, ensures_bind, ensures_get]
  split
  · rename_i noGroup
    simp [Session.place, noGroup] at opened
  · rename_i innermost others groups
    simp only [Session.place, groups, List.cons.injEq] at opened
    split
    · rename_i closes
      rcases Option.bind_eq_some_iff.mp closes with ⟨token, rfl, _⟩
      simp [Session.place, Place.advance, opened]
    · exact Failure.ordinary_of_noGuard not_false

theorem ensures_enterBlock (observing : settings.hooks.Observing) (location : Location)
    (session : Session σ) :
    Ensures (enterBlock settings location) session
      (fun _ after => after.place = { session.place with depth := session.place.depth + 1 })
      (fun failure _ => failure.Ordinary settings) := by
  have steps : Steady settings (do
      record settings (.enterScope (← get).scope.depth) (some location)
      emit settings (.scopeEnter (← get).scope.depth)) fun _ => True := by
    apply Steady.get_bind
    intro entered
    apply (steady_record observing _ _).bind
    intro _ _
    apply Steady.get_bind
    intro recorded
    exact (watches_emit observing).steady
  simp only [enterBlock]
  rw [ensures_bind, ensures_modify]
  apply (steps _).imp
  rintro _ after ⟨samePlace, _⟩
  simpa [Session.place] using samePlace

/-- A block that is open can be left. -/
theorem ensures_exitBlock (observing : settings.hooks.Observing) (location : Location)
    {session : Session σ} (entered : 0 < session.place.depth) :
    Ensures (exitBlock settings location) session
      (fun _ after => after.place = { session.place with depth := session.place.depth - 1 })
      (fun failure _ => failure.Ordinary settings) := by
  rcases Scope.exists_exit_of_depth_pos entered with ⟨frame, outer, left, outerDepth⟩
  have steps : Steady settings (do
      record settings (.exitScope session.scope.depth (Text.sortNames frame.names)) (some location)
      emit settings (.scopeExit session.scope.depth (Text.sortNames frame.names)))
      fun _ => True := by
    apply (steady_record observing _ _).bind
    intro _ _
    exact (watches_emit observing).steady
  rw [exitBlock_eq observing]
  simp only [ensures_bind, ensures_get, left, ensures_ofExcept_ok, ensures_setScope]
  rw [← ensures_bind]
  apply (steps _).imp
  rintro _ after ⟨samePlace, _⟩
  simp only [Session.place] at samePlace ⊢
  simp only [samePlace, Place.mk.injEq, true_and]
  omega

/--
Wherever a forest is next in the program, reading it takes an evaluation past its tokens and leaves
the same brackets and blocks open.
-/
def Advances (settings : Settings σ) (forest : Forest) : Prop :=
  ∀ enclosure phase session, phase.Sound → session.place.Ahead forest.tokens →
    Ensures (read settings enclosure forest phase) session
      (fun result after => after.place = session.place.advance forest.tokens ∧ result.Sound)
      (Failure.Accounted settings session.place.program)

theorem Advances.contents {inner : Forest} (advances : Advances settings inner)
    (observing : settings.hooks.Observing) (enclosure : Enclosure) {phase : Phase}
    (closer : Option Token) {session : Session σ} {group : Group} {outer : List Group}
    (sound : phase.Sound)
    (opened : session.place.groups = group :: outer) (ahead : session.place.Ahead inner.tokens) :
    Ensures (contents settings enclosure phase inner closer) session
      (fun _ after => after.place =
        { session.place.advance (inner.tokens ++ closer.toList) with groups := outer })
      (Failure.Accounted settings session.place.program) := by
  apply (advances enclosure phase session sound ahead).bind
  rintro last middle ⟨middlePlace, lastSound⟩
  apply (steady_finish observing closer lastSound middle).accounted.bind
  rintro value finished ⟨finishedPlace, _⟩
  have place := finishedPlace.trans middlePlace
  have stillOpen : finished.place.groups = group :: outer := by
    rw [place]
    exact opened
  apply (ensures_closeGroup closer stillOpen).accounted.bind
  intro _ after closed
  simp [closed, place, Place.advance, Nat.add_assoc]

/-- A bracket that has been opened is closed again behind what stands in it. -/
theorem Advances.enclosed {inner : Forest} (advances : Advances settings inner)
    (observing : settings.hooks.Observing) (location : Location) (closer : Option Token)
    (bracket : Bracket) {session : Session σ} {group : Group} {outer : List Group}
    (opened : session.place.groups = group :: outer) (ahead : session.place.Ahead inner.tokens) :
    Ensures (enclosed settings location group inner closer bracket) session
      (fun _ after => after.place =
        { session.place.advance (inner.tokens ++ closer.toList) with groups := outer })
      (Failure.Accounted settings session.place.program) := by
  cases bracket with
  | round => exact advances.contents observing _ closer supplied_nil opened ahead
  | curly =>
      apply (ensures_enterBlock observing location session).accounted.bind
      intro _ entered enteredPlace
      have stillOpen : entered.place.groups = group :: outer := by
        rw [enteredPlace]
        exact opened
      have insideAhead : entered.place.Ahead inner.tokens := by
        rw [enteredPlace]
        exact ahead
      have sound : (Phase.statement .void).Sound := trivial
      have sameProgram : entered.place.program = session.place.program := by rw [enteredPlace]
      rw [← sameProgram]
      apply (advances.contents observing .statements closer sound stillOpen insideAhead).bind
      intro value closed closedPlace
      rw [enteredPlace] at closedPlace
      have blockOpen : 0 < closed.place.depth := by simp [closedPlace, Place.advance]
      apply (ensures_exitBlock observing location blockOpen).accounted.bind
      intro _ after left
      simp [left, closedPlace, Place.advance]

theorem advances_leaf {token : Token} {rest : Forest} (observing : settings.hooks.Observing)
    (advances : Advances settings rest) : Advances settings (.leaf token rest) := by
  intro enclosure phase session sound ahead
  rw [read_leaf, ensures_bind, ensures_advance]
  have lastRead : Session.lastRead? { session with position := session.position + 1 } =
      some token :=
    ahead.getElem?
  apply (ensures_readToken_accounted observing enclosure sound lastRead).bind
  rintro next middle ⟨middlePlace, nextSound⟩
  have place : middle.place = session.place.advance [token] := middlePlace
  have restAhead : middle.place.Ahead rest.tokens := by
    rw [place]
    exact Place.Ahead.advance ahead
  have sameProgram : middle.place.program = session.place.program := by
    rw [place]
    rfl
  change Ensures _ _ _ (Failure.Accounted settings session.place.program)
  rw [← sameProgram]
  apply (advances enclosure next middle nextSound restAhead).imp
  rintro result after ⟨afterPlace, resultSound⟩
  refine ⟨?_, resultSound⟩
  rw [afterPlace, place, Place.advance_advance]
  rfl

theorem advances_nest {bracket : Bracket} {opener : Token} {closer : Option Token}
    {inner rest : Forest}
    (observing : settings.hooks.Observing) (advancesInner : Advances settings inner)
    (advancesRest : Advances settings rest) :
    Advances settings (.nest bracket opener inner closer rest) := by
  intro enclosure phase session sound ahead
  have split : Forest.tokens (.nest bracket opener inner closer rest) =
      [opener] ++ ((inner.tokens ++ closer.toList) ++ rest.tokens) := by
    simp [Forest.tokens]
  rw [split] at ahead ⊢
  rw [read_nest]
  apply (steady_beforeBracket enclosure opener sound session).accounted.bind
  rintro ⟨pending, unary⟩ before ⟨beforePlace, supplied⟩
  rw [ensures_bind, ensures_locate, ensures_bind, ensures_advance]
  apply (ensures_openGroup bracket _ _).accounted.bind
  intro group opened openedPlace
  have place : opened.place =
      { session.place.advance [opener] with groups := group :: session.place.groups } := by
    rw [openedPlace, ← beforePlace]
    rfl
  have insideAhead : opened.place.Ahead inner.tokens := by
    rw [place]
    exact ahead.advance.of_append.of_append
  have openedProgram : opened.place.program = session.place.program := by
    rw [place]
    rfl
  rw [← openedProgram]
  apply (advancesInner.enclosed observing _ closer bracket (by rw [place]) insideAhead).bind
  intro value closed closedPlace
  apply (steady_afterBracket bracket supplied unary value _ closed).accounted.bind
  rintro next middle ⟨middlePlace, nextSound⟩
  have restPlace : middle.place =
      (session.place.advance [opener]).advance (inner.tokens ++ closer.toList) := by
    rw [middlePlace, closedPlace, place]
    rfl
  have restAhead : middle.place.Ahead rest.tokens := by
    rw [restPlace]
    exact ahead.advance.advance
  have restProgram : middle.place.program = opened.place.program := by
    rw [restPlace, openedProgram]
    rfl
  rw [← restProgram]
  apply (advancesRest enclosure next middle nextSound restAhead).imp
  rintro result after ⟨afterPlace, resultSound⟩
  refine ⟨?_, resultSound⟩
  rw [afterPlace, restPlace, Place.advance_advance, Place.advance_advance, List.append_assoc]

/-- Every part of a program is read past its last token, whatever brackets it holds. -/
theorem advances (observing : settings.hooks.Observing) (forest : Forest) :
    Advances settings forest := by
  induction forest with
  | nil =>
      intro enclosure phase session sound _
      exact ⟨rfl, sound⟩
  | leaf token rest ih => exact advances_leaf observing ih
  | nest bracket opener inner closer rest ihInner ihRest =>
      exact advances_nest observing ihInner ihRest

theorem ensures_statements (observing : settings.hooks.Observing) {forest : Forest}
    {session : Session σ} (ahead : session.place.Ahead forest.tokens) :
    Ensures (statements settings forest) session
      (fun _ after => after.place = session.place.advance forest.tokens)
      (Failure.Accounted settings session.place.program) := by
  apply (advances observing forest .statements (.statement .void) session trivial ahead).bind
  rintro phase middle ⟨middlePlace, sound⟩
  apply (steady_finish observing none sound middle).accounted.imp
  rintro value after ⟨afterPlace, _⟩
  exact afterPlace.trans middlePlace

/-- An evaluation that succeeds has read the whole program. -/
theorem ensures_program (observing : settings.hooks.Observing) {session : Session σ}
    (start : session.place.position = 0) :
    Ensures (program settings) session
      (fun _ after => after.place = session.place.advance session.place.program)
      (Failure.Accounted settings session.place.program) := by
  apply ((watches_emit observing).steady session).accounted.bind
  rintro _ told ⟨toldPlace, _⟩
  rw [ensures_bind, ensures_get]
  apply (steady_record observing _ _ told).accounted.bind
  rintro _ recorded ⟨recordedPlace, _⟩
  have place := recordedPlace.trans toldPlace
  rw [ensures_bind, ensures_get, evaluate_eq]
  split
  · rename_i forest found
    have written : forest.tokens = recorded.place.program :=
      (Forest.ofTokens_eq_ok_iff.mp found).2
    have ahead : recorded.place.Ahead forest.tokens := by
      simp only [written, place, Place.Ahead, start, List.drop_zero, List.prefix_rfl]
    have spec := ensures_statements observing ahead
    rw [written, place] at spec
    exact spec
  · apply Failure.Ordinary.accounted
    exact Failure.ordinary_of_noGuard not_false

end Eval

end BlockCalc
