import BlockCalc.Proofs.Deeds
import BlockCalc.Proofs.Literal
import BlockCalc.Proofs.Reading
import BlockCalc.Proofs.Resolution

/-!
# What reading makes of the scope

Reading a part of a program turns the scope by exactly the declarations that the part makes outside
its brackets: a block leaves its declarations behind, and an expression in round brackets can make
none. All variables that are used on the way are words of the part or of the phase before it. An
operand is a variable only if it is bound, and stays so, because no name is lost.
-/

namespace BlockCalc

variable {σ α β : Type}

/-- The names that a part of a program declares outside its brackets, where it may follow `let`. -/
def Forest.declared (naming : Bool) : Forest → List String
  | .nil => []
  | .leaf token rest => (if naming then [token.text] else []) ++ rest.declared token.isLet
  | .nest _ _ _ _ rest => rest.declared false

/-- A declaration still lacks its name. -/
def Phase.isNaming : Phase → Bool
  | .naming _ => true
  | _ => false

/-- An expression is being read that has begun with something else than a name to declare. -/
def Phase.InExpression : Phase → Prop
  | .operand _ _ | .operator _ _ | .block _ _ => True
  | _ => False

theorem Phase.InExpression.isNaming_eq {phase : Phase} (inside : phase.InExpression) :
    phase.isNaming = false := by
  cases phase <;> first | rfl | exact inside.elim

namespace Eval

/-- The action turns the scope by some declarations, or breaks off somewhere on that way. -/
def TurnsTo (named : String → Prop) (declared : List String) (action : Eval σ α)
    (session : Session σ) (results : α → Scope → Prop) : Prop :=
  Ensures action session
    (fun result after =>
      session.scope.Turns named declared after.scope ∧ results result after.scope)
    (fun _ stopped => session.scope.Breaks named stopped.scope)

namespace TurnsTo

variable {named : String → Prop} {declared : List String} {action : Eval σ α} {session : Session σ}
  {results : α → Scope → Prop}

theorem pure {result : α} (holds : results result session.scope) :
    TurnsTo named [] (Pure.pure result) session results :=
  ⟨.refl session.scope, holds⟩

theorem fail (cause : Cause) (location : Option Location) :
    TurnsTo named declared (Eval.fail cause location) session results :=
  .here (.refl session.scope)

theorem bind {more : List String} {next : α → Eval σ β} {finally_ : β → Scope → Prop}
    (start : TurnsTo named declared action session results)
    (continues : ∀ result after, session.scope.Turns named declared after.scope →
      results result after.scope → TurnsTo named more (next result) after finally_) :
    TurnsTo named (declared ++ more) (action >>= next) session finally_ := by
  rw [TurnsTo, ensures_bind]
  apply start.imp
  rintro result after ⟨turns, holds⟩
  apply (continues result after turns holds).mono
  · rintro last finished ⟨laterTurns, lastHolds⟩
    exact ⟨turns.trans laterTurns, lastHolds⟩
  · intro failure stopped breaks
    exact turns.breaks breaks

/-- An action that declares nothing leaves all declarations to the rest. -/
theorem bind_of_still {next : α → Eval σ β} {finally_ : β → Scope → Prop}
    (start : TurnsTo named [] action session results)
    (continues : ∀ result after, session.scope.Turns named [] after.scope →
      results result after.scope → TurnsTo named declared (next result) after finally_) :
    TurnsTo named declared (action >>= next) session finally_ :=
  start.bind continues

theorem locate_bind {settings : Settings σ} {token : Token} {next : Location → Eval σ α}
    (turnsTo : ∀ location, TurnsTo named declared (next location) session results) :
    TurnsTo named declared (Eval.locate settings token >>= next) session results :=
  turnsTo _

theorem get_bind {next : Session σ → Eval σ α}
    (turnsTo : TurnsTo named declared (next session) session results) :
    TurnsTo named declared (get >>= next) session results :=
  turnsTo

theorem advance_bind {next : Unit → Eval σ α}
    (turnsTo : ∀ after : Session σ, after.scope = session.scope →
      TurnsTo named declared (next ()) after results) :
    TurnsTo named declared (Eval.advance >>= next) session results :=
  turnsTo { session with position := session.position + 1 } rfl

theorem imp {weaker : α → Scope → Prop} (turnsTo : TurnsTo named declared action session results)
    (onResult : ∀ result scope, results result scope → weaker result scope) :
    TurnsTo named declared action session weaker :=
  Ensures.imp turnsTo fun result after ⟨turns, holds⟩ => ⟨turns, onResult result after.scope holds⟩

theorem and {holds : α → Prop} (turnsTo : TurnsTo named declared action session results)
    (ensures : Ensures action session (fun result _ => holds result) (fun _ _ => True)) :
    TurnsTo named declared action session fun result scope =>
      results result scope ∧ holds result := by
  simp only [TurnsTo, Ensures] at turnsTo ensures ⊢
  cases ran : action session with
  | ok result after =>
      simp only [ran] at turnsTo ensures
      exact ⟨turnsTo.1, turnsTo.2, ensures⟩
  | error failure stopped =>
      simp only [ran] at turnsTo
      exact turnsTo

/-- Which declarations there are may be known only where the action gives a result. -/
theorem of_declared {others : List String}
    (turnsTo : TurnsTo named declared action session results)
    (same : ∀ result scope, results result scope → declared = others) :
    TurnsTo named others action session results := by
  apply Ensures.imp turnsTo
  rintro result after ⟨turns, holds⟩
  exact ⟨same result after.scope holds ▸ turns, holds⟩

theorem of_actsAs {other : Eval σ α} (actsAs : ActsAs named session.scope.names action other) :
    TurnsTo named [] action session fun _ _ => True := by
  apply (actsAs session rfl).mono
  · rintro result after ⟨_, turns⟩
    exact ⟨turns, trivial⟩
  · rintro failure stopped ⟨_, turns, _⟩
    exact .here turns

end TurnsTo

section Reading

variable {named : String → Prop} {settings : Settings σ} {session : Session σ}

theorem uses_of_isTerm {token : Token} {term : Term} (isTerm : token.IsTerm settings session term)
    {allowed : String → Prop} (isAllowed : allowed token.text) :
    term.Uses (Usable allowed session.scope.names) := by
  cases isTerm with
  | number starts written => trivial
  | «variable» noNumber noLet visible => exact ⟨isAllowed, Scope.has_iff_exists_home.mp visible⟩

theorem uses_wrapped (site : Token → Location) (unary : List Token) {term : Term}
    {allowed : String → Prop} (uses : term.Uses allowed) :
    (term.wrapped site unary).Uses allowed := by
  induction unary generalizing term with
  | nil => exact uses
  | cons token outer ih =>
      simp only [Term.wrapped]
      split
      · exact ih uses
      · exact ih uses

theorem turnsTo_endExpression (enclosure : Enclosure) :
    TurnsTo named [] (endExpression enclosure) session fun _ _ => enclosure = .statements := by
  cases enclosure with
  | statements => exact .pure rfl
  | parenthesis group => exact .fail _ _

theorem ensures_pushOperator_uses (operator : BinaryOp) (location : Location)
    {allowed : String → Prop} {pending : List Pending} (usesPending : Pending.Uses allowed pending)
    {term : Term} (uses : term.Uses allowed) (session : Session σ) :
    Ensures (pushOperator settings operator location pending term) session
      (fun pushed _ => Pending.Uses allowed pushed) (fun _ _ => True) := by
  induction pending generalizing term session with
  | nil => simpa [pushOperator, Pending.Uses] using uses
  | cons top outer ih =>
      have usesTop := Pending.uses_cons.mp usesPending
      simp only [pushOperator]
      split
      · exact Pending.uses_cons.mpr ⟨Pending.uses_push usesTop.1 uses, usesTop.2⟩
      · split
        · apply (ensures_trivial _ session).bind
          intro value after _
          have usesValue : (Term.value value top.location).Uses allowed := trivial
          exact ih usesTop.2 usesValue after
        · exact Pending.uses_cons.mpr ⟨by simpa using uses, usesPending⟩

/-- What a phase is like behind a token. -/
structure Follows (named : String → Prop) (enclosure : Enclosure) (phase : Phase) (token : Token)
    (next : Phase) (scope : Scope) : Prop where
  uses : next.Uses (Usable named scope.names)
  isNaming : next.isNaming = token.isLet
  inside : enclosure ≠ .statements → phase.InExpression → next.InExpression

section Tokens

variable {enclosure : Enclosure} {token : Token} {phase : Phase} {pending : List Pending}

theorem isNaming_of_awaits {upcoming : Option BinaryOp} {unary : List Token}
    (awaits : phase.Awaits enclosure upcoming pending unary) : phase.isNaming = false := by
  cases awaits with
  | begins begins => cases begins <;> rfl
  | operand pending unary => rfl

theorem uses_of_awaits {upcoming : Option BinaryOp} {unary : List Token}
    (awaits : phase.Awaits enclosure upcoming pending unary) {allowed : String → Prop}
    (uses : phase.Uses allowed) : Pending.Uses allowed pending := by
  cases awaits with
  | begins begins => exact Pending.uses_nil
  | operand pending unary => exact uses

theorem uses_of_offers {upcoming : Option BinaryOp} {term : Term}
    (offers : phase.Offers settings session upcoming pending term)
    (uses : phase.Uses (Usable named session.scope.names)) :
    phase.isNaming = false ∧ Pending.Uses (Usable named session.scope.names) pending ∧
      term.Uses (Usable named session.scope.names) := by
  cases offers with
  | operator pending term => exact ⟨rfl, uses⟩
  | named isTerm => exact ⟨rfl, Pending.uses_nil, uses_of_isTerm isTerm uses.1⟩
  | block value location follows => exact ⟨rfl, Pending.uses_nil, trivial⟩

theorem Leads.isNaming_eq_false {next : Phase}
    (leads : Leads settings session enclosure token phase next) : phase.isNaming = false := by
  cases leads with
  | ends separator yields inStatements => cases yields <;> rfl
  | keyword isLet begins => cases begins <;> rfl
  | string awaits string => exact isNaming_of_awaits awaits
  | word awaits word isTerm => exact isNaming_of_awaits awaits
  | unary awaits punctuation isUnary => exact isNaming_of_awaits awaits

theorem Leads.follows {next : Phase} (leads : Leads settings session enclosure token phase next)
    (word : token.kind = .word → named token.text)
    (uses : phase.Uses (Usable named session.scope.names)) :
    Follows named enclosure phase token next session.scope := by
  cases leads with
  | ends separator yields inStatements =>
      have noLet : token.isLet = false :=
        Token.isLet_eq_false_of_kind (by simp [Token.kind_of_isSeparator separator])
      exact ⟨trivial, noLet.symm, fun inside => absurd inStatements inside⟩
  | keyword isLet begins =>
      refine ⟨trivial, isLet.symm, fun inside inExpression => ?_⟩
      cases begins with
      | first last => exact inExpression.elim
      | next value location inStatements noOperator => exact absurd inStatements inside
  | string awaits string =>
      have noLet : token.isLet = false := Token.isLet_eq_false_of_kind (by simp [string])
      exact ⟨⟨uses_of_awaits awaits uses, uses_wrapped _ _ trivial⟩, noLet.symm,
        fun _ _ => trivial⟩
  | word awaits isWord isTerm =>
      have usesTerm := uses_of_isTerm isTerm (word isWord)
      exact ⟨⟨uses_of_awaits awaits uses, uses_wrapped _ _ usesTerm⟩,
        isTerm.isLet_eq_false.symm, fun _ _ => trivial⟩
  | unary awaits punctuation isUnary =>
      have noLet : token.isLet = false := Token.isLet_eq_false_of_kind (by simp [punctuation])
      exact ⟨uses_of_awaits awaits uses, noLet.symm, fun _ _ => trivial⟩

end Tokens

theorem turnsTo_beforeBracket (enclosure : Enclosure) (opener : Token) {phase : Phase}
    {allowed : String → Prop} (uses : phase.Uses allowed) :
    TurnsTo named [] (beforeBracket settings enclosure opener phase) session fun before _ =>
      Pending.Uses allowed before.1 := by
  apply Ensures.beforeBracket
  · intro pending unary awaits
    exact ⟨.refl session.scope, uses_of_awaits awaits uses⟩
  · intro failure _
    exact .here (.refl session.scope)

theorem turnsTo_afterBracket (bracket : Bracket) {pending : List Pending}
    {allowed : String → Prop} (usesPending : Pending.Uses allowed pending) (unary : List Token)
    (value : Value) (location : Location) :
    TurnsTo named [] (afterBracket settings bracket pending unary value location) session
      fun next _ => next.Uses allowed ∧ next.InExpression := by
  rw [TurnsTo, ensures_afterBracket]
  refine ⟨.refl session.scope, ?_⟩
  simp only [Phase.closing]
  split
  · exact ⟨trivial, trivial⟩
  · exact ⟨⟨usesPending, uses_wrapped _ unary trivial⟩, trivial⟩

theorem turnsTo_openGroup (bracket : Bracket) (location : Location) :
    TurnsTo named [] (openGroup settings bracket location) session fun _ _ => True := by
  apply TurnsTo.get_bind
  split
  · exact .fail _ _
  · exact ⟨.refl session.scope, trivial⟩

theorem turnsTo_closeGroup (closer : Option Token) :
    TurnsTo named [] (closeGroup closer : Eval σ Unit) session fun _ _ => True := by
  apply TurnsTo.get_bind
  split
  · exact .fail _ _
  · split
    · exact ⟨.refl session.scope, trivial⟩
    · exact .fail _ _

section Quiet

variable (quiet : settings.hooks = .none)

include quiet

/-- A name can only be declared in the innermost frame. -/
theorem ensures_declare_scope (name : String) (location : Location) (session : Session σ) :
    Ensures (declare settings name location) session
      (fun _ after => after.scope = session.scope.declare name) (fun _ _ => False) := by
  simp only [declare, ensures_bind, ensures_get, ensures_setScope]
  apply (ensures_record quiet _ _ _).imp
  intro _ after alike
  exact alike.scope.symm

theorem turnsTo_finish (next : Option Token) {phase : Phase}
    (uses : phase.Uses (Usable named session.scope.names)) :
    TurnsTo named [] (finish settings next phase) session fun _ _ => phase.isNaming = false := by
  apply Ensures.finish
  · intro value yields
    exact ⟨.refl session.scope, by cases yields <;> rfl⟩
  · intro failure _
    exact .here (.refl session.scope)
  · rintro pending term rfl
    exact (TurnsTo.of_actsAs (collapse_actsAs quiet uses.1 uses.2)).imp fun _ _ _ => rfl

theorem turnsTo_pushOperator (operator : BinaryOp) (location : Location) {pending : List Pending}
    (usesPending : Pending.Uses (Usable named session.scope.names) pending) {term : Term}
    (uses : term.Uses (Usable named session.scope.names)) :
    TurnsTo named [] (pushOperator settings operator location pending term) session
      fun pushed _ => Pending.Uses (Usable named session.scope.names) pushed := by
  have pushes := pushOperator_actsAs quiet operator location usesPending uses
  apply ((TurnsTo.of_actsAs pushes).and
    (ensures_pushOperator_uses operator location usesPending uses session)).imp
  exact fun _ _ both => both.2

theorem turnsTo_readToken (enclosure : Enclosure) {token : Token}
    (word : token.kind = .word → named token.text) {phase : Phase}
    (uses : phase.Uses (Usable named session.scope.names)) :
    TurnsTo named (if phase.isNaming then [token.text] else [])
      (readToken settings enclosure token phase) session (Follows named enclosure phase token) := by
  apply Ensures.readToken
  intro deed does
  cases does with
  | turns leads =>
      rw [leads.isNaming_eq_false]
      exact ⟨.refl session.scope, leads.follows word uses⟩
  | refuses _ => exact .here (.refl session.scope)
  | pushes offers stands =>
      rcases uses_of_offers offers uses with ⟨noNaming, usesPending, usesTerm⟩
      have noLet : token.isLet = false :=
        Token.isLet_eq_false_of_kind (by simp [Token.kind_of_binary? stands])
      rw [noNaming]
      apply (turnsTo_pushOperator quiet _ _ usesPending usesTerm).bind_of_still
      intro pushed after turns usesPushed
      exact .pure ⟨usesPushed.mono fun _ => turns.usable, noLet.symm, fun _ _ => trivial⟩
  | declares keyword identifier =>
      have isNamed : named token.text := word (Token.kind_of_isIdentifier identifier)
      have bound := session.scope.has_declare token.text
      apply (ensures_declare_scope quiet token.text _ session).of_infallible.bind
      intro _ after declares
      refine ⟨declares ▸ .declare isNamed (.refl _), ?_⟩
      rw [declares]
      exact ⟨⟨isNamed, Scope.has_iff_exists_home.mp bound⟩,
        (Token.isLet_eq_false_of_isIdentifier identifier).symm,
        fun _ impossible => impossible.elim⟩
  | concludes separator =>
      have noLet : token.isLet = false :=
        Token.isLet_eq_false_of_kind (by simp [Token.kind_of_isSeparator separator])
      apply (TurnsTo.of_actsAs (collapse_actsAs quiet uses.1 uses.2)).bind_of_still
      intro _ finished _ _
      apply (turnsTo_endExpression enclosure).bind_of_still
      rintro _ after _ rfl
      exact .pure ⟨trivial, noLet.symm, fun inside => absurd rfl inside⟩

theorem ensures_enterBlock_scope (location : Location) (session : Session σ) :
    Ensures (enterBlock settings location) session
      (fun _ after => after.scope = session.scope.enter) (fun _ _ => False) := by
  simp only [enterBlock_eq, emit_of_quiet quiet, ensures_bind, ensures_get, ensures_setScope]
  apply (ensures_record quiet _ _ _).imp
  intro _ after alike
  exact alike.scope.symm

theorem ensures_exitBlock_scope (location : Location) (session : Session σ) :
    Ensures (exitBlock settings location) session
      (fun _ after => ∃ frame, session.scope.exit = .ok (frame, after.scope))
      (fun _ stopped => stopped = session) := by
  simp only [exitBlock_of_quiet quiet, ensures_bind, ensures_get]
  cases left : session.scope.exit with
  | error cause => rfl
  | ok leaves =>
      simp only [ensures_ofExcept_ok, ensures_setScope]
      apply (ensures_record quiet _ _ _).of_infallible.imp
      intro _ after alike
      exact ⟨leaves.1, by rw [← alike.scope]⟩

/--
What a phase is like behind a part of a program. In round brackets an expression goes on to the
closer, and declares nothing.
-/
structure Remains (named : String → Prop) (enclosure : Enclosure) (forest : Forest)
    (phase next : Phase) (scope : Scope) : Prop where
  uses : next.Uses (Usable named scope.names)
  inside : enclosure ≠ .statements → phase.InExpression →
    next.InExpression ∧ forest.declared false = []

theorem turnsTo_contents {declared : List String} {enclosure : Enclosure} {phase : Phase}
    {inner : Forest} (turnsTo : TurnsTo named declared (read settings enclosure inner phase) session
      (Remains named enclosure inner phase)) (closer : Option Token) :
    TurnsTo named declared (contents settings enclosure phase inner closer) session
      fun _ _ => True := by
  rw [← List.append_nil declared]
  apply turnsTo.bind
  intro next after _ remains
  apply (turnsTo_finish quiet closer remains.uses).bind_of_still
  intro value finished _ _
  apply (turnsTo_closeGroup closer).bind_of_still
  intro _ closed _ _
  exact .pure trivial

/-- What an action in a block does to the scope does not show outside, save for assignments. -/
theorem turnsTo_block {declared : List String} {body : Eval σ α} (location : Location)
    (turnsTo : ∀ entered : Session σ, entered.scope = session.scope.enter →
      TurnsTo named declared body entered fun _ _ => True) :
    TurnsTo named [] (do
      enterBlock settings location
      let result ← body
      exitBlock settings location
      return result) session fun _ _ => True := by
  apply (ensures_enterBlock_scope quiet location session).of_infallible.bind
  intro _ entered sameScope
  rw [ensures_bind]
  apply (turnsTo entered sameScope).mono
  · rintro result last ⟨within, _⟩
    rw [sameScope] at within
    rw [ensures_bind]
    apply (ensures_exitBlock_scope quiet location last).mono
    · rintro _ after ⟨frame, left⟩
      exact ⟨.block within left (.refl _), trivial⟩
    · rintro failure _ rfl
      exact .inside (.refl session.scope) (.here within)
  · intro failure stopped breaks
    rw [sameScope] at breaks
    exact .inside (.refl session.scope) breaks

/-- Reading turns the scope by the declarations that a part makes outside its brackets. -/
theorem turnsTo_read {forest : Forest}
    (words : ∀ token ∈ forest.tokens, token.kind = .word → named token.text)
    {enclosure : Enclosure} {phase : Phase} (uses : phase.Uses (Usable named session.scope.names)) :
    TurnsTo named (forest.declared phase.isNaming) (read settings enclosure forest phase) session
      (Remains named enclosure forest phase) := by
  induction forest generalizing enclosure phase session with
  | nil => exact .pure ⟨uses, fun _ inside => ⟨inside, rfl⟩⟩
  | leaf token rest ih =>
      simp only [Forest.tokens, List.forall_mem_cons] at words
      rw [read_leaf, Forest.declared]
      apply TurnsTo.advance_bind
      intro advanced sameScope
      rw [← sameScope] at uses
      apply (turnsTo_readToken quiet enclosure words.1 uses).bind
      intro next after _ follows
      rw [← follows.isNaming]
      apply (ih words.2 follows.uses).imp
      intro last scope remains
      refine ⟨remains.uses, fun noStatements inside => ?_⟩
      have nextInside := follows.inside noStatements inside
      have restRemains := remains.inside noStatements nextInside
      refine ⟨restRemains.1, ?_⟩
      rw [Forest.declared, ← follows.isNaming, nextInside.isNaming_eq, restRemains.2]
      rfl
  | nest bracket opener inner closer rest ihInner ih =>
      simp only [Forest.tokens, List.forall_mem_cons, List.forall_mem_append] at words
      rw [read_nest, Forest.declared]
      apply (turnsTo_beforeBracket enclosure opener uses).bind_of_still
      rintro ⟨pending, unary⟩ before beforeTurns usesPending
      apply TurnsTo.locate_bind
      intro location
      apply TurnsTo.advance_bind
      intro advanced sameScope
      rw [← sameScope] at beforeTurns
      apply (turnsTo_openGroup bracket location).bind_of_still
      intro group opened openedTurns _
      -- What a block declares goes with its frame, and round brackets hold no declaration.
      have enclosedTurns : TurnsTo named []
          (enclosed settings location group inner closer bracket) opened fun _ _ => True := by
        cases bracket with
        | round =>
            apply turnsTo_contents quiet
            have usesNone : (Phase.operand [] []).Uses (Usable named opened.scope.names) :=
              Pending.uses_nil
            apply (ihInner words.2.1 usesNone).of_declared
            intro next scope remains
            exact (remains.inside (by simp) trivial).2
        | curly =>
            apply turnsTo_block quiet location
            intro entered _
            have usesNone : (Phase.statement .void).Uses (Usable named entered.scope.names) :=
              trivial
            exact turnsTo_contents quiet (ihInner words.2.1 usesNone) closer
      apply enclosedTurns.bind_of_still
      intro value left leftTurns _
      have throughout := (beforeTurns.trans openedTurns).trans leftTurns
      apply (turnsTo_afterBracket bracket usesPending unary value location).bind_of_still
      rintro next after afterTurns ⟨usesNext, inside⟩
      rw [← inside.isNaming_eq]
      apply (ih words.2.2.2 (usesNext.mono fun _ => (throughout.trans afterTurns).usable)).imp
      intro last scope remains
      exact ⟨remains.uses, fun noStatements _ => remains.inside noStatements inside⟩

end Quiet

end Reading

end Eval

end BlockCalc
