import BlockCalc.Proofs.Places

/-!
# Reading keeps to the buffer

While a program is read, its phases stay in step with what the tokens outline: the pending operators
are the runs that wait, and unary operators stand right before what they apply to. Every failure on
the way has the place of a token, and only behind an operand can an operator be the reason for it.
-/

namespace BlockCalc

variable {σ : Type}

namespace Buffer

variable {buffer : Buffer} {cause : Cause} {location : Location}

/-- A failure at one of the tokens, for which no operator is the reason. -/
theorem blames_at (shows : buffer.Shows location)
    (noOperation : ¬cause.IsOperational False := by exact not_false) :
    buffer.Blames { cause, location := some location } where
  locates _ := ⟨location, rfl, shows⟩
  noOperation := noOperation

/-- A failure for which the evaluator is to blame. -/
theorem blames_unhandled {incident : Incident} {location : Option Location} :
    buffer.Blames { cause := .unhandled incident, location } where
  locates impossible := impossible.elim
  noOperation := not_false

end Buffer

/-- The unary operators before an operand stand right before it. -/
theorem Term.StandsAt.wrapped {buffer : Buffer} {unary behind : List Token} {term : Term}
    (stands : term.StandsAt buffer behind) (before : unary.reverse ++ behind <:+ buffer.tokens)
    (operators : ∀ token ∈ unary, token.unary?.isSome) :
    (term.wrapped buffer.place unary).Placed buffer := by
  induction unary generalizing behind term with
  | nil => exact ⟨behind, before, stands⟩
  | cons last outer ih =>
      rcases List.forall_mem_cons.mp operators with ⟨isUnary, outerUnary⟩
      rcases Option.isSome_iff_exists.mp isUnary with ⟨operator, isOperator⟩
      rw [List.reverse_cons, List.append_assoc, List.singleton_append] at before
      simp only [Term.wrapped, isOperator]
      exact ih (.unary isOperator stands) before outerUnary

namespace Eval

section Reading

variable {settings : Settings σ} {buffer : Buffer} {token : Token} {ahead : List Token}

section Actions

theorem tells_endExpression {enclosure : Enclosure} (enclosed : enclosure.Placed buffer) :
    Tells buffer buffer.Blames (fun _ => True) (endExpression enclosure : Eval σ Unit) := by
  cases enclosure with
  | statements => exact .pure trivial
  | parenthesis group => exact .fail_at enclosed

section Tokens

variable {session : Session σ} {enclosure : Enclosure} {phase : Phase} {outline : Outline}
  {pending : List Pending} {unary : List Token} {term : Term}

/-- The operators that wait for a token are those that the outline has at it. -/
theorem leaf_of_awaits (awaits : phase.Awaits enclosure token.binary? pending unary)
    (placed : phase.Placed buffer (token :: ahead) outline)
    (within : token :: ahead <:+ buffer.tokens) (noSeparator : token.isSeparator = false)
    (noKeyword : phase.Begins enclosure token.binary? → token.isLet = false) :
    ∃ signs, Phase.Placed buffer (token :: ahead) (.operand signs unary)
        (.operand pending unary) ∧ outline.leaf token = Outline.operandAt signs unary token := by
  cases awaits with
  | begins begins =>
      refine ⟨[], .nothing within, ?_⟩
      have noLet := noKeyword begins
      cases begins with
      | first last =>
          cases placed
          simp [Outline.leaf, Outline.firstAt, noSeparator, noLet]
      | next value location inStatements noOperator =>
          cases placed
          simp [Outline.leaf, Outline.firstAt, noSeparator, noLet, noOperator]
  | operand pending unary =>
      cases placed with
      | operand waits before operators =>
          exact ⟨_, .operand waits before operators, by simp [Outline.leaf, noSeparator]⟩

/-- The operators that wait for a bracket are those that the bracket is an operand of. -/
theorem nest_of_awaits (awaits : phase.Awaits enclosure none pending unary)
    (placed : phase.Placed buffer (token :: ahead) outline)
    (within : token :: ahead <:+ buffer.tokens) :
    ∃ signs, Phase.Placed buffer (token :: ahead) (.operand signs unary)
        (.operand pending unary) ∧
      ∀ bracket, outline.nest bracket = Outline.nestAt bracket signs unary := by
  cases awaits with
  | begins begins =>
      refine ⟨[], .nothing within, fun bracket => ?_⟩
      cases begins <;> cases placed <;> rfl
  | operand pending unary =>
      cases placed with
      | operand waits before operators => exact ⟨_, .operand waits before operators, fun _ => rfl⟩

variable (holds : buffer.Holds session) (sameFile : settings.fileName = buffer.fileName)

include holds sameFile

theorem standsAt_of_isTerm (isTerm : token.IsTerm settings session term) (rest : List Token) :
    term.StandsAt buffer (token :: rest) := by
  cases isTerm with
  | number starts written => exact Session.site_eq_place holds.1 sameFile ▸ .value _
  | «variable» noNumber noLet visible => exact Session.site_eq_place holds.1 sameFile ▸ .variable _

theorem shows_site (mem : token ∈ buffer.tokens) : buffer.Shows (session.site settings token) :=
  ⟨token, mem, by rw [Session.site_eq_place holds.1 sameFile]⟩

theorem blames_of_noTerm {failure : Failure} (noTerm : token.NoTerm settings session failure)
    (mem : token ∈ buffer.tokens) : buffer.Blames failure := by
  cases noTerm with
  | tooLong starts written => exact Buffer.blames_unhandled
  | _ => exact Buffer.blames_at (shows_site holds sameFile mem)

theorem leaf_of_offers (offers : phase.Offers settings session token.binary? pending term)
    (placed : phase.Placed buffer (token :: ahead) outline)
    (noSeparator : token.isSeparator = false) :
    ∃ signs, Stacked buffer pending (runs signs) ∧ term.Placed buffer ∧
      outline.leaf token = Outline.operatorAt signs token := by
  cases offers with
  | operator pending term =>
      cases placed with
      | operator waits placed => exact ⟨_, waits, placed, by simp [Outline.leaf, noSeparator]⟩
  | named isTerm =>
      cases placed with
      | named mem =>
          rcases List.append_of_mem mem with ⟨before, rest, split⟩
          have stands := standsAt_of_isTerm holds sameFile isTerm rest
          exact ⟨[], .nil, ⟨_, split ▸ List.suffix_append before _, stands⟩,
            by simp [Outline.leaf, noSeparator]⟩
  | block value location follows =>
      cases placed with
      | block value shows =>
          exact ⟨[], .nil, shows.placed value, by simp [Outline.leaf, noSeparator, follows]⟩

/-- A token that is read keeps the phase in step with what the tokens outline. -/
theorem Leads.placed {next : Phase} (leads : Leads settings session enclosure token phase next)
    (placed : phase.Placed buffer (token :: ahead) outline)
    (within : token :: ahead <:+ buffer.tokens) :
    next.Placed buffer ahead (outline.leaf token) := by
  have mem : token ∈ buffer.tokens := within.subset (by simp)
  cases leads with
  | ends separator yields inStatements =>
      simp only [Outline.leaf, separator, if_true]
      exact .statement _
  | keyword isLet begins =>
      have noSeparator := (Token.plain_of_isLet isLet).separator
      cases begins with
      | first last =>
          cases placed
          simpa [Outline.leaf, Outline.firstAt, noSeparator, isLet] using .naming mem
      | next value location inStatements noOperator =>
          cases placed
          simpa [Outline.leaf, Outline.firstAt, noSeparator, isLet, noOperator] using .naming mem
  | string awaits string =>
      have leaf : token.kind ≠ .punctuation := by simp [string]
      have noLet : token.isLet = false := Token.isLet_eq_false_of_kind (by simp [string])
      rcases leaf_of_awaits awaits placed within (Token.plain_of_kind leaf).separator
        fun _ => noLet with ⟨signs, operand, isLeaf⟩
      cases operand with
      | operand waits before operators =>
          simp only [isLeaf, Outline.operandAt, Token.unary?_eq_none_of_kind leaf,
            Option.isSome_none, Bool.false_eq_true, if_false]
          rw [Session.site_eq_place holds.1 sameFile]
          exact .operator waits (Term.StandsAt.wrapped (.value _) before operators)
  | word awaits word isTerm =>
      have leaf : token.kind ≠ .punctuation := by simp [word]
      rcases leaf_of_awaits awaits placed within (Token.plain_of_kind leaf).separator
        fun _ => isTerm.isLet_eq_false with ⟨signs, operand, isLeaf⟩
      cases operand with
      | operand waits before operators =>
          have stands := standsAt_of_isTerm holds sameFile isTerm ahead
          simp only [isLeaf, Outline.operandAt, Token.unary?_eq_none_of_kind leaf,
            Option.isSome_none, Bool.false_eq_true, if_false]
          rw [Session.site_eq_place holds.1 sameFile]
          exact .operator waits (stands.wrapped before operators)
  | unary awaits punctuation isUnary =>
      have noLet : token.isLet = false := Token.isLet_eq_false_of_kind (by simp [punctuation])
      rcases Option.isSome_iff_exists.mp isUnary with ⟨operator, writes⟩
      rcases leaf_of_awaits awaits placed within (Token.plain_of_unary? writes).separator
        fun _ => noLet with ⟨signs, operand, isLeaf⟩
      cases operand with
      | operand waits before operators =>
          simp only [isLeaf, Outline.operandAt, isUnary, if_true]
          refine .operand waits ?_ (List.forall_mem_cons.mpr ⟨isUnary, operators⟩)
          rwa [List.reverse_cons, List.append_assoc, List.singleton_append]

theorem blames_of_unfinished {failure : Failure} {next : Option Token}
    (unfinished : phase.Unfinished settings session next failure)
    (placed : phase.Placed buffer ahead outline) (behind : ∀ token ∈ next, token ∈ buffer.tokens)
    (begun : next = none → outline ≠ .operand [] []) : buffer.Blames failure := by
  cases unfinished with
  | naming keyword =>
      cases placed with
      | naming mem => exact Buffer.blames_at (shows_site holds sameFile mem)
  | unary pending operator outer =>
      cases placed with
      | operand waits before operators =>
          exact Buffer.blames_at (shows_site holds sameFile (before.subset (by simp)))
  | binary top outer =>
      cases placed with
      | @operand signs _ _ waits before operators =>
          generalize runs signs = waiting at waits
          cases waits with
          | cons topPlaced _ => exact Buffer.blames_at topPlaced.shows
  | nothing =>
      rcases next with _ | token
      · cases placed with
        | @operand signs _ _ waits before operators =>
            have noSigns := runs_eq_nil_iff.mp (List.forall₂_nil_left_iff.mp waits)
            exact absurd (noSigns ▸ rfl) (begun rfl)
      · exact Buffer.blames_at (shows_site holds sameFile (behind token rfl))

theorem Refuses.blames {failure : Failure}
    (refuses : Refuses settings session enclosure token phase failure)
    (enclosed : enclosure.Placed buffer) (placed : phase.Placed buffer (token :: ahead) outline)
    (within : token :: ahead <:+ buffer.tokens) : buffer.Blames failure := by
  have mem : token ∈ buffer.tokens := within.subset (by simp)
  cases refuses with
  | unfinished separator unfinished =>
      exact blames_of_unfinished holds sameFile unfinished placed (by simpa using mem) (by simp)
  | ends separator yields inside =>
      subst inside
      exact Buffer.blames_at enclosed
  | behindBlock noSeparator noOperator inside =>
      subst inside
      exact Buffer.blames_at enclosed
  | unnamed noSeparator noName =>
      cases placed with
      | naming keywordMem => exact Buffer.blames_at (shows_site holds sameFile keywordMem)
  | word awaits word noKeyword noTerm => exact blames_of_noTerm holds sameFile noTerm mem
  | name noSeparator noTerm =>
      cases placed with
      | named nameMem => exact blames_of_noTerm holds sameFile noTerm nameMem
  | _ => exact Buffer.blames_at (shows_site holds sameFile mem)

theorem Bars.blames {failure : Failure}
    (bars : Bars settings session enclosure token phase failure)
    (enclosed : enclosure.Placed buffer) (placed : phase.Placed buffer (token :: ahead) outline)
    (within : token :: ahead <:+ buffer.tokens) : buffer.Blames failure := by
  cases bars with
  | naming keyword =>
      cases placed with
      | naming mem => exact Buffer.blames_at (shows_site holds sameFile mem)
  | name noTerm =>
      cases placed with
      | named mem => exact blames_of_noTerm holds sameFile noTerm mem
  | noOperator offers => exact Buffer.blames_at (shows_site holds sameFile (within.subset (by simp)))
  | behindBlock inside =>
      subst inside
      exact Buffer.blames_at enclosed

end Tokens

variable (sameFile : settings.fileName = buffer.fileName)

include sameFile

theorem tells_afterBracket {bracket : Bracket} {inner : List Token} {signs : List Sign}
    {pending : List Pending} {unary : List Token}
    (placed : Phase.Placed buffer (token :: inner) (.operand signs unary) (.operand pending unary))
    (value : Value) :
    Tells buffer buffer.Blames (Phase.Placed buffer ahead (Outline.nestAt bracket signs unary))
      (afterBracket settings bracket pending unary value (buffer.place token)) := by
  intro session holds
  rw [ensures_afterBracket, Session.site_eq_place holds.1 sameFile]
  refine ⟨holds, ?_⟩
  cases placed with
  | operand waits before operators =>
      have shows : buffer.Shows (buffer.place token) := ⟨token, before.subset (by simp), rfl⟩
      have noneWaits : pending = [] ↔ signs = [] := by
        rw [← runs_eq_nil_iff, ← List.length_eq_zero_iff, waits.length_eq, List.length_eq_zero_iff]
      simp only [Phase.closing]
      split
      · rw [noneWaits.mp rfl]
        exact .block value shows
      · rename_i others
        have isOperand : Outline.nestAt bracket signs unary = .operator signs := by
          simp only [Outline.nestAt]
          split
          · exact (others rfl (noneWaits.mpr rfl) rfl).elim
          · rfl
        rw [isOperand]
        exact .operator waits (Term.StandsAt.wrapped (.value value) before operators)

theorem tells_beforeBracket {enclosure : Enclosure} (enclosed : enclosure.Placed buffer)
    {outline : Outline} {phase : Phase} (placed : phase.Placed buffer (token :: ahead) outline)
    (within : token :: ahead <:+ buffer.tokens) :
    Tells buffer buffer.Blames
      (fun before => ∃ signs,
        Phase.Placed buffer (token :: ahead) (.operand signs before.2)
          (.operand before.1 before.2) ∧
          ∀ bracket, outline.nest bracket = Outline.nestAt bracket signs before.2)
      (beforeBracket settings enclosure token phase) := by
  intro session holds
  apply Ensures.beforeBracket
  · intro pending unary awaits
    exact ⟨holds, nest_of_awaits awaits placed within⟩
  · intro failure bars
    exact bars.blames holds sameFile enclosed placed within

omit sameFile

theorem tells_openGroup (bracket : Bracket) {location : Location}
    (shows : buffer.Shows location) :
    Tells buffer buffer.Blames (fun group => group.location = location)
      (openGroup settings bracket location) := by
  intro session same
  simp only [openGroup, ensures_bind, ensures_get]
  split
  · exact ⟨fun _ => ⟨location, rfl, shows⟩, not_false⟩
  · exact ⟨⟨same.1, List.forall_mem_cons.mpr ⟨shows, same.2⟩⟩, rfl⟩

theorem tells_closeGroup (closer : Option Token) :
    Tells buffer buffer.Blames (fun _ => True) (closeGroup closer : Eval σ Unit) := by
  intro session same
  cases groups : session.groups with
  | nil =>
      simp only [closeGroup, ensures_bind, ensures_get, groups]
      exact ⟨fun impossible => impossible.elim, not_false⟩
  | cons group outer =>
      have placed := same.2
      rw [groups, List.forall_mem_cons] at placed
      rw [Ensures, closeGroup_eq groups]
      split
      · rename_i ended
        split at ended
        · cases ended
          exact ⟨⟨same.1, placed.2⟩, trivial⟩
        · cases ended
      · rename_i ended
        split at ended
        · cases ended
        · cases ended
          exact ⟨fun _ => ⟨group.location, rfl, placed.1⟩, not_false⟩

end Actions

section Recorded

variable (sameFile : settings.fileName = buffer.fileName) (quiet : settings.hooks = .none)

include sameFile quiet

omit sameFile in
theorem tells_enterBlock (location : Location) :
    Tells buffer buffer.Blames (fun _ => True) (enterBlock settings location) := by
  rw [enterBlock_of_quiet quiet]
  apply Tells.get_bind
  intro session
  exact (Tells.setScope _).bind fun _ _ => tells_record quiet _ _

omit sameFile in
theorem tells_exitBlock (location : Location) :
    Tells buffer buffer.Blames (fun _ => True) (exitBlock settings location) := by
  rw [exitBlock_of_quiet quiet]
  apply Tells.get_bind
  intro session
  cases left : session.scope.exit with
  | error cause =>
      rw [Scope.exit_eq_error left]
      exact .fail_unhandled
  | ok result => exact (Tells.setScope _).bind fun _ _ => tells_record quiet _ _

omit sameFile in
theorem tells_declare (name : String) (location : Location) :
    Tells buffer buffer.Blames (fun _ => True) (declare settings name location) := by
  apply Tells.get_bind
  intro session
  exact (Tells.setScope _).bind fun _ _ => tells_record quiet _ _

theorem tells_finish {outline : Outline} {phase : Phase}
    (placed : phase.Placed buffer ahead outline) {next : Option Token}
    (behind : ∀ token ∈ next, token ∈ buffer.tokens)
    (begun : next = none → outline ≠ .operand [] []) :
    Tells buffer (buffer.BlamesIn phase) (fun _ => True) (finish settings next phase) := by
  intro session holds
  apply Ensures.finish
  · intro value yields
    exact ⟨holds, trivial⟩
  · intro failure unfinished
    exact .of_blames (blames_of_unfinished holds sameFile unfinished placed behind begun)
  · rintro pending term rfl
    cases placed with
    | operator waits placed =>
        have collapses := tells_collapse quiet waits placed
        exact collapses.mono (fun _ locates => ⟨locates, fun _ => trivial⟩) session holds

omit sameFile in
/-- An operator joins the run that waits or begins one; only behind an operand can it fail. -/
theorem tells_push {session : Session σ} {phase : Phase}
    {pending : List Pending} {term : Term} {operator : BinaryOp}
    (offers : phase.Offers settings session token.binary? pending term)
    (stands : token.binary? = some operator) (mem : token ∈ buffer.tokens)
    {signs : List Sign} (waits : Stacked buffer pending (runs signs))
    (placed : term.Placed buffer) :
    Tells buffer (buffer.BlamesIn phase)
      (fun pushed => Stacked buffer pushed (joinRun ⟨token, operator, stands⟩ (runs signs)))
      (pushOperator settings operator (buffer.place token) pending term) := by
  have first (noneWaits : runs signs = []) : Tells buffer (buffer.BlamesIn phase)
      (fun pushed => Stacked buffer pushed (joinRun ⟨token, operator, stands⟩ (runs signs)))
      (pushOperator settings operator (buffer.place token) [] term) := by
    rw [noneWaits]
    exact .pure (.cons ⟨rfl, rfl, mem, by simpa using placed⟩ .nil)
  cases offers with
  | operator pending term =>
      let sign : Sign := ⟨token, operator, stands⟩
      have pushes : Tells buffer _ (fun pushed => Stacked buffer pushed (joinRun sign (runs signs)))
          (pushOperator settings operator (buffer.place token) pending term) :=
        tells_pushOperator quiet mem waits placed
      exact pushes.mono fun _ locates => ⟨locates, fun _ => trivial⟩
  | named isTerm => exact first (List.forall₂_nil_left_iff.mp waits)
  | block value location follows => exact first (List.forall₂_nil_left_iff.mp waits)

/-- Reading a token keeps the phase in step with what the tokens outline. -/
theorem tells_readToken {enclosure : Enclosure} (enclosed : enclosure.Placed buffer)
    {outline : Outline} {phase : Phase} (placed : phase.Placed buffer (token :: ahead) outline)
    (within : token :: ahead <:+ buffer.tokens) :
    Tells buffer (buffer.BlamesIn phase) (Phase.Placed buffer ahead (outline.leaf token))
      (readToken settings enclosure token phase) := by
  have mem : token ∈ buffer.tokens := within.subset (by simp)
  have inside : ahead <:+ buffer.tokens := (List.suffix_cons token ahead).trans within
  intro session holds
  apply Ensures.readToken
  intro deed does
  cases does with
  | turns leads => exact ⟨holds, leads.placed holds sameFile placed within⟩
  | refuses refuses => exact .of_blames (refuses.blames holds sameFile enclosed placed within)
  | @pushes _ pending term operator offers stands =>
      have noSeparator := (Token.plain_of_binary? stands).separator
      rcases leaf_of_offers holds sameFile offers placed noSeparator with
        ⟨signs, waits, termPlaced, isLeaf⟩
      simp only [Deed.run, isLeaf, Outline.operatorAt, Token.sign?_eq_some stands]
      rw [Session.site_eq_place holds.1 sameFile]
      apply (tells_push quiet offers stands mem waits termPlaced session holds).bind
      rintro pushed after ⟨still, stacked⟩
      rw [← runs_append_singleton] at stacked
      exact ⟨still, .operand stacked inside (by simp)⟩
  | declares keyword identifier =>
      have noSeparator := (Token.plain_of_isIdentifier identifier).separator
      cases placed with
      | naming keywordMem =>
          simp only [Outline.leaf, noSeparator, Bool.false_eq_true, if_false]
          apply ((tells_declare quiet _ _).mono (fun _ => .of_blames) session holds).bind
          rintro _ after ⟨still, _⟩
          exact ⟨still, .named mem⟩
  | @concludes pending term separator =>
      cases placed with
      | operator waits placed =>
          simp only [Outline.leaf, separator, if_true]
          have collapses : Tells buffer (buffer.BlamesIn (.operator pending term)) (fun _ => True)
              (collapse settings pending term) :=
            (tells_collapse quiet waits placed).mono fun _ locates => ⟨locates, fun _ => trivial⟩
          apply (collapses session holds).bind
          rintro value finished ⟨stillHolds, _⟩
          apply ((tells_endExpression enclosed).mono (fun _ => .of_blames) finished stillHolds).bind
          rintro _ after ⟨still, _⟩
          exact ⟨still, .statement _⟩

/-- Going into a bracket, nothing of what it holds has been read. -/
theorem tells_openBracket {enclosure : Enclosure} (enclosed : enclosure.Placed buffer)
    {bracket : Bracket} {outline : Outline} {phase : Phase}
    (placed : phase.Placed buffer (token :: ahead) outline)
    (within : token :: ahead <:+ buffer.tokens) :
    Tells buffer buffer.Blames
      (fun opened => opened.1.Placed buffer ∧ opened.2.Placed buffer ahead opened.1.outline)
      (openBracket settings enclosure bracket token phase) := by
  have shows : buffer.Shows (buffer.place token) := ⟨token, within.subset (by simp), rfl⟩
  have inside : ahead <:+ buffer.tokens := (List.suffix_cons token ahead).trans within
  apply (tells_beforeBracket sameFile enclosed placed within).bind
  intro _ _
  apply Tells.locate_bind sameFile
  apply Tells.advance.bind
  intro _ _
  apply (tells_openGroup bracket shows).bind
  intro group located
  cases bracket with
  | round => exact .pure ⟨shows.parenthesis located, .nothing inside⟩
  | curly =>
      apply (tells_enterBlock quiet _).bind
      intro _ _
      exact .pure ⟨trivial, .statement _⟩

/-- What a bracket holds is read up to the closer. -/
theorem tells_contents {enclosure : Enclosure} {inner : Forest} {closer : Token}
    {behind : List Token} {outline : Outline} {phase : Phase} (mem : closer ∈ buffer.tokens)
    (reads : Tells buffer buffer.Locates (Phase.Placed buffer behind outline)
      (read settings enclosure inner phase)) :
    Tells buffer buffer.Locates (fun _ => True)
      (contents settings enclosure phase inner closer) := by
  apply reads.bind
  intro last placed
  apply ((tells_finish sameFile quiet placed (by simpa using mem) (by simp)).mono
    fun _ blames => blames.locates).bind
  intro value _
  apply ((tells_closeGroup closer).mono fun _ blames => blames.locates).bind
  intro _ _
  exact .pure trivial

/-- A bracket whose opener has been read is read up to its closer. -/
theorem tells_enclosed {opener closer : Token} {inner : Forest} {behind : List Token}
    {group : Group} (shows : buffer.Shows (buffer.place opener))
    (located : group.location = buffer.place opener)
    (inside : inner.tokens ++ closer :: behind <:+ buffer.tokens) (mem : closer ∈ buffer.tokens)
    (reads : ∀ {enclosure : Enclosure} {outline : Outline} {phase : Phase},
      enclosure.Placed buffer → phase.Placed buffer (inner.tokens ++ closer :: behind) outline →
        Tells buffer buffer.Locates (Phase.Placed buffer (closer :: behind) (outline.after inner))
          (read settings enclosure inner phase)) {bracket : Bracket} :
    Tells buffer buffer.Locates (fun _ => True)
      (Eval.enclosed settings (buffer.place opener) group inner closer bracket) := by
  cases bracket with
  | round =>
      exact tells_contents sameFile quiet mem
        (reads (shows.parenthesis located) (.nothing inside))
  | curly =>
      apply ((tells_enterBlock quiet _).mono fun _ blames => blames.locates).bind
      intro _ _
      have inBlock : Enclosure.Placed buffer .statements := trivial
      apply (tells_contents sameFile quiet mem (reads inBlock (.statement .void))).bind
      intro value _
      apply ((tells_exitBlock quiet _).mono fun _ blames => blames.locates).bind
      intro _ _
      exact .pure trivial

/-- Reading a part of a program keeps to the buffer, and ends as its tokens outline. -/
theorem tells_read {forest : Forest} (matched : forest.Matched) {behind : List Token}
    (within : forest.tokens ++ behind <:+ buffer.tokens) {enclosure : Enclosure}
    (enclosed : enclosure.Placed buffer) {outline : Outline} {phase : Phase}
    (placed : phase.Placed buffer (forest.tokens ++ behind) outline) :
    Tells buffer buffer.Locates (Phase.Placed buffer behind (outline.after forest))
      (read settings enclosure forest phase) := by
  induction forest generalizing behind enclosure outline phase with
  | nil => exact .pure placed
  | leaf token rest ih =>
      apply Tells.advance.bind
      intro _ _
      apply ((tells_readToken sameFile quiet enclosed placed within).mono
        fun _ blames => blames.locates).bind
      intro next nextPlaced
      exact ih matched.2.2 ((List.suffix_cons _ _).trans within) enclosed nextPlaced
  | nest bracket opener inner closer rest ihInner ihRest =>
      rcases matched with ⟨_, ⟨closer, rfl, _⟩, innerMatched, restMatched⟩
      have ofBlames : ∀ failure, buffer.Blames failure → buffer.Locates failure :=
        fun _ blames => blames.locates
      have tokens : (Forest.nest bracket opener inner closer rest).tokens ++ behind =
          opener :: (inner.tokens ++ closer :: (rest.tokens ++ behind)) := by
        simp [Forest.tokens]
      rw [tokens] at within placed
      have inside := (List.suffix_cons opener _).trans within
      have fromCloser := (List.suffix_append inner.tokens _).trans inside
      have outside := (List.suffix_cons closer _).trans fromCloser
      have shows : buffer.Shows (buffer.place opener) := ⟨opener, within.subset (by simp), rfl⟩
      have closerMem : closer ∈ buffer.tokens := fromCloser.subset (by simp)
      rw [read_nest]
      apply ((tells_beforeBracket sameFile enclosed placed within).mono ofBlames).bind
      rintro ⟨pending, unary⟩ ⟨signs, waits, isNest⟩
      apply Tells.locate_bind sameFile
      apply Tells.advance.bind
      intro _ _
      apply ((tells_openGroup bracket shows).mono ofBlames).bind
      intro group located
      apply (tells_enclosed sameFile quiet shows located inside closerMem
        fun enclosed placed => ihInner innerMatched inside enclosed placed).bind
      intro value _
      apply ((tells_afterBracket sameFile waits value).mono ofBlames).bind
      intro next nextPlaced
      rw [← isNest] at nextPlaced
      exact ihRest restMatched outside enclosed nextPlaced

end Recorded

end Reading

end Eval

end BlockCalc
