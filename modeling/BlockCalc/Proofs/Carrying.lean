import BlockCalc.Proofs.Brackets
import BlockCalc.Proofs.Coupling
import BlockCalc.Proofs.Deeds

/-!
# From a few actions to a whole evaluation

Of all that an evaluation does, only a few actions look at the session or change it. Two evaluations
that both read the same program stay coupled if these few keep the coupling, and then they give the
same result or fail in the same way. The sessions may have different bindings, as long as they agree
on all names that the program mentions: those are the names for which something is asked.

The few actions come in three layers. `Coupling.Operations` is about what operators do,
`Coupling.Primitive` about all that happens between two brackets, and `Coupling.Bracketed` about
brackets and blocks as well.
-/

namespace BlockCalc

variable {σ τ α : Type}

/-- The variables in an operand are all `named`, and the values in it are all `good`. -/
def Term.Fits (named : String → Prop) (good : Value → Prop) : Term → Prop
  | .variable name _ => named name
  | .value computed _ => good computed
  | .unary _ operand _ => operand.Fits named good

/-- All operands that wait are of values and names as described. -/
def Pending.Fits (named : String → Prop) (good : Value → Prop) (pending : List Pending) : Prop :=
  ∀ top ∈ pending, ∀ term ∈ top.operands, term.Fits named good

/-- All that has been read of a statement is of values and names as described. -/
def Phase.Fits (named : String → Prop) (good : Value → Prop) : Phase → Prop
  | .statement last => good last
  | .naming _ => True
  | .named name => named name.text
  | .operand pending _ => Pending.Fits named good pending
  | .operator pending term => Pending.Fits named good pending ∧ term.Fits named good
  | .block value _ => good value

/-- The names that a token mentions are `named`. -/
def Token.Mentions (named : String → Prop) (token : Token) : Prop :=
  token.kind = .word → named token.text

theorem Token.mentions_true (token : Token) : token.Mentions fun _ => True :=
  fun _ => trivial

theorem Term.fits_true (term : Term) : term.Fits (fun _ => True) fun _ => True := by
  induction term with
  | unary operator operand location ih => exact ih
  | _ => trivial

theorem Pending.fits_true (pending : List Pending) :
    Pending.Fits (fun _ => True) (fun _ => True) pending :=
  fun _ _ term _ => term.fits_true

theorem Phase.fits_true (phase : Phase) : phase.Fits (fun _ => True) fun _ => True := by
  cases phase with
  | operand pending unary => exact Pending.fits_true pending
  | operator pending term => exact ⟨Pending.fits_true pending, term.fits_true⟩
  | _ => trivial

section Pending

variable {named : String → Prop} {good : Value → Prop} {top : Pending} {outer : List Pending}

theorem Pending.fits_nil : Pending.Fits named good [] := by
  simp [Pending.Fits]

theorem Pending.fits_cons :
    Pending.Fits named good (top :: outer) ↔
      (∀ term ∈ top.operands, term.Fits named good) ∧ Pending.Fits named good outer := by
  simp [Pending.Fits]

theorem Pending.fits_push {term : Term} (operands : ∀ term ∈ top.operands, term.Fits named good)
    (fits : term.Fits named good) : ∀ other ∈ (top.push term).operands, other.Fits named good := by
  simp only [Pending.push, List.forall_mem_append, List.forall_mem_singleton]
  exact ⟨operands, fits⟩

end Pending

theorem Term.Fits.wrapped {named : String → Prop} {good : Value → Prop} {term : Term}
    (fits : term.Fits named good) (site : Token → Location) (unary : List Token) :
    (term.wrapped site unary).Fits named good := by
  induction unary generalizing term with
  | nil => exact fits
  | cons token outer ih =>
      simp only [Term.wrapped]
      split
      · exact ih fits
      · exact ih fits

theorem Phase.Awaits.fits {enclosure : Enclosure} {upcoming : Option BinaryOp} {phase : Phase}
    {pending : List Pending} {unary : List Token}
    (awaits : phase.Awaits enclosure upcoming pending unary) {named : String → Prop}
    {good : Value → Prop} (fits : phase.Fits named good) : Pending.Fits named good pending := by
  cases awaits with
  | begins begins => exact Pending.fits_nil
  | operand pending unary => exact fits

/-- What a token fails for is never the depth of its brackets. -/
theorem Token.NoTerm.not_tooDeep {settings : Settings σ} {session : Session σ} {token : Token}
    {failure : Failure} (noTerm : token.NoTerm settings session failure) :
    ¬failure.cause.IsTooDeep := by
  cases noTerm <;> exact not_false

theorem Phase.Unfinished.not_tooDeep {settings : Settings σ} {session : Session σ}
    {next : Option Token} {phase : Phase} {failure : Failure}
    (unfinished : phase.Unfinished settings session next failure) : ¬failure.cause.IsTooDeep := by
  cases unfinished <;> exact not_false

theorem Eval.Refuses.not_tooDeep {settings : Settings σ} {session : Session σ}
    {enclosure : Enclosure} {token : Token} {phase : Phase} {failure : Failure}
    (refuses : Refuses settings session enclosure token phase failure) :
    ¬failure.cause.IsTooDeep := by
  cases refuses with
  | unfinished separator unfinished => exact unfinished.not_tooDeep
  | word awaits word noKeyword noTerm => exact noTerm.not_tooDeep
  | name noSeparator noTerm => exact noTerm.not_tooDeep
  | _ => exact not_false

theorem Eval.Bars.not_tooDeep {settings : Settings σ} {session : Session σ}
    {enclosure : Enclosure} {token : Token} {phase : Phase} {failure : Failure}
    (bars : Bars settings session enclosure token phase failure) : ¬failure.cause.IsTooDeep := by
  cases bars with
  | name noTerm => exact noTerm.not_tooDeep
  | _ => exact not_false

namespace Coupling

/--
The actions of operators that look at the session, change a binding or record a step keep the
coupling, as far as they are about names that are `named`.
-/
structure Operations (coupling : Coupling σ τ) (named : String → Prop) (settings : Settings σ)
    (other : Settings τ) : Prop where
  sameRead : ∀ {first second name}, coupling.related first second → named name →
    second.scope.read name = first.scope.read name
  fails : ∀ {cause : Cause}, ¬cause.IsTooDeep → ¬cause.IsMismatch → coupling.fails cause
  closed : Value.Closed coupling.good
  goodRead : ∀ {first second name value}, coupling.related first second →
    first.scope.read name = .ok value → coupling.good value
  reduceStep : ∀ operator operands location,
    coupling.Carries (Eval.record settings (.reduce operator operands) location)
      (Eval.record other (.reduce operator operands) location) fun _ => True
  assign : ∀ operator {name value}, named name → coupling.good value → value.Present →
    ∀ location, coupling.Carries (Eval.assign settings operator name value location)
      (Eval.assign other operator name value location) fun _ => True

namespace Operations

variable {coupling : Coupling σ τ} {named : String → Prop} {settings : Settings σ}
  {other : Settings τ} (operations : coupling.Operations named settings other)

include operations

theorem operational {outcome : Except Cause α} (operational : Operational True outcome)
    {results : α → Prop} (holds : ∀ result, outcome = .ok result → results result) :
    coupling.Carries (Eval.ofExcept outcome) (Eval.ofExcept outcome) results :=
  .ofExcept holds fun cause failed =>
    operations.fails (operational cause failed).not_tooDeep (operational cause failed).not_mismatch

theorem resolve {term : Term} (fits : term.Fits named coupling.good) :
    coupling.Carries (Eval.resolve term) (Eval.resolve term) coupling.good := by
  induction term with
  | «variable» name location =>
      apply Carries.get_bind
      intro first second related
      rw [operations.sameRead related fits]
      exact Carries.locating (operations.operational (first.scope.operational_read name)
        fun _ reads => operations.goodRead related reads) first second related
  | value value location => exact .pure fits
  | unary operator operand location ih =>
      apply (ih fits).bind
      intro value good
      exact .locating (operations.operational (operator.operational_apply value)
        fun _ applies => operations.closed.unary good applies)

theorem combine {operator : BinaryOp} (plain : operator.isAssignment = false) {value : Value}
    (good : coupling.good value) {terms : List Term}
    (fits : ∀ term ∈ terms, term.Fits named coupling.good) :
    coupling.Carries (Eval.combine operator value terms) (Eval.combine operator value terms)
      coupling.good := by
  induction terms generalizing value with
  | nil => exact .pure good
  | cons term rest ih =>
      rw [List.forall_mem_cons] at fits
      simp only [Eval.combine]
      split
      · exact .pure good
      · apply (operations.resolve fits.1).bind
        intro right rightGood
        apply (operations.operational (operator.operational_apply plain value right)
          fun _ applies => operations.closed.binary good rightGood applies).bind
        intro combined combinedGood
        exact ih combinedGood fits.2

theorem newValue {operator : BinaryOp} (assigns : operator.isAssignment = true) {right : Value}
    (good : coupling.good right) {name : String} (isNamed : named name) :
    coupling.Carries
      (do Eval.ofExcept ((← get).scope.newValue operator name right))
      (do Eval.ofExcept ((← get).scope.newValue operator name right))
      fun value => coupling.good value ∧ value.Present := by
  apply Carries.get_bind
  intro first second related
  have same : second.scope.newValue operator name right =
      first.scope.newValue operator name right := by
    simp only [Scope.newValue, operations.sameRead related isNamed]
  rw [same]
  refine operations.operational (first.scope.operational_newValue assigns name right) ?_ _ _ related
  intro value chosen
  rcases Scope.newValue_eq_ok chosen with ⟨present, rfl | ⟨base, current, reads, applies⟩⟩
  · exact ⟨good, present⟩
  · exact ⟨operations.closed.binary (operations.goodRead related reads) good applies, present⟩

theorem assignAll {operator : BinaryOp} (assigns : operator.isAssignment = true) {right : Value}
    (good : coupling.good right) {targets : List Term}
    (fits : ∀ target ∈ targets, target.Fits named coupling.good) :
    coupling.Carries (Eval.assignAll settings operator right targets)
      (Eval.assignAll other operator right targets) fun _ => True := by
  induction targets generalizing right with
  | nil => exact .pure trivial
  | cons target rest ih =>
      rw [List.forall_mem_cons] at fits
      cases target with
      | «variable» name location =>
          simp only [Eval.assignAll_variable]
          apply (operations.newValue assigns good fits.1).bind
          rintro value ⟨valueGood, present⟩
          apply (operations.assign operator fits.1 valueGood present location).bind
          intro _ _
          exact ih valueGood fits.2
      | value value location => exact .fail (operations.fails not_false not_false)
      | unary unary operand location => exact .fail (operations.fails not_false not_false)

theorem reduce {pending : Pending}
    (fits : ∀ term ∈ pending.operands, term.Fits named coupling.good) :
    coupling.Carries (Eval.reduce settings pending) (Eval.reduce other pending) coupling.good := by
  rcases pending with ⟨operator, operands, location⟩
  rcases operands with _ | ⟨first, _ | ⟨second, rest⟩⟩
  · exact .fail (operations.fails not_false not_false)
  · exact .fail (operations.fails not_false not_false)
  · apply (operations.reduceStep operator (rest.length + 2) (some location)).bind
    intro _ _
    apply Carries.locating
    cases assigns : operator.isAssignment with
    | true =>
        simp only [if_true]
        split
        · rename_i last targets reversed
          have reversedFits : ∀ term ∈ last :: targets, term.Fits named coupling.good := by
            intro term member
            exact fits term (List.mem_reverse.mp (reversed ▸ member))
          rw [List.forall_mem_cons] at reversedFits
          apply (operations.resolve reversedFits.1).bind
          intro value good
          apply (operations.assignAll assigns good reversedFits.2).bind
          intro _ _
          exact .pure operations.closed.void
        · exact .pure operations.closed.void
    | false =>
        simp only [Bool.false_eq_true, if_false]
        rw [List.forall_mem_cons] at fits
        apply (operations.resolve fits.1).bind
        intro value good
        exact operations.combine assigns good fits.2

theorem collapse {pending : List Pending} (pendingFits : Pending.Fits named coupling.good pending)
    {term : Term} (fits : term.Fits named coupling.good) :
    coupling.Carries (Eval.collapse settings pending term) (Eval.collapse other pending term)
      coupling.good := by
  induction pending generalizing term with
  | nil => exact operations.resolve fits
  | cons top outer ih =>
      rw [Pending.fits_cons] at pendingFits
      apply (operations.reduce (Pending.fits_push pendingFits.1 fits)).bind
      intro value good
      exact ih pendingFits.2 good

theorem pushOperator (operator : BinaryOp) (location : Location) {pending : List Pending}
    (pendingFits : Pending.Fits named coupling.good pending) {term : Term}
    (fits : term.Fits named coupling.good) :
    coupling.Carries (Eval.pushOperator settings operator location pending term)
      (Eval.pushOperator other operator location pending term)
      (Pending.Fits named coupling.good) := by
  have operands {term : Term} (fits : term.Fits named coupling.good) :
      ∀ operand ∈ [term], operand.Fits named coupling.good := by simpa using fits
  induction pending generalizing term with
  | nil => exact .pure (Pending.fits_cons.mpr ⟨operands fits, Pending.fits_nil⟩)
  | cons top outer ih =>
      rcases Pending.fits_cons.mp pendingFits with ⟨topFits, outerFits⟩
      simp only [Eval.pushOperator]
      split
      · exact .pure (Pending.fits_cons.mpr ⟨Pending.fits_push topFits fits, outerFits⟩)
      · split
        · apply (operations.reduce (Pending.fits_push topFits fits)).bind
          intro value good
          exact ih outerFits good
        · exact .pure (Pending.fits_cons.mpr ⟨operands fits, pendingFits⟩)

end Operations

/--
The actions between two brackets that look at the session, change a binding or record a step keep
the coupling, as far as they are about names that are `named`.
-/
structure Primitive (coupling : Coupling σ τ) (named : String → Prop) (settings : Settings σ)
    (other : Settings τ) : Prop where
  sameFile : other.fileName = settings.fileName
  sameSource : ∀ {first second}, coupling.related first second → second.source = first.source
  sameLast : ∀ {first second}, coupling.related first second →
    second.log.lastLocation = first.log.lastLocation
  sameHas : ∀ {first second name}, coupling.related first second → named name →
    second.scope.has name = first.scope.has name
  sameRead : ∀ {first second name}, coupling.related first second → named name →
    second.scope.read name = first.scope.read name
  fails : ∀ {cause : Cause}, ¬cause.IsTooDeep → coupling.fails cause
  closed : Value.Closed coupling.good
  goodRead : ∀ {first second name value}, coupling.related first second →
    first.scope.read name = .ok value → coupling.good value
  reduceStep : ∀ operator operands location,
    coupling.Carries (Eval.record settings (.reduce operator operands) location)
      (Eval.record other (.reduce operator operands) location) fun _ => True
  declare : ∀ {name}, named name → ∀ location,
    coupling.Carries (Eval.declare settings name location) (Eval.declare other name location)
      fun _ => True
  assign : ∀ operator {name value}, named name → coupling.good value → value.Present →
    ∀ location, coupling.Carries (Eval.assign settings operator name value location)
      (Eval.assign other operator name value location) fun _ => True

namespace Primitive

variable {coupling : Coupling σ τ} {named : String → Prop} {settings : Settings σ}
  {other : Settings τ} (primitive : coupling.Primitive named settings other)

include primitive

theorem locate (token : Token) :
    coupling.Carries (Eval.locate settings token) (Eval.locate other token) fun _ => True := by
  intro first second related
  refine ⟨?_, trivial, related⟩
  simp only [primitive.sameFile, primitive.sameSource related]

theorem operations : coupling.Operations named settings other where
  sameRead := primitive.sameRead
  fails shallow _ := primitive.fails shallow
  closed := primitive.closed
  goodRead := primitive.goodRead
  reduceStep := primitive.reduceStep
  assign := primitive.assign

theorem fail_at (token : Token) {cause : Cause} {results : α → Prop}
    (shallow : ¬cause.IsTooDeep := by exact not_false) :
    coupling.Carries (do Eval.fail cause (some (← Eval.locate settings token)))
      (do Eval.fail cause (some (← Eval.locate other token))) results :=
  (primitive.locate token).bind fun _ _ => .fail (primitive.fails shallow)

theorem endExpression (enclosure : Enclosure) :
    coupling.Carries (Eval.endExpression enclosure) (Eval.endExpression enclosure)
      fun _ => True := by
  cases enclosure with
  | statements => exact .pure trivial
  | parenthesis group => exact .fail (primitive.fails not_false)

section Doing

variable {first : Session σ} {second : Session τ} (related : coupling.related first second)
  {enclosure : Enclosure} {token : Token} {phase : Phase}

include related

theorem site_eq : first.site settings = second.site other := by
  funext token
  simp only [Session.site, primitive.sameFile, primitive.sameSource related]

theorem isTerm {term : Term} (isNamed : named token.text)
    (isTerm : token.IsTerm settings first term) : token.IsTerm other second term := by
  cases isTerm with
  | number starts written =>
      rw [primitive.site_eq related]
      exact .number starts written
  | «variable» noNumber noLet visible =>
      rw [primitive.site_eq related]
      exact .variable noNumber noLet ((primitive.sameHas related isNamed).trans visible)

theorem noTerm {failure : Failure} (isNamed : named token.text)
    (noTerm : token.NoTerm settings first failure) : token.NoTerm other second failure := by
  cases noTerm with
  | invalid starts written =>
      rw [primitive.site_eq related]
      exact .invalid starts written
  | tooLong starts written =>
      rw [← primitive.sameLast related]
      exact .tooLong starts written
  | keyword noNumber isLet =>
      rw [primitive.site_eq related]
      exact .keyword noNumber isLet
  | hidden noNumber noLet hidden =>
      rw [primitive.site_eq related]
      exact .hidden noNumber noLet ((primitive.sameHas related isNamed).trans hidden)

theorem offers {upcoming : Option BinaryOp} {pending : List Pending} {term : Term}
    (fits : phase.Fits named coupling.good)
    (offers : phase.Offers settings first upcoming pending term) :
    phase.Offers other second upcoming pending term := by
  cases offers with
  | operator pending term => exact .operator pending term
  | named isTerm => exact .named (primitive.isTerm related fits isTerm)
  | block value location follows => exact .block value location follows

theorem unfinished {next : Option Token} {failure : Failure}
    (unfinished : phase.Unfinished settings first next failure) :
    phase.Unfinished other second next failure := by
  cases unfinished with
  | naming keyword =>
      rw [primitive.site_eq related]
      exact .naming keyword
  | unary pending operator outer =>
      rw [primitive.site_eq related]
      exact .unary pending operator outer
  | binary top outer => exact .binary top outer
  | nothing =>
      rw [primitive.site_eq related]
      exact .nothing

theorem leads {next : Phase} (mentions : token.Mentions named)
    (leads : Eval.Leads settings first enclosure token phase next) :
    Eval.Leads other second enclosure token phase next := by
  cases leads with
  | ends separator yields inStatements => exact .ends separator yields inStatements
  | keyword isLet begins => exact .keyword isLet begins
  | string awaits string =>
      rw [primitive.site_eq related]
      exact .string awaits string
  | word awaits word isTerm =>
      rw [primitive.site_eq related]
      exact .word awaits word (primitive.isTerm related (mentions word) isTerm)
  | unary awaits punctuation isUnary => exact .unary awaits punctuation isUnary

theorem refuses {failure : Failure} (mentions : token.Mentions named)
    (fits : phase.Fits named coupling.good)
    (refuses : Eval.Refuses settings first enclosure token phase failure) :
    Eval.Refuses other second enclosure token phase failure := by
  cases refuses with
  | unfinished separator unfinished =>
      exact .unfinished separator (primitive.unfinished related unfinished)
  | ends separator yields inside => exact .ends separator yields inside
  | behindBlock noSeparator noOperator inside => exact .behindBlock noSeparator noOperator inside
  | unnamed noSeparator noName =>
      rw [primitive.site_eq related]
      exact .unnamed noSeparator noName
  | word awaits word noKeyword noTerm =>
      exact .word awaits word noKeyword (primitive.noTerm related (mentions word) noTerm)
  | illegal awaits punctuation noUnary isOperator =>
      rw [primitive.site_eq related]
      exact .illegal awaits punctuation noUnary isOperator
  | unknown awaits noSeparator punctuation noUnary noOperator =>
      rw [primitive.site_eq related]
      exact .unknown awaits noSeparator punctuation noUnary noOperator
  | name noSeparator noTerm => exact .name noSeparator (primitive.noTerm related fits noTerm)
  | noOperator offers noSeparator noOperator =>
      rw [primitive.site_eq related]
      exact .noOperator (primitive.offers related fits offers) noSeparator noOperator

theorem bars {failure : Failure} (fits : phase.Fits named coupling.good)
    (bars : Eval.Bars settings first enclosure token phase failure) :
    Eval.Bars other second enclosure token phase failure := by
  cases bars with
  | naming keyword =>
      rw [primitive.site_eq related]
      exact .naming keyword
  | name noTerm => exact .name (primitive.noTerm related fits noTerm)
  | noOperator offers =>
      rw [primitive.site_eq related]
      exact .noOperator (primitive.offers related fits offers)
  | behindBlock inside => exact .behindBlock inside

/-- In coupled sessions a token does the same. -/
theorem does {deed : Eval.Deed} (mentions : token.Mentions named)
    (fits : phase.Fits named coupling.good)
    (does : Eval.Does settings first enclosure token phase deed) :
    Eval.Does other second enclosure token phase deed := by
  cases does with
  | turns leads => exact .turns (primitive.leads related mentions leads)
  | refuses refuses => exact .refuses (primitive.refuses related mentions fits refuses)
  | pushes offers stands =>
      rw [primitive.site_eq related]
      exact .pushes (primitive.offers related fits offers) stands
  | declares keyword identifier =>
      rw [primitive.site_eq related]
      exact .declares keyword identifier
  | concludes separator => exact .concludes separator

end Doing

section Fitting

variable {session : Session σ} {enclosure : Enclosure} {token : Token} {phase : Phase}
  {upcoming : Option BinaryOp} {pending : List Pending} {unary : List Token} {term : Term}

theorem fits_of_isTerm (isNamed : named token.text)
    (isTerm : token.IsTerm settings session term) : term.Fits named coupling.good := by
  cases isTerm with
  | number starts written => exact primitive.closed.integer written
  | «variable» noNumber noLet visible => exact isNamed

theorem fits_of_offers (fits : phase.Fits named coupling.good)
    (offers : phase.Offers settings session upcoming pending term) :
    Pending.Fits named coupling.good pending ∧ term.Fits named coupling.good := by
  cases offers with
  | operator pending term => exact fits
  | named isTerm => exact ⟨Pending.fits_nil, primitive.fits_of_isTerm fits isTerm⟩
  | block value location follows => exact ⟨Pending.fits_nil, fits⟩

theorem fits_of_leads {next : Phase} (mentions : token.Mentions named)
    (fits : phase.Fits named coupling.good)
    (leads : Eval.Leads settings session enclosure token phase next) :
    next.Fits named coupling.good := by
  cases leads with
  | ends separator yields inStatements => exact primitive.closed.void
  | keyword isLet begins => trivial
  | string awaits string =>
      have literal (location : Location) :
          (Term.value (Literal.string token.text) location).Fits named coupling.good :=
        primitive.closed.text _
      exact ⟨awaits.fits fits, (literal _).wrapped _ _⟩
  | word awaits word isTerm =>
      have termFits := primitive.fits_of_isTerm (mentions word) isTerm
      exact ⟨awaits.fits fits, termFits.wrapped _ _⟩
  | unary awaits punctuation isUnary => exact awaits.fits fits

theorem good_of_yields {value : Value} (fits : phase.Fits named coupling.good)
    (yields : phase.Yields value) : coupling.good value := by
  cases yields with
  | statement last => exact fits
  | named name => exact primitive.closed.void
  | block value location => exact fits

end Fitting

theorem finish (next : Option Token) {phase : Phase} (fits : phase.Fits named coupling.good) :
    coupling.Carries (Eval.finish settings next phase) (Eval.finish other next phase)
      coupling.good := by
  intro first second related
  rcases Eval.exists_yields_or_operator_or_unfinished settings first next phase with
    ⟨value, yields⟩ | ⟨pending, term, rfl⟩ | ⟨failure, unfinished⟩
  · rw [Eval.finish_of_yields yields, Eval.finish_of_yields yields]
    exact .pure ⟨primitive.good_of_yields fits yields, related⟩
  · exact primitive.operations.collapse fits.1 fits.2 first second related
  · exact .failing (Eval.finish_of_unfinished unfinished)
      (Eval.finish_of_unfinished (primitive.unfinished related unfinished))
      ⟨primitive.fails unfinished.not_tooDeep, related⟩

theorem readToken (enclosure : Enclosure) {token : Token} (mentions : token.Mentions named)
    {phase : Phase} (fits : phase.Fits named coupling.good) :
    coupling.Carries (Eval.readToken settings enclosure token phase)
      (Eval.readToken other enclosure token phase) (Phase.Fits named coupling.good) := by
  intro first second related
  rcases Eval.exists_does settings first enclosure token phase with ⟨deed, does⟩
  apply Eval.EnsuresBoth.congr does.run_eq (primitive.does related mentions fits does).run_eq
  cases does with
  | turns leads => exact .pure ⟨primitive.fits_of_leads mentions fits leads, related⟩
  | refuses refuses => exact ⟨rfl, primitive.fails refuses.not_tooDeep, related⟩
  | pushes offers stands =>
      rcases primitive.fits_of_offers fits offers with ⟨pendingFits, termFits⟩
      refine Carries.bind (primitive.operations.pushOperator _ _ pendingFits termFits) ?_
        _ _ related
      exact fun pushed pushedFits => .pure pushedFits
  | declares keyword identifier =>
      have isNamed : named token.text := mentions (Token.kind_of_isIdentifier identifier)
      refine Carries.bind (primitive.declare isNamed _) ?_ _ _ related
      exact fun _ _ => .pure isNamed
  | concludes separator =>
      refine Carries.bind (primitive.operations.collapse fits.1 fits.2) ?_ _ _ related
      intro _ _
      exact (primitive.endExpression enclosure).bind fun _ _ => .pure primitive.closed.void

theorem beforeBracket (enclosure : Enclosure) (opener : Token) {phase : Phase}
    (fits : phase.Fits named coupling.good) :
    coupling.Carries (Eval.beforeBracket settings enclosure opener phase)
      (Eval.beforeBracket other enclosure opener phase)
      fun before => Pending.Fits named coupling.good before.1 := by
  intro first second related
  rcases Eval.exists_awaits_or_bars settings first enclosure opener phase with
    ⟨pending, unary, awaits⟩ | ⟨failure, bars⟩
  · rw [Eval.beforeBracket_of_awaits awaits, Eval.beforeBracket_of_awaits awaits]
    exact .pure ⟨awaits.fits fits, related⟩
  · exact .failing bars.run_eq (primitive.bars related fits bars).run_eq
      ⟨primitive.fails bars.not_tooDeep, related⟩

theorem afterBracket (bracket : Bracket) {pending : List Pending}
    (pendingFits : Pending.Fits named coupling.good pending) (unary : List Token) (value : Value)
    (good : coupling.good value) (location : Location) :
    coupling.Carries (Eval.afterBracket settings bracket pending unary value location)
      (Eval.afterBracket other bracket pending unary value location)
      (Phase.Fits named coupling.good) := by
  intro first second related
  have valueFits : (Term.value value location).Fits named coupling.good := good
  apply Eval.EnsuresBoth.congr (Eval.afterBracket_eq _ _ _ _ _ _ _)
    (Eval.afterBracket_eq _ _ _ _ _ _ _)
  rw [primitive.site_eq related]
  refine ⟨rfl, ?_, related⟩
  simp only [Phase.closing]
  split
  · exact good
  · exact ⟨pendingFits, valueFits.wrapped _ _⟩

end Primitive

/-- Moving on, opening and closing brackets, and entering and leaving blocks keep it, too. -/
structure Bracketed (coupling : Coupling σ τ) (named : String → Prop) (settings : Settings σ)
    (other : Settings τ) : Prop extends coupling.Primitive named settings other where
  advance : coupling.Carries Eval.advance Eval.advance fun _ => True
  openGroup : ∀ bracket location,
    coupling.Carries (Eval.openGroup settings bracket location)
      (Eval.openGroup other bracket location) fun _ => True
  closeGroup : ∀ next,
    coupling.Carries (Eval.closeGroup next) (Eval.closeGroup next) fun _ => True
  enterBlock : ∀ location,
    coupling.Carries (Eval.enterBlock settings location) (Eval.enterBlock other location)
      fun _ => True
  exitBlock : ∀ location,
    coupling.Carries (Eval.exitBlock settings location) (Eval.exitBlock other location)
      fun _ => True

namespace Bracketed

/-- Reading a part of a program carries the coupling, wherever the part stands. -/
def Reads (coupling : Coupling σ τ) (named : String → Prop) (settings : Settings σ)
    (other : Settings τ) (forest : Forest) : Prop :=
  ∀ enclosure phase, Phase.Fits named coupling.good phase →
    coupling.Carries (Eval.read settings enclosure forest phase)
      (Eval.read other enclosure forest phase) (Phase.Fits named coupling.good)

variable {coupling : Coupling σ τ} {named : String → Prop} {settings : Settings σ}
  {other : Settings τ} (bracketed : coupling.Bracketed named settings other)

include bracketed

theorem contents {inner : Forest} (reads : Reads coupling named settings other inner)
    (enclosure : Enclosure) {phase : Phase} (fits : phase.Fits named coupling.good)
    (closer : Option Token) :
    coupling.Carries (Eval.contents settings enclosure phase inner closer)
      (Eval.contents other enclosure phase inner closer) coupling.good := by
  apply (reads enclosure phase fits).bind
  intro last lastFits
  apply (bracketed.finish closer lastFits).bind
  intro value good
  apply (bracketed.closeGroup closer).bind
  intro _ _
  exact .pure good

theorem enclosed {inner : Forest} (reads : Reads coupling named settings other inner)
    (location : Location) (group : Group) (closer : Option Token) (bracket : Bracket) :
    coupling.Carries (Eval.enclosed settings location group inner closer bracket)
      (Eval.enclosed other location group inner closer bracket) coupling.good := by
  cases bracket with
  | round =>
      have noOperands : (Phase.operand [] []).Fits named coupling.good := Pending.fits_nil
      exact bracketed.contents reads _ noOperands closer
  | curly =>
      apply (bracketed.enterBlock location).bind
      intro _ _
      have noStatement : (Phase.statement .void).Fits named coupling.good := bracketed.closed.void
      apply (bracketed.contents reads .statements noStatement closer).bind
      intro value good
      apply (bracketed.exitBlock location).bind
      intro _ _
      exact .pure good

theorem read {forest : Forest} (mentions : ∀ token ∈ forest.tokens, token.Mentions named) :
    Reads coupling named settings other forest := by
  induction forest with
  | nil =>
      intro enclosure phase fits
      exact .pure fits
  | leaf token rest ih =>
      simp only [Forest.tokens, List.forall_mem_cons] at mentions
      intro enclosure phase fits
      simp only [Eval.read_leaf]
      apply bracketed.advance.bind
      intro _ _
      apply (bracketed.readToken enclosure mentions.1 fits).bind
      intro next nextFits
      exact ih mentions.2 enclosure next nextFits
  | nest bracket opener inner closer rest ihInner ihRest =>
      simp only [Forest.tokens, List.forall_mem_cons, List.forall_mem_append] at mentions
      intro enclosure phase fits
      simp only [Eval.read_nest]
      apply (bracketed.beforeBracket enclosure opener fits).bind
      rintro ⟨pending, unary⟩ pendingFits
      apply (bracketed.locate opener).bind
      intro location _
      apply bracketed.advance.bind
      intro _ _
      apply (bracketed.openGroup bracket location).bind
      intro group _
      apply (bracketed.enclosed (ihInner mentions.2.1) location group closer bracket).bind
      intro value good
      apply (bracketed.afterBracket bracket pendingFits unary value good location).bind
      intro next nextFits
      exact ihRest mentions.2.2.2 enclosure next nextFits

theorem statements {forest : Forest}
    (mentions : ∀ token ∈ forest.tokens, token.Mentions named) :
    coupling.Carries (Eval.statements settings forest) (Eval.statements other forest)
      coupling.good := by
  apply (bracketed.read mentions .statements (.statement .void) bracketed.closed.void).bind
  intro last fits
  exact bracketed.finish none fits

/-- Evaluating tokens carries the coupling, whether brackets match or not. -/
theorem evaluate {tokens : List Token} (mentions : ∀ token ∈ tokens, token.Mentions named) :
    coupling.Carries (Eval.evaluate settings tokens) (Eval.evaluate other tokens)
      coupling.good := by
  simp only [Eval.evaluate_eq]
  cases found : Forest.ofTokens tokens with
  | ok forest =>
      rw [← (Forest.ofTokens_eq_ok_iff.mp found).2] at mentions
      exact bracketed.statements mentions
  | error token => exact bracketed.fail_at token

end Bracketed

end Coupling

end BlockCalc
