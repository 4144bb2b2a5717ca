import BlockCalc.Proofs.BracketCheck
import BlockCalc.Proofs.Runs
import Mathlib.Data.List.Forall2

/-!
# Where failures and what waits are placed

Everything that an evaluation keeps while it reads, it keeps with the place of a token: operands
with the token at which they start, unary operators with the token right before what they apply to,
and pending operators with the first token of their run. A failure that can be handled is placed at
a token, too. Operators fail without a place and get it from what waits, so the one walk over all
actions shows both.
-/

namespace BlockCalc

variable {σ α β : Type}

/-- The tokens of an evaluation, in the text that places are shown in. -/
structure Buffer where
  fileName : String
  source : Source
  tokens : List Token

namespace Buffer

/-- Where a token of the buffer stands in the source. -/
def place (buffer : Buffer) (token : Token) : Location :=
  token.location buffer.fileName buffer.source

/-- The place is that of one of the tokens. -/
def Shows (buffer : Buffer) (location : Location) : Prop :=
  ∃ token ∈ buffer.tokens, location = buffer.place token

/-- The session has the text of the buffer, and all open brackets are placed at its tokens. -/
def Holds (buffer : Buffer) (session : Session σ) : Prop :=
  session.source = buffer.source ∧ ∀ group ∈ session.groups, buffer.Shows group.location

end Buffer

/-- In a session that has the text of the buffer, tokens stand where the buffer places them. -/
theorem Session.site_eq_place {buffer : Buffer} {settings : Settings σ} {session : Session σ}
    (sameSource : session.source = buffer.source)
    (sameFile : settings.fileName = buffer.fileName) : session.site settings = buffer.place := by
  funext token
  simp only [Session.site, Buffer.place, sameSource, sameFile]

/-- The tokens start with an operand, that is, with its unary operators and what follows them. -/
inductive Term.StandsAt (buffer : Buffer) : List Token → Term → Prop where
  | variable {token : Token} {rest : List Token} (name : String) :
      StandsAt buffer (token :: rest) (.variable name (buffer.place token))
  | value {token : Token} {rest : List Token} (value : Value) :
      StandsAt buffer (token :: rest) (.value value (buffer.place token))
  | unary {token : Token} {rest : List Token} {operator : UnaryOp} {operand : Term}
      (stands : token.unary? = some operator) (behind : StandsAt buffer rest operand) :
      StandsAt buffer (token :: rest) (.unary operator operand (buffer.place token))

/-- The operand starts at one of the tokens. -/
def Term.Placed (buffer : Buffer) (term : Term) : Prop :=
  ∃ behind, behind <:+ buffer.tokens ∧ term.StandsAt buffer behind

/-- The pending operator is that of a run, and placed where the run begins. -/
structure Pending.Placed (buffer : Buffer) (pending : Pending) (sign : Sign) : Prop where
  operator : pending.operator = sign.operator
  location : pending.location = buffer.place sign.token
  mem : sign.token ∈ buffer.tokens
  operands : ∀ term ∈ pending.operands, term.Placed buffer

/-- What waits are the runs that have begun, in their order. -/
def Stacked (buffer : Buffer) (pending : List Pending) (waiting : List Sign) : Prop :=
  List.Forall₂ (Pending.Placed buffer) pending waiting

/-- What has been read of a statement is what the tokens outline, and the other tokens are ahead. -/
inductive Phase.Placed (buffer : Buffer) (ahead : List Token) : Outline → Phase → Prop where
  | statement (last : Value) : Placed buffer ahead .statement (.statement last)
  | naming {keyword : Token} (mem : keyword ∈ buffer.tokens) :
      Placed buffer ahead .naming (.naming keyword)
  | named {name : Token} (mem : name ∈ buffer.tokens) :
      Placed buffer ahead .named (.named name)
  | operand {signs : List Sign} {pending : List Pending} {unary : List Token}
      (waits : Stacked buffer pending (runs signs))
      (before : unary.reverse ++ ahead <:+ buffer.tokens)
      (operators : ∀ token ∈ unary, token.unary?.isSome) :
      Placed buffer ahead (.operand signs unary) (.operand pending unary)
  | operator {signs : List Sign} {pending : List Pending} {term : Term}
      (waits : Stacked buffer pending (runs signs)) (placed : term.Placed buffer) :
      Placed buffer ahead (.operator signs) (.operator pending term)
  | block (value : Value) {location : Location} (shows : buffer.Shows location) :
      Placed buffer ahead .block (.block value location)

theorem Phase.Placed.nothing {buffer : Buffer} {ahead : List Token}
    (within : ahead <:+ buffer.tokens) :
    Placed buffer ahead (.operand [] []) (.operand [] []) :=
  .operand .nil within (by simp)

/-- What nothing has been read of yet holds statements, or is an expression. -/
def Enclosure.outline : Enclosure → Outline
  | .statements => .statement
  | .parenthesis _ => .operand [] []

/-- The bracket around what is read was opened at a token of the buffer. -/
def Enclosure.Placed (buffer : Buffer) : Enclosure → Prop
  | .statements => True
  | .parenthesis group => buffer.Shows group.location

theorem Buffer.Shows.parenthesis {buffer : Buffer} {location : Location}
    (shows : buffer.Shows location) {group : Group} (located : group.location = location) :
    Enclosure.Placed buffer (.parenthesis group) := by
  subst located
  exact shows

theorem Term.Placed.shows {buffer : Buffer} {term : Term} (placed : term.Placed buffer) :
    buffer.Shows term.location := by
  rcases placed with ⟨behind, suffix, stands⟩
  cases stands with
  | «variable» name => exact ⟨_, suffix.subset (by simp), rfl⟩
  | value value => exact ⟨_, suffix.subset (by simp), rfl⟩
  | unary stands behind => exact ⟨_, suffix.subset (by simp), rfl⟩

/-- A value is an operand wherever one of the tokens is. -/
theorem Buffer.Shows.placed {buffer : Buffer} {location : Location}
    (shows : buffer.Shows location) (value : Value) :
    Term.Placed buffer (.value value location) := by
  rcases shows with ⟨token, mem, rfl⟩
  rcases List.append_of_mem mem with ⟨before, rest, split⟩
  exact ⟨token :: rest, split ▸ List.suffix_append before _, .value value⟩

theorem Pending.Placed.push {buffer : Buffer} {pending : Pending} {sign : Sign}
    (placed : pending.Placed buffer sign) {term : Term} (termPlaced : term.Placed buffer) :
    (pending.push term).Placed buffer sign where
  operator := placed.operator
  location := placed.location
  mem := placed.mem
  operands := by
    rw [Pending.push, List.forall_mem_append]
    exact ⟨placed.operands, by simpa using termPlaced⟩

theorem Pending.Placed.shows {buffer : Buffer} {pending : Pending} {sign : Sign}
    (placed : pending.Placed buffer sign) : buffer.Shows pending.location :=
  ⟨sign.token, placed.mem, placed.location⟩

/-- The cause can be handled. -/
def Cause.IsHandled : Cause → Prop
  | .unhandled _ => False
  | _ => True

/-- The phase is behind an operand of an expression, where operators can give way. -/
def Phase.HasOperand : Phase → Prop
  | .operator _ _ => True
  | _ => False

namespace Buffer

/-- If the failure has a place, it is that of one of the tokens. -/
def Admits (buffer : Buffer) (failure : Failure) : Prop :=
  failure.cause.IsHandled → ∀ location, failure.location = some location → buffer.Shows location

/-- The failure has the place of one of the tokens. -/
def Locates (buffer : Buffer) (failure : Failure) : Prop :=
  failure.cause.IsHandled → ∃ location, failure.location = some location ∧ buffer.Shows location

/-- The failure has the place of one of the tokens, and no operator is the reason for it. -/
structure Blames (buffer : Buffer) (failure : Failure) : Prop where
  locates : buffer.Locates failure
  noOperation : ¬failure.cause.IsOperational False

/-- The failure has the place of one of the tokens, and an operator is the reason in some phases. -/
structure BlamesIn (buffer : Buffer) (phase : Phase) (failure : Failure) : Prop where
  locates : buffer.Locates failure
  behindOperand : failure.cause.IsOperational False → phase.HasOperand

theorem BlamesIn.of_blames {buffer : Buffer} {phase : Phase} {failure : Failure}
    (blames : buffer.Blames failure) : buffer.BlamesIn phase failure :=
  ⟨blames.locates, fun operational => absurd operational blames.noOperation⟩

theorem Admits.locate {buffer : Buffer} {failure : Failure} (admits : buffer.Admits failure)
    {location : Location} (shows : buffer.Shows location) :
    buffer.Locates (failure.locate location) := by
  intro handled
  cases located : failure.location with
  | none => exact ⟨location, by simp [Failure.locate, located], shows⟩
  | some own => exact ⟨own, by simp [Failure.locate, located], admits handled own located⟩

theorem Locates.admits {buffer : Buffer} {failure : Failure} (locates : buffer.Locates failure) :
    buffer.Admits failure := by
  intro handled location located
  rcases locates handled with ⟨own, isOwn, shows⟩
  cases located.symm.trans isOwn
  exact shows

end Buffer

namespace Eval

/-- In the text of a buffer, the action gives a good result or a failure that is to blame. -/
def Tells (buffer : Buffer) (blame : Failure → Prop) (good : α → Prop) (action : Eval σ α) : Prop :=
  ∀ session, buffer.Holds session →
    Ensures action session (fun result after => buffer.Holds after ∧ good result)
      (fun failure _ => blame failure)

namespace Tells

variable {buffer : Buffer} {blame : Failure → Prop} {good : α → Prop}

theorem pure {result : α} (holds : good result) :
    Tells buffer blame good (Pure.pure result : Eval σ α) :=
  fun _ same => ⟨same, holds⟩

theorem fail {cause : Cause} {location : Option Location} (blames : blame { cause, location }) :
    Tells buffer blame good (Eval.fail cause location : Eval σ α) :=
  fun _ _ => blames

theorem bind {next : α → Eval σ β} {results : β → Prop} {action : Eval σ α}
    (start : Tells buffer blame good action)
    (continues : ∀ result, good result → Tells buffer blame results (next result)) :
    Tells buffer blame results (action >>= next) := by
  intro session same
  exact (start session same).bind fun result after ⟨still, holds⟩ =>
    continues result holds after still

theorem get_bind {next : Session σ → Eval σ α}
    (tells : ∀ session, Tells buffer blame good (next session)) :
    Tells buffer blame good (get >>= next) :=
  fun session same => tells session session same

theorem mono {weaker : Failure → Prop} {action : Eval σ α} (tells : Tells buffer blame good action)
    (weakens : ∀ failure, blame failure → weaker failure) : Tells buffer weaker good action := by
  intro session same
  exact (tells session same).mono (fun _ _ holds => holds) fun failure _ => weakens failure

/-- What gets a place from outside need not have one of its own. -/
theorem locating {location : Location} {action : Eval σ α} (shows : buffer.Shows location)
    (tells : Tells buffer buffer.Admits good action) :
    Tells buffer buffer.Locates good (Eval.locating location action) := by
  intro session same
  rw [ensures_locating]
  exact (tells session same).mono (fun _ _ holds => holds) fun failure _ admits =>
    admits.locate shows

theorem ofExcept (outcome : Except Cause α) :
    Tells buffer buffer.Admits (fun _ => True) (Eval.ofExcept outcome : Eval σ α) := by
  cases outcome with
  | ok result => exact .pure trivial
  | error cause => exact .fail fun _ _ impossible => nomatch impossible

theorem setScope (scope : Scope) :
    Tells buffer blame (fun _ => True) (Eval.setScope scope : Eval σ Unit) :=
  fun _ same => ⟨same, trivial⟩

theorem advance : Tells buffer blame (fun _ => True) (Eval.advance : Eval σ Unit) :=
  fun _ same => ⟨same, trivial⟩

theorem locate_bind {settings : Settings σ} (sameFile : settings.fileName = buffer.fileName)
    {token : Token} {next : Location → Eval σ α}
    (tells : Tells buffer blame good (next (buffer.place token))) :
    Tells buffer blame good (locate settings token >>= next) := by
  intro session same
  rw [ensures_bind, ensures_locate, same.1, sameFile]
  exact tells session same

/-- A failure at one of the tokens, for which no operator is the reason. -/
theorem fail_at {location : Location} (shows : buffer.Shows location) {cause : Cause}
    (noOperation : ¬cause.IsOperational False := by exact not_false) :
    Tells buffer buffer.Blames good (Eval.fail cause (some location) : Eval σ α) :=
  .fail ⟨fun _ => ⟨location, rfl, shows⟩, noOperation⟩

/-- A failure for which the evaluator is to blame. -/
theorem fail_unhandled {incident : Incident} {location : Option Location} :
    Tells buffer buffer.Blames good (Eval.fail (.unhandled incident) location : Eval σ α) :=
  .fail ⟨fun impossible => impossible.elim, not_false⟩

end Tells

section Evaluation

variable {settings : Settings σ} {buffer : Buffer}

theorem tells_resolve {term : Term} (placed : term.Placed buffer) :
    Tells buffer buffer.Locates (fun _ => True) (resolve term : Eval σ Value) := by
  rcases placed with ⟨behind, suffix, stands⟩
  induction stands with
  | «variable» name =>
      apply Tells.get_bind
      intro session
      exact .locating ⟨_, suffix.subset (by simp), rfl⟩ (.ofExcept _)
  | value value => exact .pure trivial
  | unary stands behind ih =>
      apply (ih ((List.suffix_cons _ _).trans suffix)).bind
      intro value _
      exact .locating ⟨_, suffix.subset (by simp), rfl⟩ (.ofExcept _)

theorem tells_combine (operator : BinaryOp) (value : Value) {terms : List Term}
    (placed : ∀ term ∈ terms, term.Placed buffer) :
    Tells buffer buffer.Admits (fun _ => True) (combine operator value terms : Eval σ Value) := by
  induction terms generalizing value with
  | nil => exact .pure trivial
  | cons term rest ih =>
      rcases List.forall_mem_cons.mp placed with ⟨termPlaced, restPlaced⟩
      simp only [combine]
      split
      · exact .pure trivial
      · apply ((tells_resolve termPlaced).mono fun _ => Buffer.Locates.admits).bind
        intro right _
        apply (Tells.ofExcept _).bind
        intro combined _
        exact ih combined restPlaced

variable (quiet : settings.hooks = .none)

include quiet

theorem tells_record {blame : Failure → Prop} (step : Step) (location : Option Location) :
    Tells buffer blame (fun _ => True) (record settings step location) := by
  intro session same
  simp only [Ensures, record_logged quiet]
  exact ⟨same, trivial⟩

theorem tells_assignAll (operator : BinaryOp) (right : Value) {targets : List Term}
    (placed : ∀ term ∈ targets, term.Placed buffer) :
    Tells buffer buffer.Admits (fun _ => True)
      (assignAll settings operator right targets) := by
  induction targets generalizing right with
  | nil => exact .pure trivial
  | cons target rest ih =>
      rcases List.forall_mem_cons.mp placed with ⟨targetPlaced, restPlaced⟩
      have noVariable : Tells buffer buffer.Admits (fun _ => True)
          (fail (.invalidExpression .targetNotVariable) (some target.location) : Eval σ Unit) :=
        .fail fun _ _ isTarget => Option.some.inj isTarget ▸ targetPlaced.shows
      cases target with
      | «variable» name location =>
          simp only [assignAll, store_eq, bind_assoc]
          apply Tells.get_bind
          intro session
          apply (Tells.ofExcept _).bind
          rintro ⟨value, changed⟩ _
          apply (Tells.setScope changed).bind
          intro _ _
          apply (tells_record quiet _ _).bind
          intro _ _
          exact ih value restPlaced
      | value value location => exact noVariable
      | unary unary operand location => exact noVariable

theorem tells_reduce {pending : Pending} {sign : Sign} (placed : pending.Placed buffer sign) :
    Tells buffer buffer.Locates (fun _ => True) (reduce settings pending) := by
  have shows := placed.shows
  have operands := placed.operands
  rcases pending with ⟨operator, _ | ⟨first, _ | ⟨second, rest⟩⟩, location⟩
  · exact .fail fun impossible => impossible.elim
  · exact .fail fun impossible => impossible.elim
  · rcases List.forall_mem_cons.mp operands with ⟨firstPlaced, othersPlaced⟩
    apply (tells_record quiet _ _).bind
    intro _ _
    apply Tells.locating shows
    split
    · split
      · rename_i last targets reversed
        have allPlaced : ∀ term ∈ last :: targets, term.Placed buffer := by
          intro term mem
          rw [← reversed, List.mem_reverse] at mem
          exact operands term mem
        rcases List.forall_mem_cons.mp allPlaced with ⟨lastPlaced, targetsPlaced⟩
        apply ((tells_resolve lastPlaced).mono fun _ => Buffer.Locates.admits).bind
        intro value _
        exact (tells_assignAll quiet operator value targetsPlaced).bind fun _ _ => .pure trivial
      · exact .pure trivial
    · apply ((tells_resolve firstPlaced).mono fun _ => Buffer.Locates.admits).bind
      intro value _
      exact tells_combine operator value othersPlaced

theorem tells_collapse {pending : List Pending} {waiting : List Sign}
    (waits : Stacked buffer pending waiting) {term : Term} (placed : term.Placed buffer) :
    Tells buffer buffer.Locates (fun _ => True) (collapse settings pending term) := by
  induction waits generalizing term with
  | nil => exact tells_resolve placed
  | cons topPlaced _ ih =>
      apply (tells_reduce quiet (topPlaced.push placed)).bind
      intro value _
      exact ih (topPlaced.shows.placed value)

/-- Putting an operator on the stack joins its run or begins one, as its sign does. -/
theorem tells_pushOperator {sign : Sign} (mem : sign.token ∈ buffer.tokens)
    {pending : List Pending} {waiting : List Sign} (waits : Stacked buffer pending waiting)
    {term : Term} (placed : term.Placed buffer) :
    Tells buffer buffer.Locates (fun pushed => Stacked buffer pushed (joinRun sign waiting))
      (pushOperator settings sign.operator (buffer.place sign.token) pending term) := by
  have begins (term : Term) (placed : term.Placed buffer) :
      Pending.Placed buffer ⟨sign.operator, [term], buffer.place sign.token⟩ sign :=
    ⟨rfl, rfl, mem, by simpa using placed⟩
  induction waits generalizing term with
  | nil => exact .pure (.cons (begins term placed) .nil)
  | @cons top run outer others topPlaced outerWaits ih =>
      simp only [pushOperator, joinRun, topPlaced.operator]
      split
      · exact .pure (.cons (topPlaced.push placed) outerWaits)
      · split
        · apply (tells_reduce quiet (topPlaced.push placed)).bind
          intro value _
          exact ih (topPlaced.shows.placed value)
        · exact .pure (.cons (begins term placed) (.cons topPlaced outerWaits))

end Evaluation

end Eval

end BlockCalc
