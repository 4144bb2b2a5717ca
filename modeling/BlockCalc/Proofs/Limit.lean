import BlockCalc.Proofs.Quiet
import BlockCalc.Proofs.Twins
import BlockCalc.Proofs.Unmatched
import Mathlib.Data.List.Infix

/-!
# The nesting limit

The nesting limit decides nothing but how deep brackets may nest. An evaluation that succeeds under
some limit does just the same under any other one that its brackets keep to. Under one that they do
not keep to, it does the same up to the first opener that is nested too deep, and fails there.

Both evaluations are followed through the same tokens. What has been read of them says how many
brackets are open, and so which opener is the first one that does not fit. Whether it is ever
reached is decided by the evaluation that succeeds: it comes to all tokens.
-/

namespace BlockCalc

variable {σ α β : Type}

/-- How many openers wait at most where tokens are read, if some wait already. -/
def mostWaiting (waiting : List (Bracket × Token)) : List Token → Nat
  | [] => waiting.length
  | token :: rest => max waiting.length (mostWaiting (pairOff waiting token) rest)

/-- How deep the brackets of tokens are nested. -/
def nestingDepth (tokens : List Token) : Nat :=
  mostWaiting [] tokens

section Waiting

variable {levels : Nat} {waiting : List (Bracket × Token)} {tokens more before : List Token}
  {opener : Token}

theorem length_le_mostWaiting (waiting : List (Bracket × Token)) (tokens : List Token) :
    waiting.length ≤ mostWaiting waiting tokens := by
  cases tokens with
  | nil => exact le_rfl
  | cons token rest => exact le_max_left _ _

theorem length_foldl_le_mostWaiting (waiting : List (Bracket × Token)) (tokens : List Token) :
    (tokens.foldl pairOff waiting).length ≤ mostWaiting waiting tokens := by
  induction tokens generalizing waiting with
  | nil => exact le_rfl
  | cons token rest ih => exact (ih (pairOff waiting token)).trans (le_max_right _ _)

theorem mostWaiting_append (waiting : List (Bracket × Token)) (tokens more : List Token) :
    mostWaiting waiting (tokens ++ more) =
      max (mostWaiting waiting tokens) (mostWaiting (tokens.foldl pairOff waiting) more) := by
  induction tokens generalizing waiting with
  | nil => exact (max_eq_right (length_le_mostWaiting waiting more)).symm
  | cons token rest ih => simp only [List.cons_append, mostWaiting, List.foldl_cons, ih, max_assoc]

theorem pairOff_of_opens {bracket : Bracket} (opens : opener.opens? = some bracket)
    (waiting : List (Bracket × Token)) :
    pairOff waiting opener = (bracket, opener) :: waiting := by
  simp only [pairOff, opens]

theorem pairOff_of_no_bracket {token : Token} (noOpener : token.opens? = none)
    (noCloser : token.closes? = none) (waiting : List (Bracket × Token)) :
    pairOff waiting token = waiting := by
  simp only [pairOff, noOpener, noCloser]

theorem pairOff_of_closes {closer : Token} {bracket : Bracket}
    (closes : closer.closes? = some bracket) (waiting : List (Bracket × Token)) :
    pairOff waiting closer = waiting.tail := by
  simp only [pairOff, Token.opens?_eq_none_of_closes? closes, closes]

/-- The opener is the first one of some tokens that is nested too deep. -/
structure TooDeep (levels : Nat) (waiting : List (Bracket × Token)) (tokens before : List Token)
    (opener : Token) : Prop where
  stands : before ++ [opener] <+: tokens
  opens : opener.opens?.isSome
  fits : mostWaiting waiting before ≤ levels
  exceeds : levels < (((before ++ [opener]).foldl pairOff waiting)).length

theorem TooDeep.here {bracket : Bracket} (opens : opener.opens? = some bracket)
    (full : waiting.length = levels) : TooDeep levels waiting [opener] [] opener where
  stands := List.prefix_rfl
  opens := by simp [opens]
  fits := full.le
  exceeds := by simp [pairOff_of_opens opens, full]

theorem TooDeep.append_right (tooDeep : TooDeep levels waiting tokens before opener)
    (more : List Token) : TooDeep levels waiting (tokens ++ more) before opener where
  stands := tooDeep.stands.trans (List.prefix_append tokens more)
  opens := tooDeep.opens
  fits := tooDeep.fits
  exceeds := tooDeep.exceeds

theorem TooDeep.append_left (fits : mostWaiting waiting tokens ≤ levels)
    (tooDeep : TooDeep levels (tokens.foldl pairOff waiting) more before opener) :
    TooDeep levels waiting (tokens ++ more) (tokens ++ before) opener where
  stands := by
    rw [List.append_assoc]
    exact (List.prefix_append_right_inj tokens).mpr tooDeep.stands
  opens := tooDeep.opens
  fits := by
    rw [mostWaiting_append]
    exact max_le fits tooDeep.fits
  exceeds := by
    rw [List.append_assoc, List.foldl_append]
    exact tooDeep.exceeds

/-- Tokens with an opener that is nested too deep do not fit. -/
theorem TooDeep.lt_mostWaiting (tooDeep : TooDeep levels waiting tokens before opener) :
    levels < mostWaiting waiting tokens := by
  rcases tooDeep.stands with ⟨after, rfl⟩
  rw [mostWaiting_append]
  exact tooDeep.exceeds.trans_le
    ((length_le_mostWaiting _ after).trans (le_max_right _ _))

end Waiting

/-- The settings with another nesting limit. -/
def Settings.withNesting (settings : Settings σ) (nesting : NestingLimit) : Settings σ :=
  { settings with nesting }

@[simp]
theorem Settings.nesting_withNesting (settings : Settings σ) (nesting : NestingLimit) :
    (settings.withNesting nesting).nesting = nesting :=
  rfl

/-- The later session is further on in the same text, where some groups are open. -/
structure Session.Onward (groups : List Group) (before after : Session σ) : Prop where
  groups : after.groups = groups
  source : after.source = before.source
  log : before.log.entries.toList <+: after.log.entries.toList

theorem Session.Onward.refl (session : Session σ) : session.Onward session.groups session :=
  ⟨rfl, rfl, List.prefix_rfl⟩

theorem Session.Onward.trans {before middle after : Session σ} {groups later : List Group}
    (first : before.Onward groups middle) (second : middle.Onward later after) :
    before.Onward later after where
  groups := second.groups
  source := second.source.trans first.source
  log := first.log.trans second.log

theorem Session.onward_logged (session : Session σ) (scope : Scope) (entry : Entry) :
    session.Onward session.groups (({ session with scope } : Session σ).logged entry) :=
  ⟨rfl, rfl, by simp [Session.logged, StepLog.push]⟩

namespace Eval

/--
How an action that gives a result under one limit, and leaves a session, ends under another one: it
does the same if the tokens fit, and else fails at the first opener that is nested too deep.
-/
inductive Ends (limits : Settings σ) (source : Source) (waiting : List (Bracket × Token))
    (tokens : List Token) (groups : List Group) (result : α) (after : Session σ)
    (outcome : EStateM.Result Failure (Session σ) α) : Prop where
  | same (depth : (tokens.foldl pairOff waiting).length = groups.length)
      (fits : mostWaiting waiting tokens ≤ limits.nesting.levels)
      (ran : outcome = .ok result after)
  | stopped {before : List Token} {opener : Token} {stopped : Session σ}
      (tooDeep : TooDeep limits.nesting.levels waiting tokens before opener)
      (ran : outcome = .error
        { cause := .invalidExpression (.tooDeep limits.nesting.levels)
          location := some (opener.location limits.fileName source) } stopped)
      (log : stopped.log.entries.toList <+: after.log.entries.toList)

/--
Where the first action gives a result, it reads tokens and leaves some groups open. The second one
is the same action under another limit.
-/
def Limited (limits : Settings σ) (tokens : List Token) (groups : List Group)
    (session : Session σ) (left right : Eval σ α) : Prop :=
  ∀ result after, left session = .ok result after →
    session.Onward groups after ∧
      ∀ waiting, waiting.length = session.groups.length →
        waiting.length ≤ limits.nesting.levels →
          Ends limits session.source waiting tokens groups result after (right session)

/-- Where the first action gives a result, so does the second one, and no bracket is read. -/
def Agrees (left right : Eval σ α) : Prop :=
  ∀ session result after, left session = .ok result after →
    session.Onward session.groups after ∧ right session = .ok result after

variable {limits : Settings σ} {tokens more : List Token} {groups : List Group}
  {session : Session σ} {left right : Eval σ α}

theorem Agrees.limited (agrees : Agrees left right) (session : Session σ)
    (still : ∀ waiting, tokens.foldl pairOff waiting = waiting)
    (flat : ∀ waiting, mostWaiting waiting tokens = waiting.length) :
    Limited limits tokens session.groups session left right := by
  intro result after ran
  rcases agrees session result after ran with ⟨onward, otherRan⟩
  refine ⟨onward, fun waiting depth within => ?_⟩
  exact .same (by rw [still, depth]) (by rw [flat]; exact within) otherRan

theorem Limited.bind {next otherNext : α → Eval σ β} {middleGroups : List Group}
    (start : Limited limits tokens middleGroups session left right)
    (continues : ∀ result middle, session.Onward middleGroups middle →
      Limited limits more groups middle (next result) (otherNext result)) :
    Limited limits (tokens ++ more) groups session (left >>= next) (right >>= otherNext) := by
  intro last finished ran
  rcases exists_of_bind_ok ran with ⟨result, middle, began, rest⟩
  rcases start result middle began with ⟨onward, ends⟩
  rcases continues result middle onward last finished rest with ⟨further, restEnds⟩
  refine ⟨onward.trans further, fun waiting depth within => ?_⟩
  cases ends waiting depth within with
  | stopped tooDeep otherRan log =>
      exact .stopped (tooDeep.append_right more) (bind_of_error otherRan) (log.trans further.log)
  | same middleDepth fits otherRan =>
      have middleWithin : (tokens.foldl pairOff waiting).length ≤ limits.nesting.levels :=
        (length_foldl_le_mostWaiting waiting tokens).trans fits
      cases restEnds _ (middleDepth.trans (congrArg List.length onward.groups.symm))
          middleWithin with
      | same lastDepth restFits restRan =>
          refine .same ?_ ?_ ((bind_of_ok otherRan).trans restRan)
          · rw [List.foldl_append, lastDepth]
          · rw [mostWaiting_append]
            exact max_le fits restFits
      | stopped tooDeep restRan log =>
          rw [onward.source] at restRan
          exact .stopped (tooDeep.append_left fits) ((bind_of_ok otherRan).trans restRan) log

theorem Agrees.bind {next otherNext : α → Eval σ β} (agrees : Agrees left right)
    (continues : ∀ result middle, session.Onward session.groups middle →
      Limited limits tokens groups middle (next result) (otherNext result)) :
    Limited limits tokens groups session (left >>= next) (right >>= otherNext) := by
  have still : Limited limits [] session.groups session left right :=
    agrees.limited session (fun _ => rfl) fun _ => rfl
  exact still.bind continues

theorem Limited.bind_agrees {next otherNext : α → Eval σ β}
    (start : Limited limits tokens groups session left right)
    (agrees : ∀ result, Agrees (next result) (otherNext result)) :
    Limited limits tokens groups session (left >>= next) (right >>= otherNext) := by
  rw [← List.append_nil tokens]
  apply start.bind
  rintro result middle ⟨rfl, _, _⟩
  exact (agrees result).limited middle (fun _ => rfl) fun _ => rfl

theorem Limited.locate_bind {settings : Settings σ} {nesting : NestingLimit} {token : Token}
    {next otherNext : Location → Eval σ β}
    (limited : Limited limits tokens groups session
      (next (token.location settings.fileName session.source))
      (otherNext (token.location settings.fileName session.source))) :
    Limited limits tokens groups session (locate settings token >>= next)
      (locate (settings.withNesting nesting) token >>= otherNext) :=
  limited

theorem agrees_advance : Agrees (advance : Eval σ Unit) advance := by
  intro session result after ran
  cases ran
  exact ⟨⟨rfl, rfl, List.prefix_rfl⟩, rfl⟩

end Eval

namespace Coupling

variable {settings : Settings σ} {start : Session σ}

/-- An evaluation and the same one under another limit, which stays in some brackets. -/
def onward (start : Session σ) : Coupling σ σ where
  related first second := first = second ∧ start.Onward start.groups first

theorem carriesFrom_record_onward (quiet : settings.hooks = .none) (nesting : NestingLimit)
    {first second : Session σ} (related : (onward start).related first second) (scope : Scope)
    (step : Step) (location : Option Location) :
    (onward start).CarriesFrom { first with scope } { second with scope }
      (Eval.record settings step location)
      (Eval.record (settings.withNesting nesting) step location) fun _ => True := by
  rcases related with ⟨rfl, further⟩
  apply Eval.EnsuresBoth.self_iff.mpr
  simp only [Eval.Ensures, Eval.record_logged quiet]
  refine ⟨trivial, rfl, further.trans ?_⟩
  rw [← further.groups]
  exact first.onward_logged scope _

theorem lawful_onward (quiet : settings.hooks = .none) (nesting : NestingLimit) :
    (onward start).Lawful settings (settings.withNesting nesting) where
  twin := by
    rintro session _ ⟨rfl, _⟩
    exact ⟨rfl, rfl, rfl, rfl⟩
  sameFile := rfl
  fails _ := trivial
  closed := Value.closed_true
  goodRead _ _ := trivial
  step related _ _ location := carriesFrom_record_onward quiet nesting related _ _ location

theorem carries_enterBlock_onward (quiet : settings.hooks = .none) (nesting : NestingLimit)
    (location : Location) :
    (onward start).Carries (Eval.enterBlock settings location)
      (Eval.enterBlock (settings.withNesting nesting) location) fun _ => True := by
  have otherQuiet : (settings.withNesting nesting).hooks = .none := quiet
  rw [Eval.enterBlock_of_quiet quiet, Eval.enterBlock_of_quiet otherQuiet]
  apply Carries.get_bind
  rintro session _ ⟨rfl, further⟩
  exact .setScope (carriesFrom_record_onward quiet nesting ⟨rfl, further⟩ _ _ _)

theorem carries_exitBlock_onward (quiet : settings.hooks = .none) (nesting : NestingLimit)
    (location : Location) :
    (onward start).Carries (Eval.exitBlock settings location)
      (Eval.exitBlock (settings.withNesting nesting) location) fun _ => True := by
  have otherQuiet : (settings.withNesting nesting).hooks = .none := quiet
  rw [Eval.exitBlock_of_quiet quiet, Eval.exitBlock_of_quiet otherQuiet]
  apply Carries.get_bind
  rintro session _ ⟨rfl, further⟩
  cases session.scope.exit with
  | error cause => exact .fail ⟨trivial, rfl, further⟩
  | ok left =>
      simp only [Eval.ofExcept_ok, pure_bind]
      exact .setScope (carriesFrom_record_onward quiet nesting ⟨rfl, further⟩ _ _ _)

theorem agrees_of_carries {left right : Eval σ α} {results : Session σ → α → Prop}
    (carries : ∀ start, (onward start).Carries left right (results start)) :
    Eval.Agrees left right := by
  intro session result after ran
  rcases (carries session session session ⟨rfl, .refl session⟩).of_ok ran with
    ⟨_, otherRan, _, rfl, onward⟩
  exact ⟨onward, otherRan⟩

end Coupling

namespace Eval

variable {settings : Settings σ} {nesting : NestingLimit} {session : Session σ} {forest : Forest}

theorem limited_openGroup {opener : Token} {bracket : Bracket}
    (opens : opener.opens? = some bracket) {location : Location}
    (located : location = opener.location settings.fileName session.source) :
    Limited (settings.withNesting nesting) [opener]
      ({ bracket, location, depth := session.groups.length + 1 } :: session.groups) session
      (openGroup settings bracket location)
      (openGroup (settings.withNesting nesting) bracket location) := by
  intro group after ran
  have opened (settings : Settings σ) : openGroup settings bracket location session =
      if settings.nesting.levels ≤ session.groups.length then
        .error
          { cause := .invalidExpression (.tooDeep settings.nesting.levels), location } session
      else
        let group := { bracket, location, depth := session.groups.length + 1 }
        .ok group { session with groups := group :: session.groups } := by
    have started : openGroup settings bracket location session =
        (if settings.nesting.levels ≤ session.groups.length then
          fail (.invalidExpression (.tooDeep settings.nesting.levels)) location
        else do
          let group := { bracket, location, depth := session.groups.length + 1 }
          set { session with groups := group :: session.groups }
          return group : Eval σ Group) session := rfl
    rw [started]
    split <;> rfl
  subst located
  rw [opened] at ran ⊢
  split at ran
  · cases ran
  · cases ran
    refine ⟨⟨rfl, rfl, List.prefix_rfl⟩, fun waiting depth within => ?_⟩
    by_cases full : (settings.withNesting nesting).nesting.levels ≤ session.groups.length
    · rw [if_pos full]
      exact .stopped (.here opens (by omega)) rfl List.prefix_rfl
    · rw [if_neg full]
      refine .same ?_ ?_ rfl
      · simp [pairOff_of_opens opens, depth]
      · simp only [mostWaiting, pairOff_of_opens opens, List.length_cons]
        omega

theorem limited_closeGroup (closer : Option Token) {group : Group} {outer : List Group}
    (opened : session.groups = group :: outer) (value : Value) :
    Limited (settings.withNesting nesting) closer.toList outer session
      (do closeGroup closer; return value) (do closeGroup closer; return value) := by
  intro result after ran
  rcases exists_of_bind_ok ran with ⟨_, closed, ranClose, ranEnd⟩
  cases ranEnd
  rcases exists_partner_of_closeGroup opened ranClose with ⟨⟨partner, rfl, closes⟩, rfl⟩
  refine ⟨⟨rfl, rfl, List.prefix_rfl⟩, fun waiting depth within => ?_⟩
  refine .same ?_ ?_ ran
  · simp [pairOff_of_closes closes, depth, opened]
  · simpa [mostWaiting, pairOff_of_closes closes] using within

section Reading

variable (quiet : settings.hooks = .none)

include quiet

theorem agrees_readToken (enclosure : Enclosure) (token : Token) (phase : Phase) :
    Agrees (readToken settings enclosure token phase)
      (readToken (settings.withNesting nesting) enclosure token phase) :=
  Coupling.agrees_of_carries fun _ =>
    (Coupling.lawful_onward quiet nesting).primitive.readToken enclosure token.mentions_true
      phase.fits_true

theorem agrees_finish (next : Option Token) (phase : Phase) :
    Agrees (finish settings next phase) (finish (settings.withNesting nesting) next phase) :=
  Coupling.agrees_of_carries fun _ =>
    (Coupling.lawful_onward quiet nesting).primitive.finish next phase.fits_true

theorem agrees_beforeBracket (enclosure : Enclosure) (opener : Token) (phase : Phase) :
    Agrees (beforeBracket settings enclosure opener phase)
      (beforeBracket (settings.withNesting nesting) enclosure opener phase) :=
  Coupling.agrees_of_carries fun _ =>
    (Coupling.lawful_onward quiet nesting).primitive.beforeBracket enclosure opener phase.fits_true

theorem agrees_afterBracket (bracket : Bracket) (pending : List Pending) (unary : List Token)
    (value : Value) (location : Location) :
    Agrees (afterBracket settings bracket pending unary value location)
      (afterBracket (settings.withNesting nesting) bracket pending unary value location) :=
  Coupling.agrees_of_carries fun _ =>
    (Coupling.lawful_onward quiet nesting).primitive.afterBracket bracket
      (Pending.fits_true pending) unary value trivial location

theorem agrees_enterBlock (location : Location) :
    Agrees (enterBlock settings location) (enterBlock (settings.withNesting nesting) location) :=
  Coupling.agrees_of_carries fun _ => Coupling.carries_enterBlock_onward quiet nesting location

theorem agrees_exitBlock (location : Location) (value : Value) :
    Agrees (do exitBlock settings location; return value)
      (do exitBlock (settings.withNesting nesting) location; return value) := by
  have carries (start : Session σ) : (Coupling.onward start).Carries
      (do exitBlock settings location; return value)
      (do exitBlock (settings.withNesting nesting) location; return value) fun _ => True :=
    (Coupling.carries_exitBlock_onward quiet nesting location).bind fun _ _ => .pure trivial
  exact Coupling.agrees_of_carries carries

omit quiet

/-- Reading a part of a program under another limit is the same up to the limit. -/
def ReadsLimited (settings : Settings σ) (nesting : NestingLimit) (forest : Forest) : Prop :=
  ∀ enclosure phase session, Limited (settings.withNesting nesting) forest.tokens session.groups
    session (read settings enclosure forest phase)
    (read (settings.withNesting nesting) enclosure forest phase)

include quiet

theorem ReadsLimited.contents {inner : Forest} (reads : ReadsLimited settings nesting inner)
    (closer : Option Token) (enclosure : Enclosure) (phase : Phase) {session : Session σ}
    {group : Group} {outer : List Group} (opened : session.groups = group :: outer) :
    Limited (settings.withNesting nesting) (inner.tokens ++ closer.toList) outer session
      (contents settings enclosure phase inner closer)
      (contents (settings.withNesting nesting) enclosure phase inner closer) := by
  apply (reads enclosure phase session).bind
  intro last middle onward
  apply (agrees_finish quiet closer last).bind
  intro value finished further
  exact limited_closeGroup closer (further.groups.trans (onward.groups.trans opened)) value

theorem ReadsLimited.enclosed {inner : Forest} (reads : ReadsLimited settings nesting inner)
    (closer : Option Token) (bracket : Bracket) (location : Location) (group : Group)
    {session : Session σ} {top : Group} {outer : List Group}
    (opened : session.groups = top :: outer) :
    Limited (settings.withNesting nesting) (inner.tokens ++ closer.toList) outer session
      (enclosed settings location group inner closer bracket)
      (enclosed (settings.withNesting nesting) location group inner closer bracket) := by
  cases bracket with
  | round => exact reads.contents quiet closer _ _ opened
  | curly =>
      apply (agrees_enterBlock quiet location).bind
      intro _ entered onward
      apply (reads.contents quiet closer _ _ (onward.groups.trans opened)).bind_agrees
      intro value
      exact agrees_exitBlock quiet location value

theorem readsLimited_nest {bracket : Bracket} {opener : Token} {closer : Option Token}
    {inner rest : Forest} (opens : opener.opens? = some bracket)
    (readsInner : ReadsLimited settings nesting inner)
    (readsRest : ReadsLimited settings nesting rest) :
    ReadsLimited settings nesting (.nest bracket opener inner closer rest) := by
  intro enclosure phase session
  have tokens : (Forest.nest bracket opener inner closer rest).tokens =
      [opener] ++ ((inner.tokens ++ closer.toList) ++ rest.tokens) := by simp [Forest.tokens]
  rw [read_nest, read_nest, tokens]
  apply (agrees_beforeBracket quiet enclosure opener phase).bind
  rintro ⟨pending, unary⟩ before ⟨sameGroups, _, _⟩
  apply Limited.locate_bind
  apply agrees_advance.bind
  rintro _ advanced ⟨stillGroups, sameSource, _⟩
  apply (limited_openGroup opens (by rw [sameSource])).bind
  intro group opened openedOnward
  apply (readsInner.enclosed quiet closer bracket _ group openedOnward.groups).bind
  intro value closed closedOnward
  apply (agrees_afterBracket quiet bracket pending unary value _).bind
  rintro next middle ⟨lastGroups, _, _⟩
  have groups : middle.groups = session.groups := by
    rw [lastGroups, closedOnward.groups, stillGroups, sameGroups]
  rw [← groups]
  exact readsRest enclosure next middle

theorem readsLimited {forest : Forest} (matched : forest.Matched) :
    ReadsLimited settings nesting forest := by
  induction forest with
  | nil =>
      intro enclosure phase session
      have agrees : Agrees (pure phase : Eval σ Phase) (pure phase) := by
        rintro session _ _ ⟨⟩
        exact ⟨.refl session, rfl⟩
      exact agrees.limited session (fun _ => rfl) fun _ => rfl
  | leaf token rest ih =>
      rcases matched with ⟨noOpener, noCloser, restMatched⟩
      have still := pairOff_of_no_bracket noOpener noCloser
      intro enclosure phase session
      have advances : Limited (settings.withNesting nesting) [token] session.groups session
          advance advance :=
        agrees_advance.limited session still (by simp [mostWaiting, still])
      rw [read_leaf, read_leaf]
      apply advances.bind
      rintro _ middle ⟨groups, _, _⟩
      rw [← groups]
      apply (agrees_readToken quiet enclosure token phase).bind
      rintro next later ⟨laterGroups, _, _⟩
      rw [← laterGroups]
      exact ih restMatched enclosure next later
  | nest bracket opener inner closer rest ihInner ihRest =>
      exact readsLimited_nest quiet matched.1 (ihInner matched.2.2.1) (ihRest matched.2.2.2)

theorem limited_statements (nesting : NestingLimit) {forest : Forest} (matched : forest.Matched)
    (session : Session σ) :
    Limited (settings.withNesting nesting) forest.tokens session.groups session
      (statements settings forest) (statements (settings.withNesting nesting) forest) := by
  apply (readsLimited quiet matched .statements (.statement .void) session).bind_agrees
  intro last
  exact agrees_finish quiet none last

/-- A program that succeeds under one limit is followed under another one. -/
theorem ends_program (nesting : NestingLimit) {session finished : Session σ} {value : Value}
    (start : session.groups = []) (ran : program settings session = .ok value finished) :
    Ends (settings.withNesting nesting) session.source [] session.program [] value finished
      (program (settings.withNesting nesting) session) := by
  have otherQuiet : (settings.withNesting nesting).hooks = .none := quiet
  cases found : Forest.ofTokens session.program with
  | error token =>
      rcases program_of_blamed quiet found with ⟨location, failed⟩
      rw [failed] at ran
      cases ran
  | ok forest =>
      rcases Forest.ofTokens_eq_ok_iff.mp found with ⟨matched, written⟩
      rw [program_of_found quiet found] at ran
      rw [program_of_found otherQuiet found, ← written]
      have limited := limited_statements quiet nesting matched (session.begun settings)
      have begunGroups : (session.begun settings).groups = [] := start
      rw [begunGroups] at limited
      exact (limited value finished ran).2 [] (by simp [begunGroups]) (Nat.zero_le _)

end Reading

end Eval

namespace Session

variable {settings : Settings σ} {session ended : Session σ} {text : String} {value : Value}

/--
The nesting limit only limits the nesting. An evaluation that succeeds under one limit succeeds
under another one if and only if its brackets are nested no deeper than that, and then has the same
value and leaves the same session. Otherwise it fails at the first opener that is nested deeper, and
has logged what the other one had logged when it came there.
-/
theorem parse_within_limit (quiet : settings.hooks = .none)
    (succeeds : session.parse settings text = (.ok value, ended)) (nesting : NestingLimit) :
    let tokens := (session.feed text).lexer.tokens
    let limited := session.parse (settings.withNesting nesting) text
    (limited.1.isOk = true ↔ nestingDepth tokens ≤ nesting.levels) ∧
      (nestingDepth tokens ≤ nesting.levels → limited = (.ok value, ended)) ∧
      (nesting.levels < nestingDepth tokens →
        ∃ before opener failure after, limited = (.error failure, after) ∧
          before ++ [opener] <+: tokens ∧ opener.opens?.isSome ∧
          nestingDepth before ≤ nesting.levels ∧
          nesting.levels < (unmatched (before ++ [opener])).length ∧
          failure.cause = .invalidExpression (.tooDeep nesting.levels) ∧
          failure.cause.message =
            "Invalid expression: Nesting deeper than " ++ nesting.levels.repr ++ " levels." ∧
          failure.location =
            some (opener.location settings.fileName (session.feed text).source) ∧
          after.log.entries.toList <+: ended.log.entries.toList) := by
  intro tokens limited
  have otherQuiet : (settings.withNesting nesting).hooks = .none := quiet
  simp only [limited]
  rw [parse_of_quiet quiet] at succeeds
  rw [parse_of_quiet otherQuiet]
  cases ran : Eval.program settings (session.feed text).prepare with
  | error failure finished => simp [ran] at succeeds
  | ok result finished =>
      simp only [ran, Prod.mk.injEq, Except.ok.injEq] at succeeds
      rcases succeeds with ⟨rfl, rfl⟩
      have start : (session.feed text).prepare.groups = [] := rfl
      cases Eval.ends_program quiet nesting start ran with
      | same depth fits otherRan =>
          have within : nestingDepth tokens ≤ nesting.levels := fits
          rw [otherRan]
          refine ⟨⟨fun _ => within, fun _ => rfl⟩, fun _ => rfl, fun exceeds => ?_⟩
          omega
      | @stopped before opener stopped tooDeep otherRan log =>
          have exceeds : nesting.levels < nestingDepth tokens := tooDeep.lt_mostWaiting
          rw [otherRan]
          refine ⟨⟨fun impossible => ?_, fun within => ?_⟩, fun within => ?_, fun _ => ?_⟩
          · cases impossible
          · omega
          · omega
          · exact ⟨before, opener, _, _, rfl, tooDeep.stands, tooDeep.opens, tooDeep.fits,
              tooDeep.exceeds, rfl, rfl, rfl, log⟩

/-- An outcome of which the value is known has come with a session. -/
theorem exists_of_toOption {ε α β : Type} {outcome : Except ε α × β} {result : α}
    (is : outcome.1.toOption = some result) : ∃ after, outcome = (.ok result, after) := by
  rcases outcome with ⟨failure | value, after⟩
  · cases is
  · cases is
    exact ⟨after, rfl⟩

theorem parse_within_limit_of_two :
    let settings : Settings Unit := {}
    let session : Session Unit := fresh ()
    let text := "\x7b let a = (2); (a * (a + 1)) \x7d"
    nestingDepth (session.feed text).lexer.tokens = 3 ∧
      ∃ ended failure after, session.parse settings text = (.ok (.integer 6), ended) ∧
        session.parse (settings.withNesting { levels := 2 }) text = (.error failure, after) ∧
        failure.cause = .invalidExpression (.tooDeep 2) ∧
        after.log.entries.toList <+: ended.log.entries.toList := by
  intro settings session text
  have run : nestingDepth (session.feed text).lexer.tokens = 3 ∧
      (session.parse settings text).1.toOption = some (.integer 6) := by decide +kernel
  rcases run with ⟨depth, result⟩
  rcases exists_of_toOption result with ⟨ended, parsed⟩
  have quiet : settings.hooks = .none := rfl
  have exceeds : 2 < nestingDepth (session.feed text).lexer.tokens := by omega
  rcases (parse_within_limit quiet parsed { levels := 2 }).2.2 exceeds with
    ⟨_, _, failure, after, failed, _, _, _, _, cause, _, _, log⟩
  exact ⟨depth, ended, failure, after, parsed, failed, cause, log⟩

end Session

end BlockCalc
