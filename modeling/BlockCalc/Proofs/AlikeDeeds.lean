import BlockCalc.Proofs.Alike
import BlockCalc.Proofs.Deeds

/-!
# The same deeds at other places

What a token does in a phase does not depend on where anything stands. So in sessions with the same
bindings alike tokens do the same in alike phases, up to places: each way to do something is one at
the other place as well.
-/

namespace BlockCalc

variable {σ τ : Type}

theorem Term.Alike.wrapped {term other : Term} (alike : term.Alike other)
    {unary others : List Token} (alikeUnary : unary.Forall₂ Token.Alike others)
    (site otherSite : Token → Location) :
    (term.wrapped site unary).Alike (other.wrapped otherSite others) := by
  induction alikeUnary generalizing term other with
  | nil => exact alike
  | cons alikeToken _ ih =>
      rcases alikeToken with ⟨start, rfl⟩
      simp only [Term.wrapped, Token.unary?_moved]
      split
      · exact ih (.unary _ _ _ alike)
      · exact ih alike

theorem Enclosure.Alike.eq_statements_iff {enclosure other : Enclosure}
    (alike : enclosure.Alike other) : enclosure = .statements ↔ other = .statements := by
  cases alike <;> simp

/-- Alike groups are cut off for the same reason. -/
theorem Group.cause_cut_eq {group other : Group} (same : group.bracket = other.bracket) :
    group.cut.cause = other.cut.cause := by
  simp only [cut, same]

theorem Enclosure.Alike.exists_group {enclosure other : Enclosure} {group : Group}
    (alike : enclosure.Alike other) (inside : enclosure = .parenthesis group) :
    ∃ otherGroup, other = .parenthesis otherGroup ∧ group.cut.cause = otherGroup.cut.cause := by
  subst inside
  cases alike with
  | parenthesis same => exact ⟨_, rfl, Group.cause_cut_eq same⟩

theorem Phase.Alike.closing {pending others : List Pending}
    (alikePending : pending.Forall₂ Pending.Alike others) {unary otherUnary : List Token}
    (alikeUnary : unary.Forall₂ Token.Alike otherUnary) (site otherSite : Token → Location)
    (bracket : Bracket) (value : Value) (location other : Location) :
    (Phase.closing site bracket pending unary value location).Alike
      (Phase.closing otherSite bracket others otherUnary value other) := by
  have wrapped := (Term.Alike.value value location other).wrapped alikeUnary site otherSite
  cases bracket with
  | round => exact .operator alikePending wrapped
  | curly =>
      cases alikePending with
      | cons alikeTop alikeOuter => exact .operator (.cons alikeTop alikeOuter) wrapped
      | nil =>
          cases alikeUnary with
          | cons _ _ => exact .operator .nil wrapped
          | nil => exact .block value location other

namespace Eval

/-- The deeds differ at most in the places that they speak of. -/
inductive Deed.Alike : Deed → Deed → Prop where
  | turn {next other : Phase} (alike : next.Alike other) : Alike (.turn next) (.turn other)
  | refuse {failure other : Failure} (same : failure.cause = other.cause) :
      Alike (.refuse failure) (.refuse other)
  | push (operator : BinaryOp) (location otherLocation : Location) {pending others : List Pending}
      (alikePending : pending.Forall₂ Pending.Alike others) {term other : Term}
      (alike : term.Alike other) :
      Alike (.push operator location pending term) (.push operator otherLocation others other)
  | declare {name other : Token} (alike : name.Alike other) (location otherLocation : Location) :
      Alike (.declare name location) (.declare other otherLocation)
  | conclude {enclosure otherEnclosure : Enclosure}
      (alikeEnclosures : enclosure.Alike otherEnclosure) {pending others : List Pending}
      (alikePending : pending.Forall₂ Pending.Alike others) {term other : Term}
      (alike : term.Alike other) :
      Alike (.conclude enclosure pending term) (.conclude otherEnclosure others other)

section Doing

variable {settings : Settings σ} {peer : Settings τ} {first : Session σ} {second : Session τ}
  {enclosure otherEnclosure : Enclosure} {token other : Token} {phase otherPhase : Phase}
  {upcoming : Option BinaryOp} {pending : List Pending} {unary : List Token} {term : Term}
  {failure : Failure}

section Words

variable (sameScope : first.scope = second.scope) (alike : token.Alike other)

include sameScope alike

theorem exists_alike_isTerm (isTerm : token.IsTerm settings first term) :
    ∃ otherTerm, other.IsTerm peer second otherTerm ∧ term.Alike otherTerm := by
  rcases alike with ⟨start, rfl⟩
  cases isTerm with
  | number starts written => exact ⟨_, .number starts written, .value _ _ _⟩
  | «variable» noNumber noLet visible =>
      exact ⟨_, .variable noNumber noLet (sameScope ▸ visible), .variable _ _ _⟩

theorem exists_alike_noTerm (noTerm : token.NoTerm settings first failure) :
    ∃ otherFailure, other.NoTerm peer second otherFailure ∧
      failure.cause = otherFailure.cause := by
  rcases alike with ⟨start, rfl⟩
  cases noTerm with
  | invalid starts written => exact ⟨_, .invalid starts written, rfl⟩
  | tooLong starts written => exact ⟨_, .tooLong starts written, rfl⟩
  | keyword noNumber isLet => exact ⟨_, .keyword noNumber isLet, rfl⟩
  | hidden noNumber noLet hidden => exact ⟨_, .hidden noNumber noLet (sameScope ▸ hidden), rfl⟩

end Words

section Phases

variable (alikePhases : phase.Alike otherPhase)

include alikePhases

theorem yields_of_alike {value : Value} (yields : phase.Yields value) :
    otherPhase.Yields value := by
  cases alikePhases with
  | statement last => exact yields
  | named alike =>
      cases yields
      exact .named _
  | block value location other =>
      cases yields
      exact .block value other
  | _ => cases yields

variable (peer second) in
theorem exists_alike_unfinished {next : Option Token} (otherNext : Option Token)
    (unfinished : phase.Unfinished settings first next failure) :
    ∃ otherFailure, otherPhase.Unfinished peer second otherNext otherFailure ∧
      failure.cause = otherFailure.cause := by
  cases alikePhases with
  | naming keyword other =>
      cases unfinished
      exact ⟨_, .naming other, rfl⟩
  | operand alikePending alikeUnary =>
      cases unfinished with
      | unary pending operator outer =>
          cases alikeUnary
          exact ⟨_, .unary _ _ _, rfl⟩
      | binary top outer =>
          cases alikeUnary
          cases alikePending
          exact ⟨_, .binary _ _, rfl⟩
      | nothing =>
          cases alikeUnary
          cases alikePending
          exact ⟨_, .nothing, rfl⟩
  | _ => cases unfinished

theorem exists_alike_offers (sameScope : first.scope = second.scope)
    (offers : phase.Offers settings first upcoming pending term) :
    ∃ others otherTerm, otherPhase.Offers peer second upcoming others otherTerm ∧
      pending.Forall₂ Pending.Alike others ∧ term.Alike otherTerm := by
  cases alikePhases with
  | operator alikePending alikeTerms =>
      cases offers
      exact ⟨_, _, .operator _ _, alikePending, alikeTerms⟩
  | named alikeNames =>
      cases offers with
      | named isTerm =>
          rcases exists_alike_isTerm sameScope alikeNames isTerm with
            ⟨otherTerm, otherIsTerm, alikeTerms⟩
          exact ⟨_, _, .named otherIsTerm, .nil, alikeTerms⟩
  | block value location other =>
      cases offers with
      | block _ _ follows => exact ⟨_, _, .block value other follows, .nil, .value _ _ _⟩
  | _ => cases offers

variable (alikeEnclosures : enclosure.Alike otherEnclosure)

include alikeEnclosures

theorem begins_iff_of_alike :
    phase.Begins enclosure upcoming ↔ otherPhase.Begins otherEnclosure upcoming := by
  constructor
  · intro begins
    cases begins with
    | first last =>
        cases alikePhases
        exact .first last
    | next value location inStatements noOperator =>
        cases alikePhases
        exact .next value _ (alikeEnclosures.eq_statements_iff.mp inStatements) noOperator
  · intro begins
    cases begins with
    | first last =>
        cases alikePhases
        exact .first last
    | next value location inStatements noOperator =>
        cases alikePhases
        exact .next value _ (alikeEnclosures.eq_statements_iff.mpr inStatements) noOperator

theorem exists_alike_awaits (awaits : phase.Awaits enclosure upcoming pending unary) :
    ∃ others otherUnary, otherPhase.Awaits otherEnclosure upcoming others otherUnary ∧
      pending.Forall₂ Pending.Alike others ∧ unary.Forall₂ Token.Alike otherUnary := by
  cases awaits with
  | begins begins =>
      have otherBegins := (begins_iff_of_alike alikePhases alikeEnclosures).mp begins
      exact ⟨[], [], .begins otherBegins, .nil, .nil⟩
  | operand pending unary =>
      cases alikePhases with
      | operand alikePending alikeUnary =>
          exact ⟨_, _, .operand _ _, alikePending, alikeUnary⟩

variable (sameScope : first.scope = second.scope) (alike : token.Alike other)

include sameScope alike

theorem exists_alike_leads {next : Phase}
    (leads : Leads settings first enclosure token phase next) :
    ∃ otherNext, Leads peer second otherEnclosure other otherPhase otherNext ∧
      next.Alike otherNext := by
  rcases id alike with ⟨start, rfl⟩
  cases leads with
  | ends separator yields inStatements =>
      have otherInStatements := alikeEnclosures.eq_statements_iff.mp inStatements
      exact ⟨_, .ends separator (yields_of_alike alikePhases yields) otherInStatements,
        .statement _⟩
  | keyword isLet begins =>
      have otherBegins := (begins_iff_of_alike alikePhases alikeEnclosures).mp begins
      exact ⟨_, .keyword isLet otherBegins, .naming _ _⟩
  | string awaits string =>
      rcases exists_alike_awaits alikePhases alikeEnclosures awaits with
        ⟨others, otherUnary, otherAwaits, alikePending, alikeUnary⟩
      exact ⟨_, .string otherAwaits string,
        .operator alikePending ((Term.Alike.value _ _ _).wrapped alikeUnary _ _)⟩
  | word awaits word isTerm =>
      rcases exists_alike_awaits alikePhases alikeEnclosures awaits with
        ⟨others, otherUnary, otherAwaits, alikePending, alikeUnary⟩
      rcases exists_alike_isTerm sameScope alike isTerm with ⟨otherTerm, otherIsTerm, alikeTerms⟩
      exact ⟨_, .word otherAwaits word otherIsTerm,
        .operator alikePending (alikeTerms.wrapped alikeUnary _ _)⟩
  | unary awaits punctuation isUnary =>
      rcases exists_alike_awaits alikePhases alikeEnclosures awaits with
        ⟨others, otherUnary, otherAwaits, alikePending, alikeUnary⟩
      exact ⟨_, .unary otherAwaits punctuation isUnary,
        .operand alikePending (.cons alike alikeUnary)⟩

theorem exists_alike_refuses
    (refuses : Refuses settings first enclosure token phase failure) :
    ∃ otherFailure, Refuses peer second otherEnclosure other otherPhase otherFailure ∧
      failure.cause = otherFailure.cause := by
  rcases id alike with ⟨start, rfl⟩
  cases refuses with
  | unfinished separator unfinished =>
      rcases exists_alike_unfinished peer second alikePhases (some (token.moved start)) unfinished
        with
        ⟨otherFailure, otherUnfinished, same⟩
      exact ⟨_, .unfinished separator otherUnfinished, same⟩
  | ends separator yields inside =>
      rcases alikeEnclosures.exists_group inside with ⟨otherGroup, otherInside, same⟩
      exact ⟨_, .ends separator (yields_of_alike alikePhases yields) otherInside, same⟩
  | behindBlock noSeparator noOperator inside =>
      rcases alikeEnclosures.exists_group inside with ⟨otherGroup, otherInside, same⟩
      cases alikePhases
      exact ⟨_, .behindBlock noSeparator noOperator otherInside, same⟩
  | unnamed noSeparator noName =>
      cases alikePhases
      exact ⟨_, .unnamed noSeparator noName, rfl⟩
  | word awaits word noKeyword noTerm =>
      rcases exists_alike_awaits alikePhases alikeEnclosures awaits with
        ⟨others, otherUnary, otherAwaits, _, _⟩
      rcases exists_alike_noTerm sameScope alike noTerm with ⟨otherFailure, otherNoTerm, same⟩
      exact ⟨_, .word otherAwaits word (fun begins =>
        noKeyword ((begins_iff_of_alike alikePhases alikeEnclosures).mpr begins)) otherNoTerm, same⟩
  | illegal awaits punctuation noUnary isOperator =>
      rcases exists_alike_awaits alikePhases alikeEnclosures awaits with
        ⟨others, otherUnary, otherAwaits, _, _⟩
      exact ⟨_, .illegal otherAwaits punctuation noUnary isOperator, rfl⟩
  | unknown awaits noSeparator punctuation noUnary noOperator =>
      rcases exists_alike_awaits alikePhases alikeEnclosures awaits with
        ⟨others, otherUnary, otherAwaits, _, _⟩
      exact ⟨_, .unknown otherAwaits noSeparator punctuation noUnary noOperator, rfl⟩
  | name noSeparator noTerm =>
      cases alikePhases with
      | named alikeNames =>
          rcases exists_alike_noTerm sameScope alikeNames noTerm with
            ⟨otherFailure, otherNoTerm, same⟩
          exact ⟨_, .name noSeparator otherNoTerm, same⟩
  | noOperator offers noSeparator noOperator =>
      rcases exists_alike_offers alikePhases sameScope offers with
        ⟨others, otherTerm, otherOffers, _, _⟩
      exact ⟨_, .noOperator otherOffers noSeparator noOperator, rfl⟩

variable (peer) in
/-- Alike tokens do alike things in alike phases. -/
theorem exists_alike_does {deed : Deed}
    (does : Does settings first enclosure token phase deed) :
    ∃ otherDeed, Does peer second otherEnclosure other otherPhase otherDeed ∧
      deed.Alike otherDeed := by
  rcases id alike with ⟨start, rfl⟩
  cases does with
  | turns leads =>
      rcases exists_alike_leads alikePhases alikeEnclosures sameScope alike leads with
        ⟨otherNext, otherLeads, alikeNext⟩
      exact ⟨_, .turns otherLeads, .turn alikeNext⟩
  | refuses refuses =>
      rcases exists_alike_refuses alikePhases alikeEnclosures sameScope alike refuses with
        ⟨otherFailure, otherRefuses, same⟩
      exact ⟨_, .refuses otherRefuses, .refuse same⟩
  | pushes offers stands =>
      rcases exists_alike_offers alikePhases sameScope offers with
        ⟨others, otherTerm, otherOffers, alikePending, alikeTerms⟩
      exact ⟨_, .pushes otherOffers stands, .push _ _ _ alikePending alikeTerms⟩
  | declares keyword identifier =>
      cases alikePhases
      exact ⟨_, .declares _ identifier, .declare alike _ _⟩
  | concludes separator =>
      cases alikePhases with
      | operator alikePending alikeTerms =>
          exact ⟨_, .concludes separator, .conclude alikeEnclosures alikePending alikeTerms⟩

variable (peer) in
theorem exists_alike_bars (bars : Bars settings first enclosure token phase failure) :
    ∃ otherFailure, Bars peer second otherEnclosure other otherPhase otherFailure ∧
      failure.cause = otherFailure.cause := by
  rcases alike with ⟨start, rfl⟩
  cases bars with
  | naming keyword =>
      cases alikePhases
      exact ⟨_, .naming _, rfl⟩
  | name noTerm =>
      cases alikePhases with
      | named alikeNames =>
          rcases exists_alike_noTerm sameScope alikeNames noTerm with
            ⟨otherFailure, otherNoTerm, same⟩
          exact ⟨_, .name otherNoTerm, same⟩
  | noOperator offers =>
      rcases exists_alike_offers alikePhases sameScope offers with
        ⟨others, otherTerm, otherOffers, _, _⟩
      exact ⟨_, .noOperator otherOffers, rfl⟩
  | behindBlock inside =>
      rcases alikeEnclosures.exists_group inside with ⟨otherGroup, otherInside, same⟩
      cases alikePhases
      exact ⟨_, .behindBlock otherInside, same⟩

end Phases

end Doing

end Eval

end BlockCalc
