import BlockCalc.Proofs.Carrying
import BlockCalc.Proofs.Limit

/-!
# Reading elsewhere

A part of a program does the same wherever it stands: how many tokens have been read before it and
which brackets are open around it changes nothing, as long as its own brackets fit into what the
nesting limit leaves. The depth of its forest says how many levels these take.
-/

namespace BlockCalc

variable {σ α β : Type}

/-- Where brackets match, as many openers wait more as the forest is deep. -/
theorem Forest.Matched.mostWaiting_eq {forest : Forest} (matched : forest.Matched)
    (waiting : List (Bracket × Token)) :
    mostWaiting waiting forest.tokens = waiting.length + forest.depth := by
  induction forest generalizing waiting with
  | nil => rfl
  | leaf token rest ih =>
      rcases matched with ⟨opens, closes, restMatched⟩
      simp only [tokens, mostWaiting, pairOff_of_no_bracket opens closes, ih restMatched, depth]
      omega
  | nest bracket opener inner closer rest ihInner ih =>
      rcases matched with ⟨opens, ⟨closer, rfl, closes⟩, innerMatched, restMatched⟩
      simp only [tokens, mostWaiting, mostWaiting_append, pairOff_of_opens opens,
        innerMatched.foldl_pairOff, Option.toList_some, List.cons_append, List.nil_append,
        pairOff_of_closes closes, ihInner innerMatched, List.tail_cons, ih restMatched,
        List.length_cons, depth]
      omega

theorem Forest.Matched.nestingDepth_eq {forest : Forest} (matched : forest.Matched) :
    nestingDepth forest.tokens = forest.depth :=
  (matched.mostWaiting_eq []).trans (Nat.zero_add _)

/-- The brackets that are open, innermost first, and where they were opened. -/
def Session.openers (session : Session σ) : List (Bracket × Location) :=
  session.groups.map fun group => (group.bracket, group.location)

/--
The sessions are at different places of a program, where these brackets are open in the first one
and in the second one, and differ in nothing else that an evaluation looks at.
-/
structure Session.Elsewhere (opened : List (Bracket × Location) × List (Bracket × Location))
    (first second : Session σ) : Prop where
  workspace : second.toWorkspace = first.toWorkspace
  log : second.log = first.log
  opened : (first.openers, second.openers) = opened

theorem Session.Elsewhere.scope {opened : List (Bracket × Location) × List (Bracket × Location)}
    {first second : Session σ} (places : first.Elsewhere opened second) :
    second.scope = first.scope :=
  congrArg Workspace.scope places.workspace

namespace Coupling

/-- An evaluation and the same one at another place. -/
def elsewhere (opened : List (Bracket × Location) × List (Bracket × Location)) :
    Coupling σ σ where
  related first second := first.Elsewhere opened second

variable {settings : Settings σ}
  {opened : List (Bracket × Location) × List (Bracket × Location)}

theorem carries_record_elsewhere (quiet : settings.hooks = .none) (step : Step)
    (location : Option Location) :
    (elsewhere opened).Carries (Eval.record settings step location)
      (Eval.record settings step location) fun _ => True := by
  intro first second places
  simp only [CarriesFrom, Eval.EnsuresBoth, Eval.Ensures, Eval.record_logged quiet]
  have sameEntry : second.entry settings step location = first.entry settings step location := by
    simp only [Session.entry, places.log, places.scope]
  refine ⟨trivial, trivial, places.workspace, ?_, places.opened⟩
  simp only [Session.logged, places.log, sameEntry]

/-- Changing the scope and recording that is the same elsewhere. -/
theorem carries_become_elsewhere (quiet : settings.hooks = .none) (scope : Scope) (step : Step)
    (location : Option Location) :
    (elsewhere opened).Carries
      (do Eval.setScope scope; Eval.record settings step location)
      (do Eval.setScope scope; Eval.record settings step location) fun _ => True := by
  intro first second places
  apply Eval.EnsuresBoth.setScope
  apply carries_record_elsewhere quiet
  refine ⟨?_, places.log, places.opened⟩
  change { second.toWorkspace with scope } = { first.toWorkspace with scope }
  rw [places.workspace]

theorem carries_ofExcept_elsewhere (outcome : Except Cause α) :
    (elsewhere opened : Coupling σ σ).Carries (Eval.ofExcept outcome)
      (Eval.ofExcept outcome) fun _ => True :=
  .ofExcept (fun _ _ => trivial) fun _ _ => trivial

theorem primitive_elsewhere (quiet : settings.hooks = .none) :
    (elsewhere opened).Primitive (fun _ => True) settings settings where
  sameFile := rfl
  sameSource places := congrArg Workspace.source places.workspace
  sameLast places := by rw [places.log]
  sameHas places _ := by rw [places.scope]
  sameRead places _ := by rw [places.scope]
  fails _ := trivial
  closed := Value.closed_true
  goodRead _ _ := trivial
  reduceStep operator operands location := carries_record_elsewhere quiet _ location
  declare _ location := by
    apply Carries.get_bind
    intro first second places
    rw [places.scope]
    exact carries_become_elsewhere quiet _ _ _ first second places
  assign operator _ _ _ _ _ location := by
    apply Carries.get_bind
    intro first second places
    rw [places.scope]
    exact (carries_ofExcept_elsewhere _).bind
      (fun _ _ => carries_become_elsewhere quiet _ _ _) first second places

theorem carries_enterBlock_elsewhere (quiet : settings.hooks = .none) (location : Location) :
    (elsewhere opened).Carries (Eval.enterBlock settings location)
      (Eval.enterBlock settings location) fun _ => True := by
  rw [Eval.enterBlock_of_quiet quiet]
  apply Carries.get_bind
  intro first second places
  rw [places.scope]
  exact carries_become_elsewhere quiet _ _ _ first second places

theorem carries_exitBlock_elsewhere (quiet : settings.hooks = .none) (location : Location) :
    (elsewhere opened).Carries (Eval.exitBlock settings location)
      (Eval.exitBlock settings location) fun _ => True := by
  rw [Eval.exitBlock_of_quiet quiet]
  apply Carries.get_bind
  intro first second places
  rw [places.scope]
  exact (carries_ofExcept_elsewhere _).bind
    (fun _ _ => carries_become_elsewhere quiet _ _ _) first second places

end Coupling

namespace Eval

variable {settings : Settings σ}

/--
At two places the actions do the same, and lead to places where these brackets are open. Where they
fail, the bindings are the same.
-/
def SameElsewhere (before after : List (Bracket × Location) × List (Bracket × Location))
    (action other : Eval σ α) : Prop :=
  ∀ first second : Session σ, first.Elsewhere before second →
    EnsuresBoth action other first second
      (fun _ finished finishedOther => finished.Elsewhere after finishedOther)
      (fun _ stopped stoppedOther => stoppedOther.scope = stopped.scope)

namespace SameElsewhere

variable {opened before middle after : List (Bracket × Location) × List (Bracket × Location)}
  {action other : Eval σ α}

theorem of_carries {results : α → Prop}
    (carries : (Coupling.elsewhere opened).Carries action other results) :
    SameElsewhere opened opened action other := by
  intro first second places
  exact (carries first second places).mono (fun _ _ _ ⟨_, still⟩ => still)
    fun _ _ _ ⟨_, still⟩ => Session.Elsewhere.scope still

theorem pure (result : α) :
    SameElsewhere opened opened (Pure.pure result : Eval σ α) (Pure.pure result) :=
  fun _ _ places => .pure places

theorem bind {next otherNext : α → Eval σ β} (start : SameElsewhere before middle action other)
    (continues : ∀ result, SameElsewhere middle after (next result) (otherNext result)) :
    SameElsewhere before after (action >>= next) (other >>= otherNext) := by
  intro first second places
  apply (start first second places).bind
  intro result finished finishedOther still
  exact continues result finished finishedOther still

theorem advance : SameElsewhere opened opened (Eval.advance : Eval σ Unit) Eval.advance :=
  fun _ _ places => ⟨rfl, places.workspace, places.log, places.opened⟩

end SameElsewhere

theorem openGroup_of_room {bracket : Bracket} {location : Location} {session : Session σ}
    (room : session.groups.length < settings.nesting.levels) :
    openGroup settings bracket location session =
      .ok { bracket, location, depth := session.groups.length + 1 }
        { session with
          groups := { bracket, location, depth := session.groups.length + 1 } ::
            session.groups } := by
  have opens : openGroup settings bracket location session =
      (if settings.nesting.levels ≤ session.groups.length then
        fail (.invalidExpression (.tooDeep settings.nesting.levels)) (some location)
      else do
        let group := { bracket, location, depth := session.groups.length + 1 }
        set { session with groups := group :: session.groups }
        return group : Eval σ Group) session := rfl
  rw [opens, if_neg room.not_ge]
  rfl

/-- The depth of a group is shown in reports and decides nothing. -/
theorem read_group (group : Group) (depth : Nat) (forest : Forest) (phase : Phase) :
    read settings (.parenthesis { group with depth }) forest phase =
      read settings (.parenthesis group) forest phase := by
  induction forest generalizing phase with
  | nil => rfl
  | leaf token rest ih =>
      simp only [read_leaf, ih]
      rfl
  | nest bracket opener inner closer rest _ ih =>
      simp only [read_nest, ih]
      rfl

theorem enclosed_group (location : Location) (group : Group) (depth : Nat) (inner : Forest)
    (closer : Option Token) (bracket : Bracket) :
    enclosed settings location { group with depth } inner closer bracket =
      enclosed settings location group inner closer bracket := by
  cases bracket with
  | round => simp only [enclosed, contents, read_group]
  | curly => rfl

variable {opener : Bracket × Location} {opened otherOpened : List (Bracket × Location)}

theorem sameElsewhere_closeGroup (closer : Option Token) :
    SameElsewhere (opener :: opened, opener :: otherOpened) (opened, otherOpened)
      (closeGroup closer : Eval σ Unit) (closeGroup closer) := by
  intro first second places
  rcases Prod.mk.injEq .. ▸ places.opened with ⟨opens, otherOpens⟩
  rcases List.map_eq_cons_iff.mp opens with ⟨group, outer, groups, isOpener, rfl⟩
  rcases List.map_eq_cons_iff.mp otherOpens with
    ⟨otherGroup, otherOuter, otherGroups, sameOpener, rfl⟩
  rcases Prod.mk.injEq .. ▸ sameOpener.trans isOpener.symm with ⟨sameBracket, sameLocation⟩
  simp only [EnsuresBoth, Ensures, closeGroup_eq groups, closeGroup_eq otherGroups, sameBracket,
    sameLocation]
  by_cases closes : closer.bind Token.closes? = some group.bracket
  · simp only [if_pos closes]
    exact ⟨trivial, places.workspace, places.log, rfl⟩
  · simp only [if_neg closes]
    exact ⟨trivial, places.scope⟩

section Quiet

variable (quiet : settings.hooks = .none)

include quiet

theorem sameElsewhere_contents {enclosure : Enclosure} {phase : Phase} {inner : Forest}
    (reads : SameElsewhere (opener :: opened, opener :: otherOpened)
      (opener :: opened, opener :: otherOpened) (read settings enclosure inner phase)
      (read settings enclosure inner phase))
    (closer : Option Token) :
    SameElsewhere (opener :: opened, opener :: otherOpened) (opened, otherOpened)
      (contents settings enclosure phase inner closer)
      (contents settings enclosure phase inner closer) := by
  apply reads.bind
  intro last
  apply (SameElsewhere.of_carries
    ((Coupling.primitive_elsewhere quiet).finish closer last.fits_true)).bind
  intro value
  apply (sameElsewhere_closeGroup closer).bind
  intro _
  exact .pure value

theorem sameElsewhere_enclosed {inner : Forest}
    (reads : ∀ enclosure phase, SameElsewhere (opener :: opened, opener :: otherOpened)
      (opener :: opened, opener :: otherOpened) (read settings enclosure inner phase)
      (read settings enclosure inner phase))
    (location : Location) (group : Group) (closer : Option Token) (bracket : Bracket) :
    SameElsewhere (opener :: opened, opener :: otherOpened) (opened, otherOpened)
      (enclosed settings location group inner closer bracket)
      (enclosed settings location group inner closer bracket) := by
  cases bracket with
  | round => exact sameElsewhere_contents quiet (reads _ _) closer
  | curly =>
      apply (SameElsewhere.of_carries (Coupling.carries_enterBlock_elsewhere quiet location)).bind
      intro _
      apply (sameElsewhere_contents quiet (reads _ _) closer).bind
      intro value
      apply (SameElsewhere.of_carries (Coupling.carries_exitBlock_elsewhere quiet location)).bind
      intro _
      exact .pure value

/-- Where there is room for one more bracket, a bracket that is read is read elsewhere, too. -/
theorem sameElsewhere_bracket {inner : Forest} (bracket : Bracket) (location : Location)
    (reads : ∀ enclosure phase, SameElsewhere
      ((bracket, location) :: opened, (bracket, location) :: otherOpened)
      ((bracket, location) :: opened, (bracket, location) :: otherOpened)
      (read settings enclosure inner phase) (read settings enclosure inner phase))
    (room : opened.length < settings.nesting.levels)
    (otherRoom : otherOpened.length < settings.nesting.levels) (closer : Option Token) :
    SameElsewhere (opened, otherOpened) (opened, otherOpened)
      (do
        let group ← openGroup settings bracket location
        enclosed settings location group inner closer bracket)
      (do
        let group ← openGroup settings bracket location
        enclosed settings location group inner closer bracket) := by
  intro first second places
  rcases Prod.mk.injEq .. ▸ places.opened with ⟨rfl, rfl⟩
  rw [Session.openers, List.length_map] at room otherRoom
  let group : Group := { bracket, location, depth := first.groups.length + 1 }
  let otherGroup : Group := { bracket, location, depth := second.groups.length + 1 }
  have entered : Session.Elsewhere
      ((bracket, location) :: first.openers, (bracket, location) :: second.openers)
      { first with groups := group :: first.groups }
      { second with groups := otherGroup :: second.groups } :=
    ⟨places.workspace, places.log, rfl⟩
  have inside := sameElsewhere_enclosed quiet reads location group closer bracket _ _ entered
  have sameGroup : enclosed settings location otherGroup inner closer bracket =
      enclosed settings location group inner closer bracket :=
    enclosed_group location group otherGroup.depth inner closer bracket
  rw [EnsuresBoth, Ensures, bind_of_ok (openGroup_of_room room)]
  simp only [Ensures, bind_of_ok (openGroup_of_room otherRoom)]
  exact sameGroup ▸ inside

/-- A part of a program is read elsewhere as it is read here, if its brackets fit in both places. -/
theorem sameElsewhere_read {forest : Forest}
    (fits : opened.length + forest.depth ≤ settings.nesting.levels)
    (otherFits : otherOpened.length + forest.depth ≤ settings.nesting.levels)
    (enclosure : Enclosure) (phase : Phase) :
    SameElsewhere (opened, otherOpened) (opened, otherOpened)
      (read settings enclosure forest phase) (read settings enclosure forest phase) := by
  induction forest generalizing opened otherOpened enclosure phase with
  | nil => exact .pure phase
  | leaf token rest ih =>
      simp only [read_leaf]
      apply SameElsewhere.advance.bind
      intro _
      apply (SameElsewhere.of_carries ((Coupling.primitive_elsewhere quiet).readToken enclosure
        token.mentions_true phase.fits_true)).bind
      intro next
      exact ih fits otherFits enclosure next
  | nest bracket opener inner closer rest ihInner ih =>
      simp only [Forest.depth] at fits otherFits
      simp only [read_nest]
      apply (SameElsewhere.of_carries ((Coupling.primitive_elsewhere quiet).beforeBracket enclosure
        opener phase.fits_true)).bind
      rintro ⟨pending, unary⟩
      apply (SameElsewhere.of_carries ((Coupling.primitive_elsewhere quiet).locate opener)).bind
      intro location
      apply SameElsewhere.advance.bind
      intro _
      have reads (enclosure : Enclosure) (phase : Phase) :
          SameElsewhere ((bracket, location) :: opened, (bracket, location) :: otherOpened)
            ((bracket, location) :: opened, (bracket, location) :: otherOpened)
            (read settings enclosure inner phase) (read settings enclosure inner phase) :=
        ihInner (by rw [List.length_cons]; omega) (by rw [List.length_cons]; omega) enclosure phase
      have continues := (sameElsewhere_bracket quiet bracket location reads (by omega) (by omega)
        closer).bind fun value =>
          (SameElsewhere.of_carries ((Coupling.primitive_elsewhere quiet).afterBracket bracket
            (Pending.fits_true pending) unary value trivial location)).bind fun next =>
              ih (by omega) (by omega) enclosure next
      simpa only [bind_assoc] using continues

end Quiet

end Eval

end BlockCalc
