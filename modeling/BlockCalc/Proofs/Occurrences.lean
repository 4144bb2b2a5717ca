import BlockCalc.Proofs.Nesting

/-!
# What occurs in an evaluation

An evaluation that is recorded is followed from its start to its end. Between any two brackets, the
recorded occurrences leave open the blocks above those that were entered before the evaluation,
which are as many as there are open curly brackets. So a recorded trace is faithful, and with it
what harmless handlers hear.
-/

namespace BlockCalc

variable {σ α β : Type}

namespace Session

/--
The blocks that are open in an evaluation are those of the scope above the ones before the
evaluation, and there is one for each open curly bracket.
-/
structure Followed (base : Nat) (session : Session (List Occurrence)) : Prop where
  traced : session.Traced (OpenBlock.above base session.scope.names)
  balanced : session.scope.depth = session.groups.countP (·.bracket = .curly) + base

theorem Followed.length_above {base : Nat} {session : Session (List Occurrence)}
    (followed : session.Followed base) :
    (OpenBlock.above base session.scope.names).length =
      session.groups.countP (·.bracket = .curly) := by
  have length := session.scope.length_names
  have balanced := followed.balanced
  have above := OpenBlock.length_above (by omega : base < session.scope.names.length)
  omega

end Session

namespace Eval

variable {session : Session (List Occurrence)} {blocks changed : List OpenBlock} {base : Nat}

/-- An evaluation can be followed through the action, behind which the same groups are open. -/
def Keeps (base : Nat) (action : Eval (List Occurrence) α) : Prop :=
  ∀ session, session.Followed base → Ensures action session
    (fun _ after => after.groups = session.groups ∧ after.Followed base)
    (fun _ after => after.Followed base)

theorem Keeps.pure (result : α) : Keeps base (Pure.pure result) := by
  intro session followed
  exact ⟨rfl, followed⟩

theorem Keeps.bind {action : Eval (List Occurrence) α} {next : α → Eval (List Occurrence) β}
    (keeps : Keeps base action) (continues : ∀ result, Keeps base (next result)) :
    Keeps base (action >>= next) := by
  intro session followed
  apply (keeps session followed).bind
  rintro result middle ⟨sameGroups, stillFollowed⟩
  apply (continues result middle stillFollowed).imp
  rintro _ after ⟨groups, afterFollowed⟩
  exact ⟨groups.trans sameGroups, afterFollowed⟩

theorem keeps_advance : Keeps base advance := by
  intro session followed
  exact ⟨rfl, followed.traced, followed.balanced⟩

variable {settings : Settings (List Occurrence)}

theorem keeps_locate (token : Token) : Keeps base (locate settings token) := by
  intro session followed
  exact ⟨rfl, followed⟩

theorem ensures_openGroup_traced (bracket : Bracket) (location : Location)
    (followed : session.Followed base) :
    Ensures (openGroup settings bracket location) session
      (fun group after => group.bracket = bracket ∧ after.groups = group :: session.groups ∧
        after.Traced (OpenBlock.above base after.scope.names) ∧
        after.scope.depth = session.groups.countP (·.bracket = .curly) + base)
      (fun _ after => after.Followed base) := by
  simp only [openGroup, ensures_bind, ensures_get]
  split
  · exact followed
  · exact ⟨rfl, rfl, followed.traced, followed.balanced⟩

section Recorded

variable (recorded : settings.hooks = .recording)

include recorded

theorem emit_recorded (notice : Notice) (session : Session (List Occurrence)) :
    emit settings notice session =
      .ok () (session.noting (.event notice (session.withObserver ()))) := by
  have harmless : settings.hooks.Harmless := recorded ▸ Hooks.harmless_recording
  simp only [emit_harmless harmless, recorded, Hooks.hear_recording]
  rfl

theorem record_recorded (step : Step) (location : Option Location)
    (session : Session (List Occurrence)) :
    record settings step location session =
      let entry := session.entry settings step location
      let after := session.logged entry
      .ok () (after.noting (.step { index := entry.index, step, location }
        (after.withObserver ()))) := by
  have harmless : settings.hooks.Harmless := recorded ▸ Hooks.harmless_recording
  simp only [record_harmless harmless, recorded, Hooks.hear_recording]
  rfl

theorem ensures_emit_traced (traced : session.Traced blocks) {notice : Notice}
    (leads : OpenBlock.afterEvent? blocks notice = some changed) :
    Ensures (emit settings notice) session
      (fun _ after => after.Traced changed ∧ after.scope = session.scope ∧
        after.groups = session.groups)
      (fun _ _ => False) := by
  simp only [Ensures, emit_recorded recorded]
  exact ⟨traced.noting_event leads _, rfl, rfl⟩

theorem ensures_record_traced (traced : session.Traced blocks) (step : Step)
    (location : Option Location) :
    Ensures (record settings step location) session
      (fun _ after => after.Traced (OpenBlock.afterStep blocks step) ∧
        after.scope = session.scope ∧ after.groups = session.groups)
      (fun _ _ => False) := by
  simp only [Ensures, record_recorded recorded]
  exact ⟨traced.noting_step (session.tells_entry settings step location) rfl, rfl, rfl⟩

theorem ensures_enterBlock_traced (location : Location)
    (traced : session.Traced (OpenBlock.above base session.scope.names))
    (deep : base ≤ session.scope.depth) :
    Ensures (enterBlock settings location) session
      (fun _ after => after.Traced (OpenBlock.above base after.scope.names) ∧
        after.scope.depth = session.scope.depth + 1 ∧ after.groups = session.groups)
      (fun _ _ => False) := by
  have entered : ({ session with scope := session.scope.enter } : Session _).Traced
      (OpenBlock.above base session.scope.names) := traced
  rw [enterBlock_eq, ensures_bind, ensures_get, ensures_bind, ensures_setScope]
  apply (ensures_record_traced recorded entered _ _).bind
  rintro _ logged ⟨loggedTraced, scope, groups⟩
  have leads : OpenBlock.afterEvent? (OpenBlock.above base session.scope.names)
      (.scopeEnter logged.scope.depth) = some (OpenBlock.above base logged.scope.names) := by
    rw [scope, OpenBlock.above_enter deep]
    rfl
  rw [ensures_bind, ensures_get]
  apply (ensures_emit_traced recorded loggedTraced leads).imp
  rintro _ after ⟨afterTraced, sameScope, sameGroups⟩
  refine ⟨sameScope ▸ afterTraced, ?_, sameGroups.trans groups⟩
  rw [sameScope, scope]
  exact session.scope.depth_enter

theorem ensures_exitBlock_traced (location : Location)
    (traced : session.Traced (OpenBlock.above base session.scope.names))
    (deep : base < session.scope.depth) :
    Ensures (exitBlock settings location) session
      (fun _ after => after.Traced (OpenBlock.above base after.scope.names) ∧
        after.scope.depth + 1 = session.scope.depth ∧ after.groups = session.groups)
      (fun _ _ => False) := by
  rcases Scope.exists_exit_of_depth_pos (Nat.zero_lt_of_lt deep) with ⟨frame, outer, left, depth⟩
  have outside : ({ session with scope := outer } : Session _).Traced
      (OpenBlock.above base session.scope.names) := traced
  rw [exitBlock_eq (recorded ▸ Hooks.harmless_recording.toObserving)]
  simp only [ensures_bind, ensures_get, left, ensures_ofExcept_ok, ensures_setScope]
  rw [← ensures_bind]
  apply (ensures_record_traced recorded outside _ _).bind
  rintro _ logged ⟨loggedTraced, scope, groups⟩
  -- The frame that is discarded has the names that were declared in the innermost open block.
  have leads : OpenBlock.afterEvent? (OpenBlock.above base session.scope.names)
      (.scopeExit session.scope.depth (Text.sortNames frame.names)) =
        some (OpenBlock.above base outer.names) := by
    simp only [OpenBlock.above_of_exit left deep, OpenBlock.afterEvent?,
      Text.perm_sortNames frame.names, Text.pairwise_sortNames frame.names, and_self, if_true]
  apply (ensures_emit_traced recorded loggedTraced leads).imp
  rintro _ after ⟨afterTraced, sameScope, sameGroups⟩
  have changed : after.scope = outer := sameScope.trans scope
  refine ⟨changed ▸ afterTraced, ?_, sameGroups.trans groups⟩
  rw [changed]
  exact depth

end Recorded

end Eval

namespace Coupling

/-- An evaluation that is followed while the same groups are open. -/
def following (base : Nat) (groups : List Group) :
    Coupling (List Occurrence) (List Occurrence) where
  related first second := first = second ∧ first.groups = groups ∧ first.Followed base

variable {settings : Settings (List Occurrence)} (recorded : settings.hooks = .recording)

include recorded

theorem lawful_following (base : Nat) (groups : List Group) :
    (following base groups).Lawful settings settings where
  twin := by
    rintro session _ ⟨rfl, _⟩
    exact ⟨rfl, rfl, rfl, rfl⟩
  sameFile := rfl
  fails _ := trivial
  closed := Value.closed_true
  goodRead _ _ := trivial
  step := by
    rintro session _ step scope ⟨rfl, sameGroups, followed⟩ takes inner location
    have moved : ({ session with scope } : Session (List Occurrence)).Traced
        (OpenBlock.above base session.scope.names) := followed.traced
    apply Eval.EnsuresBoth.self_iff.mpr
    apply (Eval.ensures_record_traced recorded moved step location).mono
    · rintro _ after ⟨traced, afterScope, afterGroups⟩
      rw [OpenBlock.afterStep_above takes inner] at traced
      refine ⟨trivial, rfl, afterGroups.trans sameGroups, ?_, ?_⟩
      · rw [afterScope]
        exact traced
      · rw [afterScope, afterGroups]
        exact (takes.depth_of_inner inner).trans followed.balanced
    · intro _ _ impossible
      exact impossible.elim

theorem primitive_following (base : Nat) (groups : List Group) :
    (following base groups).Primitive (fun _ => True) settings settings :=
  (lawful_following recorded base groups).primitive

omit recorded

theorem keeps_of_carries {base : Nat} {action : Eval (List Occurrence) α}
    {results : List Group → α → Prop}
    (carries : ∀ groups, (following base groups).Carries action action (results groups)) :
    Eval.Keeps base action := by
  intro session followed
  have start : (following base session.groups).related session session := ⟨rfl, rfl, followed⟩
  apply (Eval.EnsuresBoth.self_iff.mp (carries _ session session start)).mono
  · rintro _ after ⟨_, _, still⟩
    exact still
  · rintro _ after ⟨_, _, still⟩
    exact still.2

end Coupling

namespace Eval

variable {settings : Settings (List Occurrence)} {session : Session (List Occurrence)}
  {base : Nat} (recorded : settings.hooks = .recording)

include recorded

theorem keeps_readToken (enclosure : Enclosure) (token : Token) (phase : Phase) :
    Keeps base (readToken settings enclosure token phase) :=
  Coupling.keeps_of_carries fun groups =>
    (Coupling.primitive_following recorded base groups).readToken enclosure token.mentions_true
      phase.fits_true

theorem keeps_finish (next : Option Token) (phase : Phase) :
    Keeps base (finish settings next phase) :=
  Coupling.keeps_of_carries fun groups =>
    (Coupling.primitive_following recorded base groups).finish next phase.fits_true

theorem keeps_beforeBracket (enclosure : Enclosure) (opener : Token) (phase : Phase) :
    Keeps base (beforeBracket settings enclosure opener phase) :=
  Coupling.keeps_of_carries fun groups =>
    (Coupling.primitive_following recorded base groups).beforeBracket enclosure opener
      phase.fits_true

theorem keeps_afterBracket (bracket : Bracket) (pending : List Pending) (unary : List Token)
    (value : Value) (location : Location) :
    Keeps base (afterBracket settings bracket pending unary value location) :=
  Coupling.keeps_of_carries fun groups =>
    (Coupling.primitive_following recorded base groups).afterBracket bracket
      (Pending.fits_true pending) unary value trivial location

/-- Behind the contents of a bracket its group is closed, and the scope is still to be left. -/
theorem ensures_contents_traced {inner : Forest}
    (reads : ∀ enclosure phase, Keeps base (read settings enclosure inner phase))
    (enclosure : Enclosure) (phase : Phase) (closer : Option Token) {group : Group}
    {outer : List Group}
    (opened : session.groups = group :: outer) (followed : session.Followed base) :
    Ensures (contents settings enclosure phase inner closer) session
      (fun _ after => after.Traced (OpenBlock.above base after.scope.names) ∧
        after.scope.depth = session.scope.depth ∧ after.groups = outer)
      (fun _ after => after.Followed base) := by
  have before : Keeps base (do
      let last ← read settings enclosure inner phase
      finish settings closer last) :=
    (reads enclosure phase).bind fun last => keeps_finish recorded closer last
  rw [contents, ← bind_assoc]
  apply (before session followed).bind
  rintro value middle ⟨sameGroups, middleFollowed⟩
  have sameDepth : middle.scope.depth = session.scope.depth := by
    rw [middleFollowed.balanced, sameGroups, followed.balanced]
  simp only [closeGroup, ensures_bind, ensures_get, sameGroups, opened]
  split
  · exact ⟨middleFollowed.traced, sameDepth, rfl⟩
  · exact middleFollowed

/-- A bracket that is opened is closed again, and a block that is entered is left. -/
theorem ensures_enclosed_followed {inner : Forest}
    (reads : ∀ enclosure phase, Keeps base (read settings enclosure inner phase))
    (location : Location) (closer : Option Token) {bracket : Bracket} {group : Group}
    {outer : List Group} (isBracket : group.bracket = bracket)
    (opened : session.groups = group :: outer)
    (traced : session.Traced (OpenBlock.above base session.scope.names))
    (balanced : session.scope.depth = outer.countP (·.bracket = .curly) + base) :
    Ensures (enclosed settings location group inner closer bracket) session
      (fun _ after => after.groups = outer ∧ after.Followed base)
      (fun _ after => after.Followed base) := by
  cases bracket with
  | round =>
      have followed : session.Followed base :=
        ⟨traced, by rw [opened, balanced]; simp [isBracket]⟩
      apply (ensures_contents_traced recorded reads _ _ closer opened followed).imp
      rintro _ after ⟨afterTraced, depth, groups⟩
      exact ⟨groups, afterTraced, by rw [depth, groups, balanced]⟩
  | curly =>
      -- The group is opened before the block is entered, and closed before it is left. So the two
      -- are in balance only in between, where the contents are read.
      have deep : base ≤ session.scope.depth := by omega
      apply (ensures_enterBlock_traced recorded location traced deep).of_infallible.bind
      rintro _ entered ⟨enteredTraced, enteredDepth, sameGroups⟩
      have enteredFollowed : entered.Followed base := by
        refine ⟨enteredTraced, ?_⟩
        rw [enteredDepth, sameGroups, opened, balanced]
        simp only [List.countP_cons, isBracket, decide_true, if_true]
        omega
      apply (ensures_contents_traced recorded reads .statements (.statement .void) closer
        (sameGroups.trans opened) enteredFollowed).bind
      rintro value closed ⟨closedTraced, closedDepth, closedGroups⟩
      have deeper : base < closed.scope.depth := by omega
      apply (ensures_exitBlock_traced recorded location closedTraced deeper).of_infallible.bind
      rintro _ after ⟨afterTraced, depth, groups⟩
      refine ⟨groups.trans closedGroups, afterTraced, ?_⟩
      rw [groups, closedGroups]
      omega

theorem keeps_read_nest {bracket : Bracket} {opener : Token} {closer : Option Token}
    {inner rest : Forest}
    (readsInner : ∀ enclosure phase, Keeps base (read settings enclosure inner phase))
    (readsRest : ∀ enclosure phase, Keeps base (read settings enclosure rest phase))
    (enclosure : Enclosure) (phase : Phase) :
    Keeps base (read settings enclosure (.nest bracket opener inner closer rest) phase) := by
  rw [read_nest]
  apply (keeps_beforeBracket recorded enclosure opener phase).bind
  rintro ⟨pending, unary⟩
  apply (keeps_locate opener).bind
  intro location
  apply keeps_advance.bind
  intro _ session followed
  have after (value : Value) : Keeps base (do
      let next ← afterBracket settings bracket pending unary value location
      read settings enclosure rest next) :=
    (keeps_afterBracket recorded bracket pending unary value location).bind fun next =>
      readsRest enclosure next
  apply (ensures_openGroup_traced bracket location followed).bind
  rintro group opened ⟨isBracket, groups, traced, balanced⟩
  apply (ensures_enclosed_followed recorded readsInner location closer isBracket groups traced
    balanced).bind
  rintro value closed ⟨sameGroups, closedFollowed⟩
  apply (after value closed closedFollowed).imp
  rintro _ last ⟨lastGroups, lastFollowed⟩
  exact ⟨lastGroups.trans sameGroups, lastFollowed⟩

theorem keeps_read (forest : Forest) (enclosure : Enclosure) (phase : Phase) :
    Keeps base (read settings enclosure forest phase) := by
  induction forest generalizing enclosure phase with
  | nil => exact .pure phase
  | leaf token rest ih =>
      rw [read_leaf]
      apply keeps_advance.bind
      intro _
      apply (keeps_readToken recorded enclosure token phase).bind
      intro next
      exact ih enclosure next
  | nest bracket opener inner closer rest ihInner ihRest =>
      exact keeps_read_nest recorded ihInner ihRest enclosure phase

/-- The start of an evaluation is heard of before any step, and then its first step. -/
theorem ensures_program_followed (fresh : session.observer = []) (unlogged : session.log = .empty)
    (closed : session.groups = []) :
    Ensures (program settings) session
      (fun _ after => after.groups = [] ∧ after.Followed session.scope.depth)
      (fun _ after => after.Followed session.scope.depth) := by
  have told : Ensures (emit settings .parseStart) session
      (fun _ after => after = session.noting (.event .parseStart (session.withObserver ())))
      (fun _ _ => False) := by
    simp only [Ensures, emit_recorded recorded]
  apply told.of_infallible.bind
  rintro _ _ rfl
  rw [ensures_bind, ensures_get]
  have started := Session.traced_noting_start fresh unlogged
  apply (ensures_record_traced recorded started _ _).of_infallible.bind
  rintro _ begun ⟨traced, scope, groups⟩
  have sameScope : begun.scope = session.scope := scope
  have noGroups : begun.groups = [] := groups.trans closed
  have followed : begun.Followed session.scope.depth := by
    constructor
    · rw [sameScope, OpenBlock.above_depth]
      exact traced
    · rw [sameScope, noGroups, List.countP_nil, Nat.zero_add]
  rw [ensures_bind, ensures_get, evaluate_eq]
  split
  · rename_i forest _
    have whole : Keeps session.scope.depth (statements settings forest) :=
      (keeps_read recorded forest .statements (.statement .void)).bind fun last =>
        keeps_finish recorded none last
    apply (whole begun followed).imp
    rintro _ after ⟨sameGroups, afterFollowed⟩
    exact ⟨sameGroups.trans noGroups, afterFollowed⟩
  · exact followed

end Eval

namespace Session

theorem faithful_occurrences (settings : Settings σ) (session : Session σ) (text : String) :
    let recorded := (session.withObserver []).parse (settings.withHooks .recording) text
    Faithful (session.occurrences settings text) recorded.1 recorded.2.log := by
  have prepared : ((session.feed text).prepare.withObserver ([] : List Occurrence)).observer = [] :=
    rfl
  have followed := Eval.ensures_program_followed (settings.hooks_withHooks .recording) prepared rfl
    rfl
  simp only [occurrences, parse_recording]
  cases ran : Eval.program (settings.withHooks .recording)
      ((session.feed text).prepare.withObserver []) with
  | ok value finished =>
      rcases followed.of_ok ran with
        ⟨groups, (finishedFollowed : finished.Followed session.scope.depth)⟩
      have ends : EndsWith (.ok value) (.parseEnd value)
          (OpenBlock.above session.scope.depth finished.scope.names).length := by
        rw [finishedFollowed.length_above, groups]
        exact .ok value
      exact finishedFollowed.traced.faithful ends rfl
  | error failure finished =>
      have finishedFollowed : finished.Followed session.scope.depth := followed.of_error ran
      have ends : EndsWith (.error (finished.report failure))
          (.onError (finished.report failure))
          (OpenBlock.above session.scope.depth finished.scope.names).length := by
        rw [finishedFollowed.length_above, ← List.countP_reverse]
        exact .error (finished.report failure)
      exact finishedFollowed.traced.faithful ends rfl

end Session

namespace Hooks

/--
Listeners that note the names of all events, and the names that leaving a block discards. A step
rule notes every second step.
-/
def naming : Hooks (List String) where
  listeners event := [
    { name := "naming"
      handle := fun notice session =>
        { workspace := session.toWorkspace
          observer := session.observer ++ event.name :: notice.discarded?.getD [] } }]
  stepRules := [
    { period := 2
      handle := fun notice session =>
        { workspace := session.toWorkspace
          observer := session.observer ++ [notice.step.rule] } }]

theorem harmless_naming : naming.Harmless where
  listeners := by
    intro event listener member notice session
    rw [List.eq_of_mem_singleton member]
    exact ⟨rfl, rfl, rfl⟩
  stepRules := by
    intro rule member notice session
    rw [List.eq_of_mem_singleton member]
    exact ⟨rfl, rfl, rfl⟩
  listenersSilent := by simp [naming]
  stepRulesSilent := by simp [naming]

end Hooks

end BlockCalc
