import BlockCalc.Proofs.Observing
import BlockCalc.Proofs.Quiet
import Mathlib.Data.List.Infix

/-!
# Watching an evaluation

A step rule is called right after each step, so one that keeps the sessions it is called on shows
the state of an evaluation at every logged step. `Session.moments` are these states for an
evaluation that has no handlers of its own. Watching changes nothing else, and there is exactly one
moment for each entry of the log.

The watched evaluation and the one without handlers are coupled. What holds of the moments so far
and of the session is kept to the end if every step keeps it.
-/

namespace BlockCalc

variable {σ τ : Type}

/-- A step rule that keeps the session of every step. -/
def Hooks.watching : Hooks (List (Session Unit)) where
  stepRules := [
    { period := 1
      handle := fun _ session =>
        { workspace := session.toWorkspace
          observer := session.observer ++ [session.withObserver ()] } }]

/-- The settings with handlers that note every session they see. -/
def Settings.watching (settings : Settings σ) : Settings (List (Session Unit)) where
  fileName := settings.fileName
  verbose := settings.verbose
  nesting := settings.nesting
  hooks := .watching

theorem harmless_watching : Hooks.watching.Harmless where
  listeners := by simp [Hooks.watching]
  listenersSilent := by simp [Hooks.watching]
  stepRules := by
    intro rule member notice session
    rw [List.eq_of_mem_singleton member]
    exact ⟨rfl, rfl, rfl⟩
  stepRulesSilent := by
    intro rule member notice session
    rw [List.eq_of_mem_singleton member]

/-- The states of an evaluation right after each of its steps. -/
def Session.moments (settings : Settings σ) (session : Session σ) (text : String) :
    List (Session Unit) :=
  ((session.withObserver []).parse settings.watching text).2.observer

namespace Eval

variable {settings : Settings σ}

theorem emit_watching (settings : Settings σ) (notice : Notice) :
    emit settings.watching notice = pure () :=
  rfl

theorem record_watched (settings : Settings σ) (step : Step) (location : Option Location)
    (session : Session (List (Session Unit))) :
    record settings.watching step location session =
      let after := session.logged (session.entry settings.watching step location)
      .ok () { after with observer := session.observer ++ [after.withObserver ()] } := by
  rw [record_eq harmless_watching.toObserving]
  simp only [afterStep, Settings.watching, Hooks.watching, List.forM_eq_forM, List.forM_cons,
    List.forM_nil, Nat.mod_one, if_true]
  rfl

theorem record_watching (quiet : settings.hooks = .none) {first : Session σ}
    {second : Session (List (Session Unit))} (twin : first.Twin second) (step : Step)
    (location : Option Location) :
    ∃ entry, entry.Tells first.log step ∧
      record settings step location first = .ok () (first.logged entry) ∧
      record settings.watching step location second =
        .ok ()
          { second.logged entry with
            observer := second.observer ++ [(first.logged entry).withObserver ()] } := by
  have sameEntry : second.entry settings.watching step location =
      first.entry settings step location := twin.entry_eq rfl step location
  have sameState := (twin.logged (first.entry settings step location)).withObserver_eq ()
  refine ⟨_, first.tells_entry settings step location, record_logged quiet step location first, ?_⟩
  rw [record_watched, sameEntry, ← sameState]

end Eval

namespace Coupling

variable {settings : Settings σ} {good : Value → Prop} {fails : Cause → Prop}
  {holds : List (Session Unit) → Session Unit → Prop}

/-- An evaluation and the same one watched; `holds` is about the moments so far and the state. -/
def watching (good : Value → Prop) (fails : Cause → Prop)
    (holds : List (Session Unit) → Session Unit → Prop) : Coupling σ (List (Session Unit)) where
  related first second := first.Twin second ∧ holds second.observer (first.withObserver ())
  good := good
  fails := fails

/-- A step from one scope to another keeps what holds of the moments and the state. -/
def KeptBy (holds : List (Session Unit) → Session Unit → Prop) (state : Session Unit) (step : Step)
    (scope : Scope) : Prop :=
  ∀ moments entry, holds moments state → entry.Tells state.log step →
    let after := ({ state with scope } : Session Unit).logged entry
    holds (moments ++ [after]) after

theorem carriesFrom_record (quiet : settings.hooks = .none) {first : Session σ}
    {second : Session (List (Session Unit))}
    (related : (watching good fails holds).related first second) {step : Step} {scope : Scope}
    (kept : KeptBy holds (first.withObserver ()) step scope) (location : Option Location) :
    (watching good fails holds).CarriesFrom { first with scope } { second with scope }
      (Eval.record settings step location) (Eval.record settings.watching step location)
      fun _ => True := by
  rcases related with ⟨twin, held⟩
  have stillTwin := twin.setScope scope
  rcases Eval.record_watching quiet stillTwin step location with ⟨entry, tells, ran, watchedRan⟩
  simp only [CarriesFrom, Eval.EnsuresBoth, Eval.Ensures, ran, watchedRan]
  refine ⟨trivial, trivial, ?_, kept second.observer entry held tells⟩
  have logged := stillTwin.logged entry
  exact ⟨logged.workspace, logged.position, logged.groups, logged.log⟩

theorem lawful_watching (quiet : settings.hooks = .none) (closed : Value.Closed good)
    (shallow : ∀ cause : Cause, ¬cause.IsTooDeep → fails cause)
    (reads : ∀ {moments state}, holds moments state → ∀ {name value},
      state.scope.read name = .ok value → good value)
    (kept : ∀ {state : Session Unit} {step scope}, state.scope.Takes good step scope →
      step.Inner → KeptBy holds state step scope) :
    (watching good fails holds).Lawful settings settings.watching where
  twin related := related.1
  sameFile := rfl
  fails := shallow _
  closed := closed
  goodRead related read := reads related.2 read
  step related takes inner location := carriesFrom_record quiet related (kept takes inner) location

theorem whole_watching (quiet : settings.hooks = .none) (closed : Value.Closed good)
    (reads : ∀ {moments state}, holds moments state → ∀ {name value},
      state.scope.read name = .ok value → good value)
    (moved : ∀ {moments state}, holds moments state → ∀ position groups,
      holds moments { state with position, groups })
    (kept : ∀ {state : Session Unit} {step scope}, state.scope.Takes good step scope →
      KeptBy holds state step scope) :
    (watching good (fun _ => True) holds).Whole settings settings.watching where
  toLawful := lawful_watching quiet closed (fun _ _ => trivial) reads fun takes _ => kept takes
  observing := observing_of_quiet quiet
  otherObserving := harmless_watching.toObserving
  sameNesting := rfl
  tooDeep _ := trivial
  moved related position groups :=
    ⟨⟨related.1.workspace, rfl, rfl, related.1.log⟩, moved related.2 position groups⟩
  anyStep related takes location := carriesFrom_record quiet related (kept takes) location
  tell notice := by
    rw [Eval.emit_of_quiet quiet, Eval.emit_watching]
    exact .pure trivial

end Coupling

namespace Session

variable {settings : Settings σ} {good : Value → Prop} {fails : Cause → Prop}
  {holds : List (Session Unit) → Session Unit → Prop} {session : Session σ} {text : String}

/-- What is kept from the start of a watched evaluation holds at its end, however it ends. -/
theorem program_watching
    (whole : (Coupling.watching good fails holds).Whole settings settings.watching)
    (start : holds [] ((session.feed text).prepare.withObserver ())) :
    (Coupling.watching good fails holds).CarriesFrom (session.feed text).prepare
      ((session.feed text).prepare.withObserver []) (Eval.program settings)
      (Eval.program settings.watching) good :=
  whole.program _ _ ⟨(session.feed text).prepare.twin_withObserver [], start⟩

variable {watched : Session (List (Session Unit))}

theorem parse_watching_of_ok {value : Value}
    (ran : Eval.program settings.watching ((session.feed text).prepare.withObserver []) =
      .ok value watched) :
    (session.withObserver []).parse settings.watching text = (.ok value, watched.dropText) := by
  have samePrepared : ((session.withObserver ([] : List (Session Unit))).feed text).prepare =
      (session.feed text).prepare.withObserver [] := rfl
  rw [parse_of_unheard harmless_watching.toObserving harmless_watching.toSilent fun _ => rfl,
    samePrepared, ran]

theorem parse_watching_of_error {failure : Failure}
    (ran : Eval.program settings.watching ((session.feed text).prepare.withObserver []) =
      .error failure watched) :
    (session.withObserver []).parse settings.watching text =
      (.error (watched.report failure), watched.unwind.dropText) := by
  have samePrepared : ((session.withObserver ([] : List (Session Unit))).feed text).prepare =
      (session.feed text).prepare.withObserver [] := rfl
  rw [parse_of_unheard harmless_watching.toObserving harmless_watching.toSilent fun _ => rfl,
    samePrepared, ran]

theorem moments_of_ok {value : Value}
    (ran : Eval.program settings.watching ((session.feed text).prepare.withObserver []) =
      .ok value watched) : session.moments settings text = watched.observer := by
  rw [moments, parse_watching_of_ok ran]
  rfl

theorem moments_of_error {failure : Failure}
    (ran : Eval.program settings.watching ((session.feed text).prepare.withObserver []) =
      .error failure watched) : session.moments settings text = watched.observer := by
  rw [moments, parse_watching_of_error ran]
  rfl

/-- The moments so far have the logs that have led to the log of the state. -/
def LogsMoments (moments : List (Session Unit)) (state : Session Unit) : Prop :=
  moments.map (·.log.entries.toList) = state.log.entries.toList.inits.tail

theorem tail_inits_append_singleton {α : Type} (items : List α) (last : α) :
    (items ++ [last]).inits.tail = items.inits.tail ++ [items ++ [last]] := by
  cases items <;> simp [List.inits_append]

/--
Watching changes neither the outcome of an evaluation nor the session that it leaves, and there is
one moment for each entry of the log, right after the entry was added.
-/
theorem parse_watching (quiet : settings.hooks = .none) (session : Session σ) (text : String) :
    let plain := session.parse settings text
    let watched := (session.withObserver []).parse settings.watching text
    watched.1 = plain.1 ∧ watched.2.withObserver () = plain.2.withObserver () ∧
      (session.moments settings text).map (·.log.entries.toList) =
        plain.2.log.entries.toList.inits.tail := by
  have whole : (Coupling.watching (fun _ => True) (fun _ => True) LogsMoments).Whole settings
      settings.watching := by
    refine Coupling.whole_watching quiet Value.closed_true (fun _ _ _ _ => trivial)
      (fun logs _ _ => logs) ?_
    intro state step scope _ moments entry logs _
    simp only [LogsMoments] at logs ⊢
    simp only [List.map_append, List.map_cons, List.map_nil, logs, logged, StepLog.push,
      Array.toList_push, tail_inits_append_singleton]
  have start : LogsMoments [] ((session.feed text).prepare.withObserver ()) := rfl
  have both := program_watching whole start
  rw [parse_of_quiet quiet]
  cases ran : Eval.program settings (session.feed text).prepare with
  | ok value finished =>
      rcases both.of_ok ran with ⟨watched, watchedRan, _, twin, logs⟩
      rw [parse_watching_of_ok watchedRan, moments_of_ok watchedRan]
      exact ⟨rfl, twin.dropText.withObserver_eq (), logs⟩
  | error failure finished =>
      rcases both.of_error ran with ⟨watched, watchedRan, _, twin, logs⟩
      rw [parse_watching_of_error watchedRan, moments_of_error watchedRan]
      exact ⟨by rw [twin.report], twin.unwind.dropText.withObserver_eq (), logs⟩

end Session

end BlockCalc
