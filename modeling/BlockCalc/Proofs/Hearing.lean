import BlockCalc.Proofs.Observing
import BlockCalc.Proofs.Quiet

/-!
# What handlers hear

Handlers that leave the workspace as it is and never complain have no say in an evaluation. They
only hear what occurs: the events and the logged steps, one after the other, each with the state in
which it occurs. `Session.occurrences` is all that occurs in an evaluation, as hooks write it down
that do nothing else. Whatever harmless hooks there are, the evaluation is the one without them, and
their state at its end is what it becomes by hearing exactly these occurrences in this order.
-/

namespace BlockCalc

variable {σ β : Type}

/-- What handlers are called for, with the state in which they are called. -/
inductive Occurrence where
  | event (notice : Notice) (state : Session Unit)
  | step (notice : StepNotice) (state : Session Unit)

namespace Hooks

/--
The state of the observer after the handlers have been called for an occurrence: the listeners of
the event, or the step rules that are due, each in the order in which the hooks hold them.
-/
def hear (hooks : Hooks σ) (observer : σ) : Occurrence → σ
  | .event notice state =>
      (hooks.listeners notice.event).foldl
        (fun observer listener =>
          (listener.handle notice (state.withObserver observer)).observer) observer
  | .step notice state =>
      (hooks.stepRules.filter fun rule => notice.index % rule.period = 0).foldl
        (fun observer rule => (rule.handle notice (state.withObserver observer)).observer) observer

/-- Hooks that write down all that they hear. -/
def recording : Hooks (List Occurrence) where
  listeners _ := [
    { name := "recording"
      handle := fun notice session =>
        { workspace := session.toWorkspace
          observer := session.observer ++ [.event notice (session.withObserver ())] } }]
  stepRules := [
    { period := 1
      period_pos := Nat.one_pos
      handle := fun notice session =>
        { workspace := session.toWorkspace
          observer := session.observer ++ [.step notice (session.withObserver ())] } }]

theorem harmless_recording : recording.Harmless where
  listeners := by
    intro event listener member notice session
    rw [List.eq_of_mem_singleton member]
    exact ⟨rfl, rfl, rfl⟩
  stepRules := by
    intro rule member notice session
    rw [List.eq_of_mem_singleton member]
    exact ⟨rfl, rfl, rfl⟩
  listenersSilent := by simp [recording]
  stepRulesSilent := by simp [recording]

@[simp]
theorem hear_recording (earlier : List Occurrence) (occurrence : Occurrence) :
    recording.hear earlier occurrence = earlier ++ [occurrence] := by
  cases occurrence with
  | event notice state => rfl
  | step notice state =>
      simp only [hear, recording, Nat.mod_one, decide_true, List.filter_cons_of_pos,
        List.filter_nil, List.foldl_cons, List.foldl_nil]
      rfl

end Hooks

/-- The settings with other handlers. -/
def Settings.withHooks {τ : Type} (settings : Settings σ) (hooks : Hooks τ) : Settings τ where
  fileName := settings.fileName
  verbose := settings.verbose
  nesting := settings.nesting
  hooks := hooks

@[simp]
theorem Settings.hooks_withHooks {τ : Type} (settings : Settings σ) (hooks : Hooks τ) :
    (settings.withHooks hooks).hooks = hooks :=
  rfl

@[simp]
theorem Settings.withHooks_withHooks {τ ρ : Type} (settings : Settings σ) (hooks : Hooks τ)
    (others : Hooks ρ) : (settings.withHooks hooks).withHooks others = settings.withHooks others :=
  rfl

/-- All that occurs in an evaluation, in its order. -/
def Session.occurrences (settings : Settings σ) (session : Session σ) (text : String) :
    List Occurrence :=
  ((session.withObserver []).parse (settings.withHooks .recording) text).2.observer

namespace Eval

variable {settings : Settings σ}

/-- Handlers that only change the observer are called one after the other. -/
theorem forM_withObserver {handlers : List β} {call : β → Eval σ Unit} {hear : β → Session σ → σ}
    (calls : ∀ handler ∈ handlers, ∀ session,
      call handler session = .ok () (session.withObserver (hear handler session)))
    (session : Session σ) :
    handlers.forM call session =
      .ok () (session.withObserver (handlers.foldl
        (fun observer handler => hear handler (session.withObserver observer))
        session.observer)) := by
  induction handlers generalizing session with
  | nil => rfl
  | cons handler rest ih =>
      rw [List.forall_mem_cons] at calls
      simp only [List.forM_eq_forM, List.forM_cons] at ih ⊢
      rw [bind_of_ok (calls.1 session), ih calls.2]
      rfl

theorem react_harmless {reaction : Reaction σ} {session : Session σ}
    (observes : reaction.Observes session) (silent : reaction.complaint = none)
    (discarded : Option (List String)) (crashed : String → Failure) :
    react reaction discarded crashed session =
      .ok () (session.withObserver reaction.observer) := by
  simp only [react, silent]
  change EStateM.Result.ok () (reaction.leave discarded session) = _
  rw [observes.leave_eq]
  rfl

theorem afterStep_eq (settings : Settings σ) (notice : StepNotice) :
    afterStep settings notice =
      (settings.hooks.stepRules.filter fun rule => notice.index % rule.period = 0).forM
        (callRule notice) := by
  simp only [afterStep, List.forM_eq_forM]
  induction settings.hooks.stepRules with
  | nil => rfl
  | cons rule rest ih =>
      simp only [List.forM_cons, List.filter_cons, ih]
      by_cases due : notice.index % rule.period = 0
      · simp only [due, if_true, decide_true, List.forM_cons]
      · simp only [due, if_false, decide_false, Bool.false_eq_true, pure_bind]

theorem listeners_harmless (harmless : settings.hooks.Harmless) (notice : Notice)
    (session : Session σ) :
    (settings.hooks.listeners notice.event).forM (callListener notice) session =
      .ok () (session.withObserver
        (settings.hooks.hear session.observer (.event notice (session.withObserver ())))) := by
  have calls : ∀ listener ∈ settings.hooks.listeners notice.event, ∀ session,
      callListener notice listener session =
        .ok () (session.withObserver (listener.handle notice session).observer) := by
    intro listener member session
    exact react_harmless (harmless.listeners _ listener member notice session)
      (harmless.listenersSilent _ listener member notice session) _ _
  exact forM_withObserver calls session

theorem emit_harmless (harmless : settings.hooks.Harmless) (notice : Notice)
    (session : Session σ) :
    emit settings notice session =
      .ok () (session.withObserver
        (settings.hooks.hear session.observer (.event notice (session.withObserver ())))) := by
  rw [emit_eq harmless.toObserving, listeners_harmless harmless]

theorem tell_harmless (harmless : settings.hooks.Harmless) (notice : Notice)
    (session : Session σ) :
    tell notice (settings.hooks.listeners notice.event) session =
      .ok notice (session.withObserver
        (settings.hooks.hear session.observer (.event notice (session.withObserver ())))) := by
  rw [tell_eq fun listener member => harmless.listeners _ listener member notice,
    bind_of_ok (listeners_harmless harmless notice session)]
  rfl

/-- Step rules hear of a step after it has been logged. -/
theorem record_harmless (harmless : settings.hooks.Harmless) (step : Step)
    (location : Option Location) (session : Session σ) :
    record settings step location session =
      let entry := session.entry settings step location
      let after := session.logged entry
      .ok () (after.withObserver
        (settings.hooks.hear session.observer
          (.step { index := entry.index, step, location } (after.withObserver ())))) := by
  rw [record_eq harmless.toObserving, afterStep_eq]
  let notice : StepNotice :=
    { index := (session.entry settings step location).index, step, location }
  have calls : ∀ rule ∈ settings.hooks.stepRules.filter fun rule => notice.index % rule.period = 0,
      ∀ session, callRule notice rule session =
        .ok () (session.withObserver (rule.handle notice session).observer) := by
    intro rule member session
    have isRule := (List.mem_filter.mp member).1
    exact react_harmless (harmless.stepRules rule isRule _ session)
      (harmless.stepRulesSilent rule isRule _ session) _ _
  exact forM_withObserver calls _

end Eval

namespace Coupling

/-- A recorded evaluation, and one in which other hooks hear what is recorded. -/
def hearing (hooks : Hooks σ) (start : σ) : Coupling (List Occurrence) σ where
  related first second :=
    first.Twin second ∧ second.observer = first.observer.foldl hooks.hear start

variable {settings : Settings σ} {start : σ} {first : Session (List Occurrence)}
  {second : Session σ}

theorem related_hearing_hear
    (related : (hearing settings.hooks start).related first second) (occurrence : Occurrence) :
    (hearing settings.hooks start).related
      (first.withObserver (Hooks.recording.hear first.observer occurrence))
      (second.withObserver (settings.hooks.hear second.observer occurrence)) := by
  rcases related with ⟨twin, heard⟩
  refine ⟨⟨twin.workspace, twin.position, twin.groups, twin.log⟩, ?_⟩
  simp [Session.withObserver, heard]

theorem emit_hearing (harmless : settings.hooks.Harmless) (notice : Notice) :
    (hearing settings.hooks start).Carries (Eval.emit (settings.withHooks .recording) notice)
      (Eval.emit settings notice) fun _ => True := by
  intro first second related
  have recording : (settings.withHooks .recording).hooks.Harmless := Hooks.harmless_recording
  simp only [CarriesFrom, Eval.EnsuresBoth, Eval.Ensures, Eval.emit_harmless harmless,
    Eval.emit_harmless recording]
  rw [related.1.withObserver_eq ()]
  exact ⟨trivial, trivial, related_hearing_hear related _⟩

theorem record_hearing (harmless : settings.hooks.Harmless)
    (related : (hearing settings.hooks start).related first second) (step : Step)
    (location : Option Location) (scope : Scope) :
    (hearing settings.hooks start).CarriesFrom { first with scope } { second with scope }
      (Eval.record (settings.withHooks .recording) step location)
      (Eval.record settings step location) fun _ => True := by
  have twin := related.1.setScope scope
  have sameEntry : ({ second with scope } : Session σ).entry settings step location =
      ({ first with scope } : Session (List Occurrence)).entry (settings.withHooks .recording)
        step location := twin.entry_eq rfl step location
  have logged := twin.logged
    (({ first with scope } : Session (List Occurrence)).entry (settings.withHooks .recording)
      step location)
  have recording : (settings.withHooks .recording).hooks.Harmless := Hooks.harmless_recording
  simp only [CarriesFrom, Eval.EnsuresBoth, Eval.Ensures, Eval.record_harmless harmless,
    Eval.record_harmless recording]
  rw [sameEntry, logged.withObserver_eq ()]
  exact ⟨trivial, trivial, related_hearing_hear ⟨logged, related.2⟩ _⟩

theorem whole_hearing (harmless : settings.hooks.Harmless) :
    (hearing settings.hooks start).Whole (settings.withHooks .recording) settings where
  twin related := related.1
  sameFile := rfl
  fails _ := trivial
  closed := Value.closed_true
  goodRead _ _ := trivial
  step related _ _ location := record_hearing harmless related _ location _
  observing := Hooks.harmless_recording.toObserving
  otherObserving := harmless.toObserving
  sameNesting := rfl
  tooDeep _ := trivial
  moved related _ _ := ⟨⟨related.1.workspace, rfl, rfl, related.1.log⟩, related.2⟩
  anyStep related _ location := record_hearing harmless related _ location _
  tell := emit_hearing harmless

end Coupling

namespace Session

variable {settings : Settings σ}

theorem parse_of_harmless (harmless : settings.hooks.Harmless) (session : Session σ)
    (text : String) :
    session.parse settings text =
      match Eval.program settings (session.feed text).prepare with
      | .ok value finished =>
          (.ok value, finished.dropText.withObserver
            (settings.hooks.hear finished.observer
              (.event (.parseEnd value) (finished.dropText.withObserver ()))))
      | .error failure finished =>
          let reported := finished.report failure
          (.error reported, finished.unwind.dropText.withObserver
            (settings.hooks.hear finished.observer
              (.event (.onError reported) (finished.unwind.withObserver ())))) := by
  rw [parse]
  cases ran : Eval.program settings (session.feed text).prepare with
  | ok value finished =>
      simp only [Eval.emit_harmless harmless]
      rfl
  | error failure finished =>
      have told := Eval.tell_harmless harmless (.onError (finished.report failure)) finished.unwind
      simp only [caught?_of_silent harmless.toObserving harmless.toSilent ran]
      rw [show settings.hooks.listeners .onError = settings.hooks.listeners
        (Notice.onError (finished.report failure)).event from rfl, told]
      rfl

theorem parse_recording (settings : Settings σ) (session : Session σ) (text : String) :
    (session.withObserver []).parse (settings.withHooks .recording) text =
      match Eval.program (settings.withHooks .recording)
          ((session.feed text).prepare.withObserver []) with
      | .ok value finished =>
          (.ok value, finished.dropText.withObserver
            (finished.observer ++
              [.event (.parseEnd value) (finished.dropText.withObserver ())]))
      | .error failure finished =>
          let reported := finished.report failure
          (.error reported, finished.unwind.dropText.withObserver
            (finished.observer ++
              [.event (.onError reported) (finished.unwind.withObserver ())])) := by
  have harmless : (settings.withHooks .recording).hooks.Harmless := Hooks.harmless_recording
  have prepared : ((session.withObserver ([] : List Occurrence)).feed text).prepare =
      (session.feed text).prepare.withObserver [] := rfl
  simp only [parse_of_harmless harmless, Settings.hooks_withHooks, Hooks.hear_recording, prepared]
  cases Eval.program (settings.withHooks .recording) ((session.feed text).prepare.withObserver [])
    <;> rfl

/--
With harmless hooks, an evaluation has the outcome of the recorded one and leaves the same session,
and its handlers have heard all that was recorded, one occurrence after the other.
-/
theorem parse_heard (harmless : settings.hooks.Harmless) (session : Session σ) (text : String) :
    let recorded := (session.withObserver []).parse (settings.withHooks .recording) text
    session.parse settings text =
      (recorded.1, recorded.2.withObserver
        ((session.occurrences settings text).foldl settings.hooks.hear session.observer)) := by
  have start : (Coupling.hearing settings.hooks session.observer).related
      ((session.feed text).prepare.withObserver []) (session.feed text).prepare :=
    ⟨⟨rfl, rfl, rfl, rfl⟩, rfl⟩
  have both := (Coupling.whole_hearing harmless).program _ _ start
  simp only [occurrences, parse_of_harmless harmless, parse_recording]
  cases ran : Eval.program (settings.withHooks .recording)
      ((session.feed text).prepare.withObserver []) with
  | ok value finished =>
      rcases both.of_ok ran with ⟨heardFinished, heardRan, _, twin, heard⟩
      simp only [heardRan, heard, twin.dropText.withObserver_eq]
      simp [withObserver]
  | error failure finished =>
      rcases both.of_error ran with ⟨heardFinished, heardRan, _, twin, heard⟩
      simp only [heardRan, heard, twin.report, twin.unwind.withObserver_eq,
        twin.unwind.dropText.withObserver_eq]
      simp [withObserver]

end Session

end BlockCalc
