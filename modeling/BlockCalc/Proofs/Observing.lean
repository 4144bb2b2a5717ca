import BlockCalc.Proofs.Twins
import BlockCalc.Proofs.Recording
import BlockCalc.Proofs.Steady

/-!
# Invariants where handlers look on

Handlers that look on change nothing but their own state. So what holds of the state of an
evaluation apart from its observer is an invariant as soon as every step keeps it, whatever the
handlers are and wherever they end the evaluation.
-/

namespace BlockCalc

variable {σ τ ρ : Type}

namespace Session

/-- The state that another observer sees. -/
def withObserver (session : Session σ) (observer : τ) : Session τ where
  toWorkspace := session.toWorkspace
  position := session.position
  groups := session.groups
  log := session.log
  observer := observer

@[simp]
theorem withObserver_withObserver (session : Session σ) (observer : τ) (other : ρ) :
    (session.withObserver observer).withObserver other = session.withObserver other :=
  rfl

@[simp]
theorem log_withObserver (session : Session σ) (observer : τ) :
    (session.withObserver observer).log = session.log :=
  rfl

theorem Untouched.withObserver_eq {before after : Session σ} (untouched : before.Untouched after) :
    after.withObserver () = before.withObserver () := by
  rw [untouched]
  rfl

theorem twin_withObserver (session : Session σ) (observer : τ) :
    session.Twin (session.withObserver observer) :=
  ⟨rfl, rfl, rfl, rfl⟩

namespace Twin

variable {first : Session σ} {second : Session τ} (twin : first.Twin second)

include twin

theorem withObserver_eq (observer : ρ) :
    second.withObserver observer = first.withObserver observer := by
  simp only [withObserver, twin.workspace, twin.position, twin.groups, twin.log]

theorem setScope (scope : Scope) :
    ({ first with scope } : Session σ).Twin { second with scope } :=
  ⟨by rw [twin.workspace], twin.position, twin.groups, twin.log⟩

theorem logged (entry : Entry) : (first.logged entry).Twin (second.logged entry) :=
  ⟨twin.workspace, twin.position, twin.groups, congrArg (StepLog.push · entry) twin.log⟩

theorem dropText : first.dropText.Twin second.dropText :=
  ⟨congrArg Workspace.dropText twin.workspace, twin.position, twin.groups, twin.log⟩

theorem unwind : first.unwind.Twin second.unwind :=
  ⟨by simp only [Session.unwind, twin.workspace], twin.position, rfl, twin.log⟩

theorem report (failure : Failure) : second.report failure = first.report failure := by
  simp only [Session.report, twin.log, twin.groups]

theorem entry_eq {settings : Settings σ} {other : Settings τ}
    (sameVerbose : other.verbose = settings.verbose) (step : Step) (location : Option Location) :
    second.entry other step location = first.entry settings step location := by
  simp only [entry, twin.scope, twin.log, sameVerbose]

end Twin

end Session

namespace Coupling

variable {settings : Settings σ} {good : Value → Prop} {holds : Session Unit → Prop}

/-- An evaluation coupled with itself; `holds` is about its state. -/
def observed (good : Value → Prop) (holds : Session Unit → Prop) : Coupling σ σ where
  related first second := first = second ∧ holds (first.withObserver ())
  good := good

theorem carries_of_watches {action : Eval σ Unit} {fails : Failure → Prop}
    (watches : Eval.Watches action fails) :
    (observed good holds).Carries action action fun _ => True := by
  rintro session _ ⟨rfl, held⟩
  apply Eval.EnsuresBoth.self_iff.mpr
  apply (watches session).mono
  · intro _ after untouched
    exact ⟨trivial, rfl, untouched.withObserver_eq ▸ held⟩
  · rintro _ after ⟨untouched, _⟩
    exact ⟨trivial, rfl, untouched.withObserver_eq ▸ held⟩

theorem carriesFrom_record_observed (observing : settings.hooks.Observing) {session : Session σ}
    {step : Step} {scope : Scope} (location : Option Location)
    (kept : ∀ {entry : Entry}, entry.Tells session.log step →
      holds (({ session with scope } : Session σ).logged entry |>.withObserver ())) :
    (observed good holds).CarriesFrom { session with scope } { session with scope }
      (Eval.record settings step location) (Eval.record settings step location)
      fun _ => True := by
  have recorded := kept (({ session with scope } : Session σ).tells_entry settings step location)
  let entry := ({ session with scope } : Session σ).entry settings step location
  have watches := Eval.watches_afterStep observing { index := entry.index, step, location }
  have carries : (observed good holds).Carries _ _ fun _ => True := carries_of_watches watches
  simpa only [CarriesFrom, Eval.EnsuresBoth, Eval.Ensures, Eval.record_eq observing]
    using carries _ _ ⟨rfl, recorded⟩

theorem lawful_observed (observing : settings.hooks.Observing) (closed : Value.Closed good)
    (reads : ∀ {state}, holds state → ∀ {name value},
      state.scope.read name = .ok value → good value)
    (kept : ∀ {state step scope}, holds state → state.scope.Takes good step scope → step.Inner →
      ∀ {entry : Entry}, entry.Tells state.log step →
        holds (({ state with scope } : Session Unit).logged entry)) :
    (observed good holds).Lawful settings settings where
  twin := by
    rintro session _ ⟨rfl, _⟩
    exact ⟨rfl, rfl, rfl, rfl⟩
  sameFile := rfl
  fails _ := trivial
  closed := closed
  goodRead related read := reads related.2 read
  step := by
    rintro session _ step scope ⟨rfl, held⟩ takes inner location
    exact carriesFrom_record_observed observing location (kept held takes inner)

theorem whole_observed (observing : settings.hooks.Observing) (closed : Value.Closed good)
    (reads : ∀ {state}, holds state → ∀ {name value},
      state.scope.read name = .ok value → good value)
    (moved : ∀ {state}, holds state → ∀ position groups, holds { state with position, groups })
    (kept : ∀ {state step scope}, holds state → state.scope.Takes good step scope →
      ∀ {entry : Entry}, entry.Tells state.log step →
        holds (({ state with scope } : Session Unit).logged entry)) :
    (observed good holds).Whole settings settings where
  toLawful := lawful_observed observing closed reads fun held takes _ => kept held takes
  observing := observing
  otherObserving := observing
  sameNesting := rfl
  tooDeep _ := trivial
  moved := by
    rintro session _ ⟨rfl, held⟩ position groups
    exact ⟨rfl, moved held position groups⟩
  anyStep := by
    rintro session _ step scope ⟨rfl, held⟩ takes location
    exact carriesFrom_record_observed observing location (kept held takes)
  tell notice := by
    rw [Eval.emit_eq observing]
    exact carries_of_watches (Eval.watches_listeners observing notice)

/-- What holds of the state of an evaluation at the start holds at the end, however it ends. -/
theorem ensures_program_observed (whole : (observed good holds).Whole settings settings)
    {session : Session σ} (start : holds (session.withObserver ())) :
    Eval.Ensures (Eval.program settings) session
      (fun value after => good value ∧ holds (after.withObserver ()))
      (fun _ after => holds (after.withObserver ())) := by
  apply (Eval.EnsuresBoth.self_iff.mp (whole.program session session ⟨rfl, start⟩)).mono
  · intro value after holds
    exact ⟨holds.1, holds.2.2⟩
  · intro failure after holds
    exact holds.2.2

end Coupling

end BlockCalc
