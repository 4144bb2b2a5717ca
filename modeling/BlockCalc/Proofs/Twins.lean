import BlockCalc.Proofs.Carrying
import BlockCalc.Proofs.Recording

/-!
# Evaluations that differ in their observers

Where two sessions differ at most in the state of the observer, the actions of an evaluation are the
same on both, as long as the handlers keep it so. A coupling of such sessions is lawful if the
recording of a step keeps it, in the scope that the step leads to. From that this file derives that
the whole evaluation carries it, from the first call of a handler to the last step.

The laws come in two layers. `Coupling.Lawful` is about what happens between two brackets, and
`Coupling.Whole` is about brackets, blocks and the start of an evaluation.
-/

namespace BlockCalc

variable {σ τ : Type}

/-- The sessions differ at most in their observers. -/
structure Session.Twin (first : Session σ) (second : Session τ) : Prop where
  workspace : second.toWorkspace = first.toWorkspace
  position : second.position = first.position
  groups : second.groups = first.groups
  log : second.log = first.log

namespace Session.Twin

variable {first : Session σ} {second : Session τ} (twin : first.Twin second)

include twin

theorem scope : second.scope = first.scope :=
  congrArg Workspace.scope twin.workspace

theorem source : second.source = first.source :=
  congrArg Workspace.source twin.workspace

theorem program : second.program = first.program :=
  congrArg Workspace.program twin.workspace

theorem with_scope : { second with scope := first.scope } = second := by
  rw [← twin.scope]

end Session.Twin

namespace Coupling

/-- The actions between two brackets that change a binding or record a step keep the coupling. -/
structure Lawful (coupling : Coupling σ τ) (settings : Settings σ) (other : Settings τ) : Prop where
  twin : ∀ {first second}, coupling.related first second → first.Twin second
  sameFile : other.fileName = settings.fileName
  fails : ∀ {cause : Cause}, ¬cause.IsTooDeep → coupling.fails cause
  closed : Value.Closed coupling.good
  goodRead : ∀ {first second name value}, coupling.related first second →
    first.scope.read name = .ok value → coupling.good value
  step : ∀ {first second step scope}, coupling.related first second →
    first.scope.Takes coupling.good step scope → step.Inner → ∀ location,
      coupling.CarriesFrom { first with scope } { second with scope }
        (Eval.record settings step location) (Eval.record other step location) fun _ => True

namespace Lawful

variable {coupling : Coupling σ τ} {settings : Settings σ} {other : Settings τ}
  (lawful : coupling.Lawful settings other)

include lawful

theorem assign (operator : BinaryOp) (name : String) {value : Value} (good : coupling.good value)
    (present : value.Present) (location : Location) :
    coupling.Carries (Eval.assign settings operator name value location)
      (Eval.assign other operator name value location) fun _ => True := by
  apply Carries.get_bind
  intro first second related
  rw [(lawful.twin related).scope]
  cases assigned : first.scope.assign name value with
  | error cause =>
      have operational := first.scope.operational_assign name value cause assigned
      exact .fail ⟨lawful.fails operational.not_tooDeep, related⟩
  | ok changed =>
      have takes := Scope.Takes.assign operator good present assigned
      simp only [Eval.ofExcept_ok, pure_bind]
      exact Eval.EnsuresBoth.setScope (lawful.step related takes trivial (some location))

theorem primitive : coupling.Primitive (fun _ => True) settings other where
  sameFile := lawful.sameFile
  sameSource related := (lawful.twin related).source
  sameLast related := by rw [(lawful.twin related).log]
  sameHas related _ := by rw [(lawful.twin related).scope]
  sameRead related _ := by rw [(lawful.twin related).scope]
  fails := lawful.fails
  closed := lawful.closed
  goodRead := lawful.goodRead
  reduceStep operator operands location := by
    intro first second related
    have carries := lawful.step related (.reduce operator operands) trivial location
    rwa [(lawful.twin related).with_scope] at carries
  declare {name} _ location := by
    apply Carries.get_bind
    intro first second related
    rw [(lawful.twin related).scope]
    exact Eval.EnsuresBoth.setScope (lawful.step related (.declare name) trivial (some location))
  assign operator {name value} _ good present location :=
    lawful.assign operator name good present location

end Lawful

/-- Brackets, blocks and the start of an evaluation keep the coupling, too. -/
structure Whole (coupling : Coupling σ τ) (settings : Settings σ) (other : Settings τ) : Prop
    extends coupling.Lawful settings other where
  observing : settings.hooks.Observing
  otherObserving : other.hooks.Observing
  sameNesting : other.nesting = settings.nesting
  tooDeep : ∀ limit, coupling.fails (.invalidExpression (.tooDeep limit))
  moved : ∀ {first second}, coupling.related first second → ∀ position groups,
    coupling.related { first with position, groups } { second with position, groups }
  anyStep : ∀ {first second step scope}, coupling.related first second →
    first.scope.Takes coupling.good step scope → ∀ location,
      coupling.CarriesFrom { first with scope } { second with scope }
        (Eval.record settings step location) (Eval.record other step location) fun _ => True
  tell : ∀ notice, coupling.Carries (Eval.emit settings notice) (Eval.emit other notice)
    fun _ => True

namespace Whole

variable {coupling : Coupling σ τ} {settings : Settings σ} {other : Settings τ}
  (whole : coupling.Whole settings other)

include whole

theorem advance : coupling.Carries Eval.advance Eval.advance fun _ => True := by
  intro first second related
  have twin := whole.twin related
  have moved := whole.moved related (first.position + 1) first.groups
  refine ⟨rfl, trivial, ?_⟩
  simpa only [twin.position, twin.groups] using moved

theorem openGroup (bracket : Bracket) (location : Location) :
    coupling.Carries (Eval.openGroup settings bracket location)
      (Eval.openGroup other bracket location) fun _ => True := by
  apply Carries.get_bind
  intro first second related
  have twin := whole.twin related
  rw [twin.groups, whole.sameNesting]
  split
  · exact .fail ⟨whole.tooDeep _, related⟩
  · have moved := whole.moved related first.position
      ({ bracket, location, depth := first.groups.length + 1 } :: first.groups)
    refine ⟨rfl, trivial, ?_⟩
    simpa only [twin.position, twin.groups] using moved

theorem closeGroup (next : Option Token) :
    coupling.Carries (Eval.closeGroup next) (Eval.closeGroup next) fun _ => True := by
  apply Carries.get_bind
  intro first second related
  have twin := whole.twin related
  rw [twin.groups]
  split
  · rw [twin.log]
    exact .fail ⟨whole.fails not_false, related⟩
  · rename_i group outer _
    split
    · have moved := whole.moved related (first.position + 1) outer
      refine ⟨rfl, trivial, ?_⟩
      simpa only [twin.position] using moved
    · exact .fail ⟨whole.fails not_false, related⟩

theorem record_parse (tokens : Nat) :
    coupling.Carries (Eval.record settings (.parse tokens) none)
      (Eval.record other (.parse tokens) none) fun _ => True := by
  intro first second related
  have carries := whole.anyStep related (.parse tokens) none
  rwa [(whole.twin related).with_scope] at carries

theorem enterBlock (location : Location) :
    coupling.Carries (Eval.enterBlock settings location) (Eval.enterBlock other location)
      fun _ => True := by
  rw [Eval.enterBlock_eq, Eval.enterBlock_eq]
  apply Carries.get_bind
  intro first second related
  rw [(whole.twin related).scope]
  apply Eval.EnsuresBoth.setScope
  apply (whole.anyStep related .enterScope (some location)).bind
  rintro _ after afterOther ⟨_, stillRelated⟩
  refine Carries.get_bind ?_ after afterOther stillRelated
  intro entered otherEntered enteredRelated
  rw [(whole.twin enteredRelated).scope]
  exact whole.tell _ entered otherEntered enteredRelated

theorem exitBlock (location : Location) :
    coupling.Carries (Eval.exitBlock settings location) (Eval.exitBlock other location)
      fun _ => True := by
  rw [Eval.exitBlock_eq whole.observing, Eval.exitBlock_eq whole.otherObserving]
  apply Carries.get_bind
  intro first second related
  rw [(whole.twin related).scope]
  cases left : first.scope.exit with
  | error cause =>
      have shallow : ¬cause.IsTooDeep := by
        rw [Scope.exit_eq_error left]
        exact not_false
      exact .fail ⟨whole.fails shallow, related⟩
  | ok result =>
      rcases result with ⟨frame, outer⟩
      simp only [Eval.ofExcept_ok, pure_bind]
      apply Eval.EnsuresBoth.setScope
      apply (whole.anyStep related (.exitScope left) (some location)).bind
      rintro _ after afterOther ⟨_, stillRelated⟩
      exact whole.tell _ after afterOther stillRelated

theorem bracketed : coupling.Bracketed (fun _ => True) settings other where
  toPrimitive := whole.primitive
  advance := whole.advance
  openGroup := whole.openGroup
  closeGroup := whole.closeGroup
  enterBlock := whole.enterBlock
  exitBlock := whole.exitBlock

theorem program :
    coupling.Carries (Eval.program settings) (Eval.program other) coupling.good := by
  apply (whole.tell .parseStart).bind
  intro _ _
  apply Carries.get_bind
  intro first second related
  rw [(whole.twin related).program]
  apply (whole.record_parse first.program.length first second related).bind
  rintro _ after afterOther ⟨_, stillRelated⟩
  refine Carries.get_bind ?_ after afterOther stillRelated
  intro begun otherBegun begunRelated
  rw [(whole.twin begunRelated).program]
  exact whole.bracketed.evaluate (fun token _ => token.mentions_true) begun otherBegun
    begunRelated

end Whole

end Coupling

end BlockCalc
