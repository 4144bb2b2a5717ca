import BlockCalc.Proofs.Hearing
import BlockCalc.Proofs.Turns
import Mathlib.Data.List.Forall2

/-!
# What a trace tells

All that occurs in an evaluation stands between two events, its start and its end or failure. In
between, blocks are entered and left, and a block is left only if it is the innermost one; the event
then tells the depth of the block and the names that were declared in it. Where an evaluation fails,
the blocks that have not been left are those of the curly brackets that were open. Each entry of the
log is heard of right after it has been added. `Faithful` says all this of a trace.

An evaluation that is recorded is traced: one lemma for events and one for steps say how the record
grows with it.
-/

namespace BlockCalc

/-- A block that has been entered, with the names that have been declared in it since. -/
structure OpenBlock where
  depth : Nat
  declared : List String

namespace OpenBlock

/-- The open blocks, innermost first, after a name has been declared in the innermost one. -/
def declare (name : String) : List OpenBlock → List OpenBlock
  | [] => []
  | block :: outer =>
      if name ∈ block.declared then block :: outer
      else { block with declared := block.declared ++ [name] } :: outer

/-- The open blocks after a logged step. -/
def afterStep (blocks : List OpenBlock) : Step → List OpenBlock
  | .declare name _ _ => declare name blocks
  | _ => blocks

/--
The open blocks after an event in the midst of an evaluation, which must be that a block is entered
or that the innermost one is left. The latter tells the depth of the block and lists the names
declared in it, from the smallest to the greatest.
-/
def afterEvent? : List OpenBlock → Notice → Option (List OpenBlock)
  | blocks, .scopeEnter depth => some ({ depth, declared := [] } :: blocks)
  | block :: outer, .scopeExit depth discarded =>
      if depth = block.depth ∧ discarded.Perm block.declared ∧ discarded.Pairwise Text.InOrder then
        some outer
      else none
  | _, _ => none

/-- The open blocks after an occurrence, which may be impossible. -/
def after? (blocks : List OpenBlock) : Occurrence → Option (List OpenBlock)
  | .event notice _ => afterEvent? blocks notice
  | .step notice _ => some (afterStep blocks notice.step)

/-- The blocks that some occurrences leave open, if blocks are properly nested in them. -/
def unclosed? (occurrences : List Occurrence) : Option (List OpenBlock) :=
  occurrences.foldlM after? []

/-- An evaluation has started, and what has occurred since then leaves the blocks open. -/
def LeftOpen (blocks : List OpenBlock) (occurrences : List Occurrence) : Prop :=
  ∃ start inner, occurrences = .event .parseStart start :: inner ∧ start.log = .empty ∧
    unclosed? inner = some blocks

theorem LeftOpen.concat {blocks changed : List OpenBlock} {occurrences : List Occurrence}
    (left : LeftOpen blocks occurrences) {last : Occurrence}
    (leads : after? blocks last = some changed) : LeftOpen changed (occurrences ++ [last]) := by
  rcases left with ⟨start, inner, rfl, before, leaves⟩
  refine ⟨start, inner ++ [last], rfl, before, ?_⟩
  rw [unclosed?] at leaves ⊢
  simp [List.foldlM_append, leaves, leads]

/-- The open blocks of a scope above a depth, given the names in its frames. -/
def above (base : Nat) : List (List String) → List OpenBlock
  | [] => []
  | names :: outer =>
      if base < outer.length then { depth := outer.length, declared := names } :: above base outer
      else []

theorem length_above {base : Nat} {names : List (List String)} (enough : base < names.length) :
    (above base names).length + base + 1 = names.length := by
  induction names with
  | nil => simp at enough
  | cons innermost outer ih =>
      simp only [above]
      split
      · rename_i more
        have further := ih more
        simp only [List.length_cons]
        omega
      · simp only [List.length_nil, List.length_cons] at enough ⊢
        omega

theorem above_depth (scope : Scope) : above scope.depth scope.names = [] := by
  have length := length_above (by rw [scope.length_names]; omega : scope.depth < scope.names.length)
  rw [scope.length_names] at length
  exact List.eq_nil_of_length_eq_zero (by omega)

theorem above_enter {base : Nat} {scope : Scope} (deep : base ≤ scope.depth) :
    above base scope.enter.names =
      { depth := scope.enter.depth, declared := [] } :: above base scope.names := by
  have below : base < scope.names.length := by
    rw [scope.length_names]
    omega
  rw [scope.depth_enter, ← scope.length_names, scope.names_enter, above, if_pos below]

theorem above_of_exit {base : Nat} {scope outer : Scope} {frame : Frame}
    (left : scope.exit = .ok (frame, outer)) (deep : base < scope.depth) :
    above base scope.names =
      { depth := scope.depth, declared := frame.names } :: above base outer.names := by
  have names := Scope.names_of_exit left
  have outerLength : outer.names.length = scope.depth := by
    have length := congrArg List.length names
    rw [scope.length_names, List.length_cons] at length
    omega
  rw [names, above, outerLength, if_pos deep]

theorem declare_above (base : Nat) (names : List (List String)) (name : String) :
    declare name (above base names) = above base (declareIn names name) := by
  cases names with
  | nil => rfl
  | cons innermost outer =>
      simp only [above, declareIn]
      split
      · simp only [declare]
        split <;> rfl
      · rfl

/-- Steps between two brackets change the open blocks as they change the scope. -/
theorem afterStep_above {base : Nat} {good : Value → Prop} {scope changed : Scope} {step : Step}
    (takes : scope.Takes good step changed) (inner : step.Inner) :
    afterStep (above base scope.names) step = above base changed.names := by
  cases takes with
  | declare name =>
      rw [Scope.names_declare]
      exact declare_above base scope.names name
  | reduce operator operands => rfl
  | assign operator holds present assigned =>
      rw [Scope.names_of_assign assigned]
      rfl
  | _ => exact inner.elim

end OpenBlock

namespace Occurrence

/-- The step of an occurrence, with the session that its rules saw. -/
def step? : Occurrence → Option (StepNotice × Session Unit)
  | .event _ _ => none
  | .step notice state => some (notice, state)

/-- A step is heard of as an entry tells it, right after the entry has been added to the log. -/
structure Reports (heard : StepNotice × Session Unit) (entry : Entry) : Prop where
  index : heard.1.index = entry.index
  location : heard.1.location = entry.location
  logged : ∃ log, entry.Tells log heard.1.step ∧ heard.2.log = log.push entry

end Occurrence

/-- The event at the end of an evaluation with an outcome, and how many blocks are open there. -/
inductive EndsWith : Except Failure Value → Notice → Nat → Prop where
  | ok (value : Value) : EndsWith (.ok value) (.parseEnd value) 0
  | error (failure : Failure) :
      EndsWith (.error failure) (.onError failure) (failure.groups.countP (·.bracket = .curly))

/--
The trace tells of an evaluation with an outcome and a log. It starts with one event, before any
step, and ends with another one, after all steps. In between, it is properly nested, and it leaves
those blocks open that the outcome tells of. A step rule of any period is due for exactly the
entries with a multiple of it as index, in their order.
-/
structure Faithful (trace : List Occurrence) (outcome : Except Failure Value) (log : StepLog) :
    Prop where
  events : ∃ start inner final last blocks,
    trace = .event .parseStart start :: inner ++ [.event final last] ∧
      start.log = .empty ∧ last.log = log ∧ OpenBlock.unclosed? inner = some blocks ∧
      EndsWith outcome final blocks.length
  calls : ∀ period,
    ((trace.filterMap Occurrence.step?).filter fun heard => heard.1.index % period = 0).Forall₂
      Occurrence.Reports (log.entries.toList.filter fun entry => entry.index % period = 0)

namespace Session

/-- The session after it was written down that something occurred. -/
def noting (session : Session (List Occurrence)) (occurrence : Occurrence) :
    Session (List Occurrence) :=
  session.withObserver (session.observer ++ [occurrence])

/-- What has occurred up to here leaves some blocks open and tells all entries of the log. -/
def Traced (blocks : List OpenBlock) (session : Session (List Occurrence)) : Prop :=
  OpenBlock.LeftOpen blocks session.observer ∧
    (session.observer.filterMap Occurrence.step?).Forall₂ Occurrence.Reports
      session.log.entries.toList

variable {session : Session (List Occurrence)} {blocks changed : List OpenBlock}

theorem traced_noting_start (fresh : session.observer = []) (unlogged : session.log = .empty) :
    (session.noting (.event .parseStart (session.withObserver ()))).Traced [] := by
  constructor
  · refine ⟨session.withObserver (), [], ?_, unlogged, rfl⟩
    simp [noting, withObserver, fresh]
  · simp [noting, withObserver, fresh, unlogged, List.filterMap_cons, Occurrence.step?,
      StepLog.empty]

theorem Traced.noting_event (traced : session.Traced blocks) {notice : Notice}
    (leads : OpenBlock.afterEvent? blocks notice = some changed) (state : Session Unit) :
    (session.noting (.event notice state)).Traced changed := by
  constructor
  · exact traced.1.concat leads
  · simpa [noting, withObserver, List.filterMap_cons, Occurrence.step?] using traced.2

theorem Traced.noting_step (traced : session.Traced blocks) {entry : Entry} {step : Step}
    {location : Option Location} (tells : entry.Tells session.log step)
    (located : entry.location = location) :
    ((session.logged entry).noting
      (.step { index := entry.index, step, location } ((session.logged entry).withObserver ()))
      ).Traced (OpenBlock.afterStep blocks step) := by
  constructor
  · exact traced.1.concat rfl
  · have reported : Occurrence.Reports
        ({ index := entry.index, step, location }, (session.logged entry).withObserver ()) entry :=
      ⟨rfl, located.symm, session.log, tells, rfl⟩
    have further := List.rel_append traced.2 (.cons reported .nil)
    simpa [noting, withObserver, logged, StepLog.push, List.filterMap_cons, Occurrence.step?]
      using further

theorem Traced.faithful (traced : session.Traced blocks) {outcome : Except Failure Value}
    {final : Notice} (ends : EndsWith outcome final blocks.length) {last : Session Unit}
    (sameLog : last.log = session.log) :
    Faithful (session.observer ++ [.event final last]) outcome session.log := by
  constructor
  · rcases traced.1 with ⟨start, inner, observed, before, leaves⟩
    exact ⟨start, inner, final, last, blocks, by rw [observed], before, sameLog, leaves, ends⟩
  · intro period
    have sameDue : ∀ ⦃heard entry⦄, Occurrence.Reports heard entry →
        (decide (heard.1.index % period = 0) = true ↔
          decide (entry.index % period = 0) = true) := by
      intro heard entry reports
      rw [reports.index]
    have noStep : Occurrence.step? (.event final last) = none := rfl
    simpa [List.filterMap_cons, noStep] using List.rel_filter sameDue traced.2

end Session

end BlockCalc
