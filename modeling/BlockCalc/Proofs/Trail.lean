import BlockCalc.Proofs.History
import BlockCalc.Proofs.Watching
import BlockCalc.Proofs.WellFormed
import Mathlib.Data.List.Chain

/-!
# What variables hold in the course of a session

The trail of a session is the sequence of the scopes in which its steps are logged and of those that
its uses leave. Without handlers, one scope of the trail follows from the scope before it by a step,
by nothing, or by leaving all blocks after a failure. So variables hold well-formed values all along
the trail, and a variable that has been assigned once stays assigned while its frame is there.
Resetting a session replaces even the outermost frame, which is why the latter is about uses among
which there is no reset.
-/

namespace BlockCalc

variable {σ : Type}

/-- The second scope follows from the first one by a step or by the end of an evaluation. -/
def Scope.Evolves (scope changed : Scope) : Prop :=
  (∃ step, scope.Takes Value.WellFormed step changed) ∨ changed = scope ∨ changed = scope.unwind

namespace Scope.Evolves

variable {scope changed : Scope} {depth : Nat} {name : String}

theorem wellFormed (evolves : scope.Evolves changed) (wellFormed : scope.WellFormed) :
    changed.WellFormed := by
  rcases evolves with ⟨step, takes⟩ | rfl | rfl
  · exact takes.wellFormed wellFormed
  · exact wellFormed
  · exact wellFormed_unwind wellFormed

theorem assigned_stays (evolves : scope.Evolves changed) (assigned : scope.Assigned depth name)
    (there : depth ≤ changed.depth) : changed.Assigned depth name := by
  rcases evolves with ⟨step, takes⟩ | rfl | rfl
  · exact takes.assigned_stays assigned there
  · exact assigned
  · exact assigned_unwind assigned there

theorem wellFormed_of_isChain {first : Scope} {rest : List Scope}
    (chain : (first :: rest).IsChain Scope.Evolves) (wellFormed : first.WellFormed) :
    ∀ scope ∈ first :: rest, scope.WellFormed := by
  induction rest generalizing first with
  | nil => simpa using wellFormed
  | cons second rest ih =>
      rw [List.isChain_cons_cons] at chain
      rw [List.forall_mem_cons]
      exact ⟨wellFormed, ih chain.2 (chain.1.wellFormed wellFormed)⟩

theorem assigned_of_isChain {first : Scope} {rest : List Scope}
    (chain : (first :: rest).IsChain Scope.Evolves)
    (there : ∀ scope ∈ first :: rest, depth ≤ scope.depth) (assigned : first.Assigned depth name) :
    ∀ scope ∈ rest, scope.Assigned depth name := by
  induction rest generalizing first with
  | nil => simp
  | cons second rest ih =>
      rw [List.isChain_cons_cons] at chain
      rw [List.forall_mem_cons] at there
      have secondAssigned : second.Assigned depth name :=
        chain.1.assigned_stays assigned (there.2 second List.mem_cons_self)
      rw [List.forall_mem_cons]
      exact ⟨secondAssigned, ih chain.2 there.2 secondAssigned⟩

end Scope.Evolves

namespace Session

/-- If the last step was an assignment, its name denotes a value that is present. -/
def StoresPresent (moment : Session Unit) : Prop :=
  ∀ entry name, moment.log.entries.back? = some entry →
    entry.record.get? "rule" = some (.text "ASSIGN") →
    entry.record.get? "name" = some (.text name) →
      ∃ value, moment.scope.read? name = some value ∧ value.Present

theorem storesPresent_logged {state : Session Unit} {step : Step} {scope : Scope}
    (takes : state.scope.Takes Value.WellFormed step scope) {entry : Entry}
    (tells : entry.Tells state.log step) :
    StoresPresent (({ state with scope } : Session Unit).logged entry) := by
  intro last name isLast isAssign named
  have same : entry = last := by simpa [logged, StepLog.push] using isLast
  subst same
  rw [tells.get?_record (by decide) (by decide)] at isAssign named
  cases takes with
  | assign operator holds present assigned =>
      simp [Step.fields, Step.details, List.lookup_cons] at named
      exact ⟨_, named ▸ Scope.read?_of_assign assigned, present⟩
  | _ => simp [Step.fields, Step.rule] at isAssign

/-- What holds from the start of an evaluation up to one of its moments. -/
structure Evolved (start : Scope) (moments : List (Session Unit)) (state : Session Unit) :
    Prop where
  started : start.WellFormed
  chain : (start :: moments.map (·.scope)).IsChain Scope.Evolves
  last : (start :: moments.map (·.scope)).getLast? = some state.scope
  stores : ∀ moment ∈ moments, moment.StoresPresent

namespace Evolved

variable {start : Scope} {moments : List (Session Unit)} {state : Session Unit}

theorem wellFormed_scope (evolved : Evolved start moments state) : state.scope.WellFormed :=
  Scope.Evolves.wellFormed_of_isChain evolved.chain evolved.started state.scope
    (List.mem_of_getLast? evolved.last)

theorem chain_append (evolved : Evolved start moments state) {scope : Scope}
    (evolves : state.scope.Evolves scope) :
    (start :: (moments.map (·.scope) ++ [scope])).IsChain Scope.Evolves := by
  rw [← List.cons_append, List.isChain_append]
  refine ⟨evolved.chain, List.isChain_singleton _, ?_⟩
  intro before isLast next isNext
  rw [evolved.last] at isLast
  cases isLast
  cases isNext
  exact evolves

theorem forall_moments (evolved : Evolved start moments state) :
    ∀ moment ∈ moments, moment.scope.WellFormed ∧ moment.StoresPresent := by
  intro moment member
  refine ⟨?_, evolved.stores moment member⟩
  exact Scope.Evolves.wellFormed_of_isChain evolved.chain evolved.started moment.scope
    (List.mem_cons_of_mem _ (List.mem_map_of_mem member))

theorem keptBy {step : Step} {scope : Scope}
    (takes : state.scope.Takes Value.WellFormed step scope) :
    Coupling.KeptBy (Evolved start) state step scope := by
  intro moments entry evolved tells after
  have extended : (moments ++ [after]).map (·.scope) = moments.map (·.scope) ++ [scope] := by
    simp [after, logged]
  refine ⟨evolved.started, ?_, ?_, ?_⟩
  · rw [extended]
    exact evolved.chain_append (Or.inl ⟨step, takes⟩)
  · rw [extended, ← List.cons_append, List.getLast?_concat]
    rfl
  · intro moment member
    rw [List.mem_append, List.mem_singleton] at member
    rcases member with member | rfl
    · exact evolved.stores moment member
    · exact storesPresent_logged takes tells

end Evolved

variable {settings : Settings σ}

/-- An evaluation without handlers evolves the scope from its start to its end. -/
theorem parse_evolves (quiet : settings.hooks = .none) {session : Session σ}
    (wellFormed : session.scope.WellFormed) (text : String) :
    let after := (session.parse settings text).2
    (session.scope :: ((session.moments settings text).map (·.scope) ++ [after.scope])).IsChain
        Scope.Evolves ∧
      (∀ moment ∈ session.moments settings text,
        moment.scope.WellFormed ∧ moment.StoresPresent) ∧
      ∀ value, (session.parse settings text).1 = .ok value → value.WellFormed := by
  have whole : (Coupling.watching Value.WellFormed (fun _ => True)
      (Evolved session.scope)).Whole settings settings.watching :=
    Coupling.whole_watching quiet Value.closed_wellFormed
      (fun evolved _ _ reads => Scope.wellFormed_of_read evolved.wellFormed_scope reads)
      (fun evolved _ _ => ⟨evolved.started, evolved.chain, evolved.last, evolved.stores⟩)
      Evolved.keptBy
  have start : Evolved session.scope [] ((session.feed text).prepare.withObserver ()) :=
    ⟨wellFormed, List.isChain_singleton _, rfl, by simp⟩
  have both := program_watching whole start
  rw [parse_of_quiet quiet]
  cases ran : Eval.program settings (session.feed text).prepare with
  | ok value finished =>
      rcases both.of_ok ran with ⟨watched, watchedRan, valueWellFormed, _, evolved⟩
      rw [moments_of_ok watchedRan]
      refine ⟨evolved.chain_append (Or.inr (Or.inl rfl)), evolved.forall_moments, ?_⟩
      rintro _ ⟨⟩
      exact valueWellFormed
  | error failure finished =>
      rcases both.of_error ran with ⟨watched, watchedRan, _, _, evolved⟩
      rw [moments_of_error watchedRan]
      refine ⟨evolved.chain_append (Or.inr (Or.inr rfl)), evolved.forall_moments, ?_⟩
      rintro _ ⟨⟩

/-- The states in which a use of a session logs its steps. -/
def passing (settings : Settings σ) (session : Session σ) : Command → List (Session Unit)
  | .parse text => session.moments settings text
  | _ => []

/-- The scopes in which uses of a session log their steps, and those that the uses leave. -/
def trail (settings : Settings σ) (session : Session σ) : List Command → List Scope
  | [] => []
  | command :: later =>
      let after := (session.perform settings command).2
      (session.passing settings command).map (·.scope) ++ after.scope :: after.trail settings later

theorem wellFormed_fresh (observer : σ) : (fresh observer).scope.WellFormed := by
  intro frame member binding bindingMember
  rw [List.mem_singleton.mp member] at bindingMember
  cases bindingMember

theorem wellFormed_perform (quiet : settings.hooks = .none) {session : Session σ}
    (wellFormed : session.scope.WellFormed) (command : Command) :
    (session.perform settings command).2.scope.WellFormed := by
  cases command with
  | feed text => exact wellFormed
  | parse text =>
      have chain := (parse_evolves quiet wellFormed text).1
      exact Scope.Evolves.wellFormed_of_isChain chain wellFormed _ (by simp [perform])
  | reset => exact wellFormed_fresh session.observer

theorem wellFormed_performAll (quiet : settings.hooks = .none) {session : Session σ}
    (wellFormed : session.scope.WellFormed) (history : List Command) :
    (session.performAll settings history).scope.WellFormed := by
  induction history generalizing session with
  | nil => exact wellFormed
  | cons command later ih => exact ih (wellFormed_perform quiet wellFormed command)

/-- Along the trail of uses without a reset, one scope follows from the scope before it. -/
theorem isChain_trail (quiet : settings.hooks = .none) {session : Session σ}
    (wellFormed : session.scope.WellFormed) {later : List Command} (noReset : .reset ∉ later) :
    (session.scope :: session.trail settings later).IsChain Scope.Evolves := by
  induction later generalizing session with
  | nil => exact List.isChain_singleton _
  | cons command later ih =>
      rw [List.mem_cons, not_or] at noReset
      have afterWellFormed := wellFormed_perform quiet wellFormed command
      have following := ih afterWellFormed noReset.2
      cases command with
      | feed text => exact List.isChain_cons_cons.mpr ⟨Or.inr (Or.inl rfl), following⟩
      | parse text =>
          have evolves := (parse_evolves quiet wellFormed text).1
          exact List.isChain_cons_split.mpr ⟨evolves, following⟩
      | reset => exact absurd rfl noReset.1

/-- What holds of the values of a session, now and in the evaluations that may follow. -/
structure ValuesWellFormed (settings : Settings σ) (session : Session σ) : Prop where
  now : session.scope.WellFormed
  /-- At every step; what an assignment names is no more uninitialized when the step is logged. -/
  steps : ∀ text, ∀ moment ∈ session.moments settings text,
    moment.scope.WellFormed ∧ moment.StoresPresent
  returned : ∀ text value, (session.parse settings text).1 = .ok value → value.WellFormed
  /-- A stretch of the trail along which a frame is there keeps what has been assigned in it. -/
  stays : ∀ later, .reset ∉ later →
    ∀ first rest, first :: rest <:+: session.scope :: session.trail settings later →
      ∀ depth name, (∀ scope ∈ first :: rest, depth ≤ scope.depth) →
        first.Assigned depth name → ∀ scope ∈ rest, scope.Assigned depth name

/--
Without handlers, after any history, at every step of any evaluation, and in every value that it
returns, numbers are words and no pointer points to a value that is not present. No variable is
void, and one that has been assigned stays so as long as its frame is there.
-/
theorem valuesWellFormed_performAll (quiet : settings.hooks = .none) (observer : σ)
    (history : List Command) :
    ((fresh observer).performAll settings history).ValuesWellFormed settings := by
  have wellFormed : ((fresh observer).performAll settings history).scope.WellFormed :=
    wellFormed_performAll quiet (wellFormed_fresh observer) history
  refine ⟨wellFormed, ?_, ?_, ?_⟩
  · intro text
    exact (parse_evolves quiet wellFormed text).2.1
  · intro text
    exact (parse_evolves quiet wellFormed text).2.2
  · intro later noReset first rest stretch depth name there assigned
    -- A stretch of a chain is a chain.
    rcases stretch with ⟨earlier, afterwards, split⟩
    have chain := split ▸ isChain_trail quiet wellFormed noReset
    exact Scope.Evolves.assigned_of_isChain chain.left_of_append.right_of_append there assigned

theorem valuesWellFormed_performAll_declared :
    let settings : Settings Unit := {}
    let session := (fresh ()).performAll settings [.parse "let a = 1"]
    session.scope.top.get? "a" = some (.integer 1) ∧ session.ValuesWellFormed settings :=
  ⟨by decide +kernel, valuesWellFormed_performAll rfl () [.parse "let a = 1"]⟩

end Session

end BlockCalc
