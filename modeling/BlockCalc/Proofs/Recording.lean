import BlockCalc.Proofs.Onlooking

/-!
# What the log tells of a step

Recording a step adds one entry to the log and then calls the step rules. The record of the entry
holds the rule of the step and its details, each under its own name, so that they can be read back.
-/

namespace BlockCalc

namespace Table

variable {α : Type}

theorem get?_insertIfNew (table : Table α) (name other : String) (value : α) :
    (table.insertIfNew name value).get? other =
      if other = name then some ((table.get? name).getD value) else table.get? other := by
  cases found : table.get? name with
  | some old =>
      have present : table.contains name = true := by simp [contains, found]
      rw [insertIfNew, if_pos present]
      by_cases same : other = name
      · simp [same, found]
      · simp [same]
  | none =>
      have absent : ¬table.contains name = true := by simp [contains, found]
      rw [insertIfNew, if_neg absent, get?_insert]
      rfl

theorem get?_insertMany {pairs : List (String × α)} (nodup : (pairs.map Prod.fst).Nodup)
    (table : Table α) (name : String) :
    (table.insertMany pairs).get? name = (pairs.lookup name).or (table.get? name) := by
  induction pairs generalizing table with
  | nil => rfl
  | cons pair rest ih =>
      rcases pair with ⟨key, value⟩
      rw [List.map_cons, List.nodup_cons] at nodup
      change ((table.insert key value).insertMany rest).get? name = _
      rw [ih nodup.2, get?_insert]
      by_cases same : name = key
      · subst same
        have absent : rest.lookup name = none := by
          rw [List.lookup_eq_none_iff]
          intro pair member
          have other : name ≠ pair.1 := by
            rintro rfl
            exact nodup.1 (List.mem_map.mpr ⟨pair, member, rfl⟩)
          simpa using other
        simp [absent]
      · simp [same, List.lookup_cons, beq_eq_false_iff_ne.mpr same]

theorem get?_ofList {pairs : List (String × α)} (nodup : (pairs.map Prod.fst).Nodup)
    (name : String) : (ofList pairs).get? name = pairs.lookup name := by
  simp [ofList, get?_insertMany nodup]

end Table

namespace Step

/-- What a log entry tells of a step. -/
def fields (step : Step) : List (String × Json) :=
  ("rule", .text step.rule) :: step.details

theorem nodup_fields (step : Step) : (step.fields.map Prod.fst).Nodup := by
  cases step <;> simp [fields, details]

end Step

/-- The entry is the one that recording the step adds to the log. -/
def Entry.Tells (entry : Entry) (log : StepLog) (step : Step) : Prop :=
  ∃ location statement bindings,
    entry = log.nextEntry (.ofList step.fields) location statement bindings

namespace Entry.Tells

variable {entry : Entry} {log : StepLog} {step : Step}

theorem index (tells : entry.Tells log step) : entry.index = log.entries.size := by
  rcases tells with ⟨_, _, _, rfl⟩
  rfl

/-- A field that is no link to another state is one of the step. -/
theorem get?_record (tells : entry.Tells log step) {name : String}
    (noSource : name ≠ "from_state_id") (noTarget : name ≠ "to_state_id") :
    entry.record.get? name = step.fields.lookup name := by
  rcases tells with ⟨_, _, _, rfl⟩
  simp only [StepLog.nextEntry, Table.get?_insert, Table.get?_insertIfNew, noSource, noTarget,
    if_false, Table.get?_ofList step.nodup_fields]

end Entry.Tells

namespace Session

variable {σ : Type}

/-- The session with one more entry in its log. -/
def logged (session : Session σ) (entry : Entry) : Session σ :=
  { session with log := session.log.push entry }

/-- The entry that recording a step adds to the log. -/
def entry (settings : Settings σ) (session : Session σ) (step : Step)
    (location : Option Location) : Entry :=
  session.log.nextEntry (.ofList step.fields) location (location.map (·.statement))
    (if settings.verbose then some session.scope.snapshot else none)

theorem tells_entry (settings : Settings σ) (session : Session σ) (step : Step)
    (location : Option Location) : (session.entry settings step location).Tells session.log step :=
  ⟨_, _, _, rfl⟩

end Session

namespace Eval

variable {σ : Type} {settings : Settings σ}

/-- The step rules follow the entry of a step. -/
theorem recordShared_eq (settings : Settings σ) (step : Step) (location : Option Location)
    (session : Session σ) :
    recordShared settings step location session =
      follow (session.entry settings step location).index location step settings.hooks.stepRules
        (session.logged (session.entry settings step location)) :=
  rfl

/-- Step rules that look on leave the step as it is. -/
theorem recordShared_of_observing (observing : settings.hooks.Observing) (step : Step)
    (location : Option Location) :
    recordShared settings step location = (do record settings step location; return step) := by
  have follows (index : Nat) := follow_eq fun rule member =>
    observing.stepRules rule member { index, step, location }
  simp only [record, recordShared, follows, bind_assoc, pure_bind]

theorem record_eq (observing : settings.hooks.Observing) (step : Step)
    (location : Option Location) (session : Session σ) :
    record settings step location session =
      afterStep settings
        { index := (session.entry settings step location).index, step, location }
        (session.logged (session.entry settings step location)) := by
  have follows := follow_eq fun rule member => observing.stepRules rule member
    { index := (session.entry settings step location).index, step, location }
  change (do let _ ← recordShared settings step location : Eval σ Unit) session = _
  rw [bind_of_eq (recordShared_eq settings step location session), follows]
  simp only [bind_assoc, pure_bind, bind_pure_unit, afterStep]

/-- Where all handlers look on, they are told of the names in the frame that is discarded. -/
theorem exitBlock_eq (observing : settings.hooks.Observing) (location : Location) :
    exitBlock settings location = (do
      let session ← get
      let (frame, outer) ← ofExcept session.scope.exit
      setScope outer
      record settings (.exitScope session.scope.depth (Text.sortNames frame.names)) (some location)
      emit settings (.scopeExit session.scope.depth (Text.sortNames frame.names))) := by
  simp only [exitBlock, recordShared_of_observing observing, bind_assoc, pure_bind,
    Step.discarded?, Option.getD_some]

end Eval

end BlockCalc
