import BlockCalc.Proofs.History
import BlockCalc.Proofs.Observing

/-!
# Replaying the log

The records of a log tell all that becomes of the bindings. `replay` reads them back one after the
other, from nothing but their fields, on frames whose values are shown as texts; it gets stuck where
a record does not fit the frames that it has reached. Replayed on the frames at the start of an
evaluation, the log of the evaluation leads to the frames at its end, also where handlers look on
and end the evaluation early. Bindings change in no way that the log does not tell, and the log
tells of no change that did not happen.

Frames are listed here with the innermost one first.
-/

namespace BlockCalc

namespace Table

variable {α β : Type}

theorem map_insertEntry (transform : α → β) (name : String) (value : α)
    (entries : List (String × α)) :
    (insertEntry name value entries).map (fun (key, old) => (key, transform old)) =
      insertEntry name (transform value) (entries.map fun (key, old) => (key, transform old)) := by
  induction entries with
  | nil => rfl
  | cons entry rest ih =>
      rcases entry with ⟨key, old⟩
      by_cases same : key = name <;> simp [insertEntry, same, ih]

theorem map_insert (transform : α → β) (table : Table α) (name : String) (value : α) :
    (table.insert name value).map transform =
      (table.map transform).insert name (transform value) := by
  simp only [insert, map, map_insertEntry]

@[simp]
theorem contains_map (transform : α → β) (table : Table α) (name : String) :
    (table.map transform).contains name = table.contains name := by
  rw [Bool.eq_iff_iff, contains_iff_mem_names, contains_iff_mem_names, names_map]

theorem map_insertIfNew (transform : α → β) (table : Table α) (name : String) (value : α) :
    (table.insertIfNew name value).map transform =
      (table.map transform).insertIfNew name (transform value) := by
  simp only [insertIfNew, contains_map]
  split
  · rfl
  · exact map_insert transform table name value

end Table

/-- The frames of a scope with their values shown as texts. -/
def Scope.shown (scope : Scope) : List (Table String) :=
  scope.innermostFirst.map (Table.map Value.render)

/-- Sets a shown value in the innermost frame that has the name. -/
def replayAssign? (name text : String) : List (Table String) → Option (List (Table String))
  | [] => none
  | frame :: rest =>
      if frame.contains name then some (frame.insert name text :: rest)
      else (replayAssign? name text rest).map (frame :: ·)

/-- What declaring a name does; the record has to tell whether the frame lacked the name. -/
def replayDeclare? (name : String) (created : Bool) :
    List (Table String) → Option (List (Table String))
  | [] => none
  | frame :: outer =>
      if created = !frame.contains name then
        some (frame.insertIfNew name Value.uninitialized.render :: outer)
      else none

/--
Leaves a block. Its depth has to be that of the record, and the record has to list the names of its
frame, from the smallest to the greatest.
-/
def replayExit? (depth : Int) (discarded : List String) :
    List (Table String) → Option (List (Table String))
  | frame :: next :: outer =>
      if depth = outer.length + 1 ∧ discarded.Perm frame.names ∧ discarded.Pairwise Text.InOrder then
        some (next :: outer)
      else none
  | _ => none

section Fields

variable (record : Table Json) (name : String)

/-- The text of a document that is one. -/
def textOf? : Json → Option String
  | .text content => some content
  | _ => none

/-- The texts of a document that is an array of them. -/
def textsOf? : Json → Option (List String)
  | .array elements => elements.mapM textOf?
  | _ => none

/-- The text in a field of a record. -/
def textField? : Option String :=
  (record.get? name).bind textOf?

/-- The truth value in a field of a record. -/
def boolField? : Option Bool :=
  match record.get? name with
  | some (.bool truth) => some truth
  | _ => none

/-- The number in a field of a record. -/
def numberField? : Option Int :=
  match record.get? name with
  | some (.number value) => some value
  | _ => none

/-- The texts in a field of a record. -/
def textsField? : Option (List String) :=
  (record.get? name).bind textsOf?

end Fields

/-- What the step of a record does to frames. -/
def replayRecord? (record : Table Json) (frames : List (Table String)) :
    Option (List (Table String)) := do
  match ← textField? record "rule" with
  | "PARSE" => some frames
  | "DECLARE" =>
      replayDeclare? (← textField? record "name") (← boolField? record "created") frames
  | "ENTER_SCOPE" => some (.empty :: frames)
  | "EXIT_SCOPE" =>
      replayExit? (← numberField? record "depth") (← textsField? record "discarded") frames
  | "REDUCE" => some frames
  | "ASSIGN" => replayAssign? (← textField? record "name") (← textField? record "value") frames
  | _ => none

/-- What the steps of a log do to frames, unless one of them does not fit. -/
def StepLog.replay? (log : StepLog) (frames : List (Table String)) :
    Option (List (Table String)) :=
  log.entries.toList.foldlM (fun frames entry => replayRecord? entry.record frames) frames

theorem StepLog.replay?_push (log : StepLog) (entry : Entry) (frames : List (Table String)) :
    (log.push entry).replay? frames =
      (log.replay? frames).bind (replayRecord? entry.record) := by
  simp only [replay?, push, Array.toList_push, List.foldlM_append]
  cases List.foldlM (fun frames entry => replayRecord? entry.record frames) frames
    log.entries.toList with
  | none => rfl
  | some middle => simp

section Step

variable {scope changed : Scope}

theorem replayDeclare?_shown (scope : Scope) (name : String) :
    replayDeclare? name (scope.isNew name) scope.shown = some (scope.declare name).shown := by
  rcases scope with ⟨top, _ | ⟨frame, outer⟩⟩
  · simp [Scope.shown, Scope.innermostFirst, replayDeclare?, Scope.isNew, Scope.innermost,
      Scope.declare, Scope.withInnermost, Table.map_insertIfNew]
  · simp [Scope.shown, Scope.innermostFirst, replayDeclare?, Scope.isNew, Scope.innermost,
      Scope.declare, Scope.withInnermost, Table.map_insertIfNew]

theorem replayAssign?_map {name : String} {value : Value} {frames changed : List Frame}
    (assigned : assignFirst? name value frames = some changed) :
    replayAssign? name value.render (frames.map (Table.map Value.render)) =
      some (changed.map (Table.map Value.render)) := by
  induction frames generalizing changed with
  | nil => cases assigned
  | cons frame rest ih =>
      simp only [assignFirst?] at assigned
      simp only [List.map_cons, replayAssign?, Table.contains_map]
      split at assigned
      · rename_i present
        cases assigned
        simp [present, Table.map_insert]
      · rename_i absent
        rcases Option.map_eq_some_iff.mp assigned with ⟨changedRest, restAssigned, rfl⟩
        simp [absent, ih restAssigned]

theorem replayExit?_shown {frame : Frame} (left : scope.exit = .ok (frame, changed)) :
    replayExit? scope.depth (Text.sortNames frame.names) scope.shown = some changed.shown := by
  have listed := And.intro (Text.perm_sortNames frame.names) (Text.pairwise_sortNames frame.names)
  rcases scope with ⟨top, _ | ⟨innermost, outer⟩⟩
  · cases left
  · cases left
    rcases outer with _ | ⟨next, others⟩
    · simp [Scope.shown, Scope.innermostFirst, replayExit?, Scope.depth, listed]
    · simp [Scope.shown, Scope.innermostFirst, replayExit?, Scope.depth, listed]

theorem textsOf?_texts (contents : List String) : textsOf? (.texts contents) = some contents := by
  simp only [textsOf?, Json.texts]
  induction contents with
  | nil => rfl
  | cons content rest ih =>
      simp only [List.map_cons, List.mapM_cons, textOf?, ih]
      rfl

theorem replayRecord?_of_takes {good : Value → Prop} {step : Step} {entry : Entry} {log : StepLog}
    (takes : scope.Takes good step changed) (tells : entry.Tells log step) :
    replayRecord? entry.record scope.shown = some changed.shown := by
  have fields : ∀ name, name ≠ "from_state_id" → name ≠ "to_state_id" →
      entry.record.get? name = step.fields.lookup name := fun _ => tells.get?_record
  cases takes with
  | parse tokens =>
      simp [replayRecord?, textField?, textOf?, fields, Step.fields, Step.rule]
  | declare name =>
      have declared := replayDeclare?_shown scope name
      simpa [replayRecord?, textField?, boolField?, textOf?, fields, Step.fields, Step.rule,
        Step.details, List.lookup_cons] using declared
  | enterScope =>
      simp [replayRecord?, textField?, textOf?, fields, Step.fields, Step.rule, Scope.shown,
        Scope.innermostFirst, Scope.enter]
      rfl
  | @exitScope frame outer left =>
      have exited := replayExit?_shown left
      simpa [replayRecord?, textField?, numberField?, textsField?, textOf?, fields, Step.fields,
        Step.rule, Step.details, List.lookup_cons, textsOf?_texts] using exited
  | reduce operator operands =>
      simp [replayRecord?, textField?, textOf?, fields, Step.fields, Step.rule]
  | assign operator holds present assigned =>
      have replayed : replayAssign? _ _ scope.shown = some changed.shown :=
        replayAssign?_map (Scope.assignFirst?_of_assign assigned)
      simpa [replayRecord?, textField?, textOf?, fields, Step.fields, Step.rule, Step.details,
        List.lookup_cons] using replayed

end Step

namespace Session

variable {σ : Type} {settings : Settings σ}

/-- The log leads from the frames at the start to those of the session. -/
def Replayed (start : List (Table String)) (session : Session Unit) : Prop :=
  session.log.replay? start = some session.scope.shown

theorem Replayed.logged {start : List (Table String)} {session : Session Unit} {step : Step}
    {scope : Scope} (replayed : Replayed start session)
    (takes : session.scope.Takes (fun _ => True) step scope) {entry : Entry}
    (tells : entry.Tells session.log step) :
    Replayed start (({ session with scope } : Session Unit).logged entry) := by
  simp only [Replayed, Session.logged, StepLog.replay?_push] at replayed ⊢
  rw [replayed]
  exact replayRecord?_of_takes takes tells

theorem ensures_program_replayed (observing : settings.hooks.Observing) (session : Session σ)
    (text : String) :
    Eval.Ensures (Eval.program settings) (session.feed text).prepare
      (fun _ finished => finished.log.replay? session.scope.shown = some finished.scope.shown)
      (fun _ finished => finished.log.replay? session.scope.shown = some finished.scope.shown) := by
  have whole : (Coupling.observed (fun _ => True) (Replayed session.scope.shown)).Whole settings
      settings :=
    Coupling.whole_observed observing Value.closed_true (fun _ _ _ _ => trivial)
      (fun replayed _ _ => replayed) Replayed.logged
  have start : Replayed session.scope.shown ((session.feed text).prepare.withObserver ()) := rfl
  apply (Coupling.ensures_program_observed whole start).mono
  · intro value finished holds
    exact holds.2
  · intro failure finished holds
    exact holds

/--
The log of an evaluation replays what became of the bindings, also where handlers look on and raise:
it leads from the frames at the start to those at the end if the evaluation succeeded. If it failed,
it leads to frames of which all but the outermost one have been discarded; they are all still there
if the evaluation did not catch what ended it.
-/
theorem parse_replays (observing : settings.hooks.Observing) (session : Session σ)
    (text : String) :
    let after := (session.parse settings text).2
    (∀ value finished, Eval.program settings (session.feed text).prepare = .ok value finished →
      after.log.replay? session.scope.shown = some after.scope.shown) ∧
    ∀ failure finished,
      Eval.program settings (session.feed text).prepare = .error failure finished →
        ∃ blocks top, after.log.replay? session.scope.shown = some (blocks ++ [top]) ∧
          (failure.Caught → after.scope.shown = [top]) ∧
          (¬failure.Caught → after.scope.shown = blocks ++ [top]) := by
  have spec := ensures_program_replayed observing session text
  constructor
  · intro value finished ran
    have replayed := spec.of_ok ran
    rw [untouched_parse_of_ok observing ran]
    exact replayed
  · intro failure finished ran
    have replayed := spec.of_error ran
    let blocks := finished.scope.blocks.map (Table.map Value.render)
    let top := finished.scope.top.map Value.render
    have frames : finished.scope.shown = blocks ++ [top] := by
      simp [Scope.shown, Scope.innermostFirst, blocks, top]
    rw [frames] at replayed
    by_cases caught : failure.Caught
    · rcases Option.isSome_iff_exists.mp (finished.isSome_caught? caught) with
        ⟨reported, catches⟩
      refine ⟨blocks, top, ?_, fun _ => ?_, fun uncaught => absurd caught uncaught⟩
      · rw [untouched_parse_of_error observing ran catches]
        exact replayed
      · rw [untouched_parse_of_error observing ran catches]
        rfl
    · refine ⟨blocks, top, ?_, fun uncaught => absurd uncaught caught, fun _ => ?_⟩
      · rw [parse_of_uncaught ran (caught?_eq_none caught)]
        exact replayed
      · rw [parse_of_uncaught ran (caught?_eq_none caught)]
        exact frames

theorem parse_replays_where_listeners_raise :
    let settings : Settings Unit := { hooks := .raising [.scopeExit] (.crash "trap") }
    let session : Session Unit := fresh ()
    let text := "let z = 1; \x7b z = 2; let b; let a \x7d"
    ∃ blocks top,
      (session.parse settings text).2.log.replay? session.scope.shown = some (blocks ++ [top]) ∧
        (session.parse settings text).2.scope.shown = [top] ∧ top.get? "z" = some "Integer(2)" ∧
        ((session.parse settings text).2.log.entries.back?.bind fun entry =>
          textsField? entry.record "discarded") = some ["a", "b"] := by
  intro settings session text
  have observing : settings.hooks.Observing :=
    Hooks.observing_raising [.scopeExit] (.crash "trap")
  have replays := parse_replays observing session text
  have run : ((session.parse settings text).2.scope.shown.map fun frame => frame.get? "z") =
        [some "Integer(2)"] ∧
      ((session.parse settings text).2.log.entries.back?.bind fun entry =>
        textsField? entry.record "discarded") = some ["a", "b"] ∧
      (match Eval.program settings (session.feed text).prepare with
        | .ok _ _ => none
        | .error failure _ => some failure.cause) =
          some (.unhandled (.handlerCrashed .scopeExit "trap")) := by decide +kernel
  rcases run with ⟨shown, discards, fails⟩
  cases ran : Eval.program settings (session.feed text).prepare with
  | ok value finished => simp [ran] at fails
  | error failure finished =>
      simp only [ran, Option.some.injEq] at fails
      have caught : failure.Caught := Failure.caught_of_unhandled fails
      rcases replays.2 failure finished ran with ⟨blocks, top, replayed, ends, _⟩
      have last := ends caught
      rw [last] at shown
      exact ⟨blocks, top, replayed, last, by simpa using shown, discards⟩

/-- Where a listener ends the whole program inside a block, the frame of the block stays. -/
theorem parse_keeps_frames_at_exit :
    let settings : Settings Unit := { hooks := .raising [.scopeEnter] .exit }
    let session : Session Unit := fresh ()
    let text := "\x7b 1 \x7d"
    let after := (session.parse settings text).2
    settings.hooks.Observing ∧
      (Eval.program settings (session.feed text).prepare matches .error _ _) = true ∧
      after.log.replay? session.scope.shown = some [.empty, .empty] ∧
      after.scope.shown = [.empty, .empty] ∧ after.scope.shown ≠ [.empty] := by
  intro settings session text after
  refine ⟨Hooks.observing_raising [.scopeEnter] .exit, ?_⟩
  decide +kernel

end Session

end BlockCalc
