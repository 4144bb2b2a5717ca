import BlockCalc.Proofs.Carrying
import BlockCalc.Proofs.Layout

/-!
# Variables that a program does not mention

An evaluation without handlers neither sees nor changes a variable whose name is no word of the
program. With it and without it, the evaluation ends in the same way, logs the same steps, and
leaves the same other bindings in the same order; the variable keeps its value and its place among
them. The logs differ in the bindings that they keep, if they keep them.
-/

namespace BlockCalc

variable {σ : Type}

section Entries

variable {α : Type} {entries : List (String × α)} {name other : String} {value : α} {place : Nat}

theorem lookup_insertIdx_of_ne (different : other ≠ name) :
    (entries.insertIdx place (name, value)).lookup other = entries.lookup other := by
  induction entries generalizing place with
  | nil => cases place <;> simp [List.lookup_cons, beq_eq_false_iff_ne.mpr different]
  | cons entry rest ih =>
      cases place with
      | zero => simp [List.lookup_cons, beq_eq_false_iff_ne.mpr different]
      | succ place =>
          rcases entry with ⟨key, old⟩
          simp only [List.insertIdx_succ_cons, List.lookup_cons, ih]

theorem length_le_length_insertEntry :
    entries.length ≤ (insertEntry name value entries).length := by
  induction entries with
  | nil => simp
  | cons entry rest ih =>
      simp only [insertEntry]
      split
      · exact le_rfl
      · simpa using ih

theorem insertEntry_insertIdx (different : other ≠ name) (inside : place ≤ entries.length)
    (changed : α) :
    insertEntry other changed (entries.insertIdx place (name, value)) =
      (insertEntry other changed entries).insertIdx place (name, value) := by
  have kept : ¬name = other := fun same => different same.symm
  induction entries generalizing place with
  | nil =>
      obtain rfl : place = 0 := by simpa using inside
      simp [insertEntry, kept]
  | cons entry rest ih =>
      cases place with
      | zero => simp [insertEntry, kept]
      | succ place =>
          simp only [List.insertIdx_succ_cons, insertEntry]
          split
          · rfl
          · rw [ih (by simpa using inside), List.insertIdx_succ_cons]

end Entries

namespace Table

variable {α : Type} {table wider : Table α} {name other : String} {value : α} {place : Nat}

/-- The wider table has one more name than the table, with a value and at a place. -/
structure Gains (table : Table α) (name : String) (value : α) (place : Nat) (wider : Table α) :
    Prop where
  inside : place ≤ table.entries.length
  entries : wider.entries = table.entries.insertIdx place (name, value)

namespace Gains

variable (gains : table.Gains name value place wider) (different : other ≠ name)

include gains different

theorem get?_eq : wider.get? other = table.get? other := by
  rw [get?, gains.entries, lookup_insertIdx_of_ne different, get?]

theorem contains_eq : wider.contains other = table.contains other := by
  rw [contains, gains.get?_eq different, contains]

theorem insert (changed : α) :
    (table.insert other changed).Gains name value place (wider.insert other changed) where
  inside := gains.inside.trans length_le_length_insertEntry
  entries := by
    simp only [Table.insert, gains.entries]
    exact insertEntry_insertIdx different gains.inside changed

theorem insertIfNew (changed : α) :
    (table.insertIfNew other changed).Gains name value place (wider.insertIfNew other changed) := by
  simp only [Table.insertIfNew, gains.contains_eq different]
  split
  · exact gains
  · exact gains.insert different changed

end Gains

end Table

/-- Both outcomes are related results, or failures for the same cause. -/
inductive AlikeOutcomes {α β : Type} (related : α → β → Prop) :
    Except Cause α → Except Cause β → Prop where
  | ok {result : α} {other : β} (holds : related result other) :
      AlikeOutcomes related (.ok result) (.ok other)
  | error (cause : Cause) : AlikeOutcomes related (.error cause) (.error cause)

namespace Scope

variable {scope wider : Scope} {name other : String} {value : Value} {place : Nat}

/-- The wider scope has one more variable at the top level, with a value and at a place. -/
structure Gains (scope : Scope) (name : String) (value : Value) (place : Nat) (wider : Scope) :
    Prop where
  top : scope.top.Gains name value place wider.top
  blocks : wider.blocks = scope.blocks

namespace Gains

variable (gains : scope.Gains name value place wider)

include gains

theorem depth_eq : wider.depth = scope.depth := by
  rw [depth, gains.blocks, depth]

theorem enter : scope.enter.Gains name value place wider.enter where
  top := gains.top
  blocks := by simp only [Scope.enter, gains.blocks]

theorem unwind : scope.unwind.Gains name value place wider.unwind where
  top := gains.top
  blocks := rfl

/-- The same block is left in both scopes, or none can be. -/
theorem exit :
    AlikeOutcomes (fun left widerLeft => widerLeft.1 = left.1 ∧
      left.2.Gains name value place widerLeft.2) scope.exit wider.exit := by
  simp only [Scope.exit, gains.blocks]
  split
  · exact .error _
  · exact .ok ⟨rfl, gains.top, rfl⟩

variable (different : other ≠ name)

include different

theorem has_eq : wider.has other = scope.has other := by
  simp only [has, innermostFirst, gains.blocks, List.any_append, List.any_cons, List.any_nil,
    gains.top.contains_eq different]

theorem read_eq : wider.read other = scope.read other := by
  have same : wider.read? other = scope.read? other := by
    simp only [read?, innermostFirst, gains.blocks, List.findSome?_append, List.findSome?_cons,
      gains.top.get?_eq different]
  rw [read, same, read]

theorem isNew_eq : wider.isNew other = scope.isNew other := by
  simp only [isNew, innermost, gains.blocks]
  split
  · rw [gains.top.contains_eq different]
  · rfl

theorem declare : (scope.declare other).Gains name value place (wider.declare other) := by
  simp only [Scope.declare, withInnermost, innermost, gains.blocks]
  split
  · exact ⟨gains.top.insertIfNew different .uninitialized, rfl⟩
  · exact ⟨gains.top, rfl⟩

theorem assign (assigned : Value) :
    AlikeOutcomes (fun changed widerChanged => changed.Gains name value place widerChanged)
      (scope.assign other assigned) (wider.assign other assigned) := by
  simp only [Scope.assign, gains.blocks, gains.top.contains_eq different]
  split
  · exact .ok ⟨gains.top, rfl⟩
  · split
    · exact .ok ⟨gains.top.insert different assigned, rfl⟩
    · exact .error _

end Gains

end Scope

/-- A log entry without the visible bindings. -/
def Entry.unbound (entry : Entry) : Entry :=
  { entry with bindings := none }

namespace StepLog

/-- The entries of a log without the bindings that they keep. -/
def unbound (log : StepLog) : List Entry :=
  log.entries.toList.map Entry.unbound

section Same

variable {left right : StepLog} (same : right.unbound = left.unbound)

include same

theorem size_eq_of_unbound : right.entries.size = left.entries.size := by
  simpa [unbound] using congrArg List.length same

theorem back?_eq_of_unbound :
    right.entries.back?.map Entry.unbound = left.entries.back?.map Entry.unbound := by
  simpa [unbound, List.getLast?_map] using congrArg List.getLast? same

theorem lastLocation_eq_of_unbound : right.lastLocation = left.lastLocation := by
  have ofUnbound (log : StepLog) :
      log.lastLocation = (log.entries.back?.map Entry.unbound).bind (·.location) := by
    rw [lastLocation, Option.bind_map]
    rfl
  rw [ofUnbound, ofUnbound, back?_eq_of_unbound same]

theorem lastIndex_eq_of_unbound :
    right.entries.back?.map (·.index) = left.entries.back?.map (·.index) := by
  have ofUnbound (log : StepLog) : log.entries.back?.map (·.index) =
      (log.entries.back?.map Entry.unbound).map (·.index) := by
    rw [Option.map_map]
    rfl
  rw [ofUnbound, ofUnbound, back?_eq_of_unbound same]

theorem lastId_eq_of_unbound : right.lastId = left.lastId := by
  have ofIndex (log : StepLog) :
      log.lastId = ((log.entries.back?.map (·.index)).map stateId).getD seedId := by
    rw [lastId]
    cases log.entries.back? <;> rfl
  rw [ofIndex, ofIndex, lastIndex_eq_of_unbound same]

/-- The entry of the same step is the same, apart from the bindings that it keeps. -/
theorem unbound_push_nextEntry (record : Table Json) (location : Option Location)
    (statement : Option String) (bindings otherBindings : Option (Table String)) :
    (right.push (right.nextEntry record location statement otherBindings)).unbound =
      (left.push (left.nextEntry record location statement bindings)).unbound := by
  simp only [unbound] at same
  simp only [unbound, push, Array.toList_push, List.map_append, same, Entry.unbound, nextEntry,
    List.map_cons, List.map_nil, size_eq_of_unbound same, lastId_eq_of_unbound same]

end Same

end StepLog

namespace Session

variable {first second : Session σ} {name : String} {value : Value} {place : Nat}

/-- The second session has one more variable at the top level, and otherwise is as the first. -/
structure Gains (first : Session σ) (name : String) (value : Value) (place : Nat)
    (second : Session σ) : Prop where
  scope : first.scope.Gains name value place second.scope
  log : second.log.unbound = first.log.unbound
  rest : second = { first with scope := second.scope, log := second.log }

namespace Gains

variable (gains : first.Gains name value place second)

include gains

theorem source_eq : second.source = first.source :=
  congrArg (·.source) gains.rest

theorem program_eq : second.program = first.program :=
  congrArg (·.program) gains.rest

theorem groups_eq : second.groups = first.groups :=
  congrArg (·.groups) gains.rest

theorem position_eq : second.position = first.position :=
  congrArg (·.position) gains.rest

theorem moved {position otherPosition : Nat} {groups otherGroups : List Group}
    (samePosition : otherPosition = position) (sameGroups : otherGroups = groups) :
    ({ first with position, groups } : Session σ).Gains name value place
      { second with position := otherPosition, groups := otherGroups } where
  scope := gains.scope
  log := gains.log
  rest := by
    subst samePosition sameGroups
    exact congrArg (fun session : Session σ =>
      { session with position := otherPosition, groups := otherGroups }) gains.rest

theorem with_scope {scope wider : Scope} (wide : scope.Gains name value place wider) :
    ({ first with scope } : Session σ).Gains name value place { second with scope := wider } where
  scope := wide
  log := gains.log
  rest := congrArg (fun session : Session σ => { session with scope := wider }) gains.rest

theorem logged_entry (settings : Settings σ) (step : Step) (location : Option Location) :
    (first.logged (first.entry settings step location)).Gains name value place
      (second.logged (second.entry settings step location)) where
  scope := gains.scope
  log := StepLog.unbound_push_nextEntry gains.log _ _ _ _ _
  rest := congrArg (fun session : Session σ =>
    session.logged (second.entry settings step location)) gains.rest

theorem unwind : first.unwind.Gains name value place second.unwind where
  scope := gains.scope.unwind
  log := gains.log
  rest := congrArg (fun session : Session σ =>
    { session with groups := [], scope := second.scope.unwind }) gains.rest

theorem dropText : first.dropText.Gains name value place second.dropText where
  scope := gains.scope
  log := gains.log
  rest := congrArg Session.dropText gains.rest

theorem report_eq (failure : Failure) : second.report failure = first.report failure := by
  simp only [report, gains.groups_eq, StepLog.lastIndex_eq_of_unbound gains.log]

end Gains

end Session

namespace Coupling

variable {settings : Settings σ} {name : String} {value : Value} {place : Nat}

/-- An evaluation without a variable, and the same one with it. -/
def without (name : String) (value : Value) (place : Nat) : Coupling σ σ where
  related first second := first.Gains name value place second

theorem carries_record (quiet : settings.hooks = .none) (step : Step)
    (location : Option Location) :
    (without name value place).Carries (Eval.record settings step location)
      (Eval.record settings step location) fun _ => True := by
  intro first second gains
  simp only [CarriesFrom, Eval.EnsuresBoth, Eval.Ensures, Eval.record_logged quiet]
  exact ⟨trivial, trivial, gains.logged_entry settings step location⟩

/-- Setting the scope and recording a step carries the coupling, if the new scopes do. -/
theorem carriesFrom_record_in (quiet : settings.hooks = .none) {first second : Session σ}
    (gains : first.Gains name value place second) {scope wider : Scope}
    (wide : scope.Gains name value place wider) (step : Step) (location : Option Location) :
    (without name value place).CarriesFrom first second
      (do Eval.setScope scope; Eval.record settings step location)
      (do Eval.setScope wider; Eval.record settings step location) fun _ => True :=
  .setScope (carries_record quiet step location _ _ (gains.with_scope wide))

/-- What depends on outcomes that are alike carries the coupling, if it does for their results. -/
theorem carriesFrom_ofExcept {related : α → α → Prop} {outcome other : Except Cause α}
    (alike : AlikeOutcomes related outcome other) {first second : Session σ}
    (gains : first.Gains name value place second) {next otherNext : α → Eval σ β}
    {results : β → Prop}
    (continues : ∀ result otherResult, related result otherResult →
      (without name value place).CarriesFrom first second (next result) (otherNext otherResult)
        results) :
    (without name value place).CarriesFrom first second (Eval.ofExcept outcome >>= next)
      (Eval.ofExcept other >>= otherNext) results := by
  cases alike with
  | ok holds => exact continues _ _ holds
  | error cause => exact .fail ⟨trivial, gains⟩

theorem bracketed_without (quiet : settings.hooks = .none) :
    (without name value place).Bracketed (· ≠ name) settings settings where
  sameFile := rfl
  sameSource gains := gains.source_eq
  sameLast gains := StepLog.lastLocation_eq_of_unbound gains.log
  sameHas gains different := gains.scope.has_eq different
  sameRead gains different := gains.scope.read_eq different
  fails _ := trivial
  closed := Value.closed_true
  goodRead _ _ := trivial
  reduceStep operator operands location := carries_record quiet _ location
  declare different location := by
    apply Carries.get_bind
    intro first second gains
    simp only [gains.scope.depth_eq, gains.scope.isNew_eq different]
    exact carriesFrom_record_in quiet gains (gains.scope.declare different) _ _
  assign operator {other assigned} different _ _ location := by
    apply Carries.get_bind
    intro first second gains
    apply carriesFrom_ofExcept (gains.scope.assign different assigned) gains
    intro changed wider wide
    exact carriesFrom_record_in quiet gains wide _ _
  advance := by
    intro first second gains
    exact ⟨rfl, trivial, gains.moved (congrArg (· + 1) gains.position_eq) gains.groups_eq⟩
  openGroup bracket location := by
    apply Carries.get_bind
    intro first second gains
    rw [gains.groups_eq]
    split
    · exact .fail ⟨trivial, gains⟩
    · exact ⟨rfl, trivial, gains.moved gains.position_eq rfl⟩
  closeGroup _ := by
    apply Carries.get_bind
    intro first second gains
    rw [gains.groups_eq, StepLog.lastLocation_eq_of_unbound gains.log]
    split
    · exact .fail ⟨trivial, gains⟩
    · split
      · exact ⟨rfl, trivial, gains.moved (congrArg (· + 1) gains.position_eq) rfl⟩
      · exact .fail ⟨trivial, gains⟩
  enterBlock location := by
    rw [Eval.enterBlock_of_quiet quiet]
    apply Carries.get_bind
    intro first second gains
    rw [gains.scope.enter.depth_eq]
    exact carriesFrom_record_in quiet gains gains.scope.enter _ _
  exitBlock location := by
    rw [Eval.exitBlock_of_quiet quiet]
    apply Carries.get_bind
    intro first second gains
    rw [gains.scope.depth_eq]
    apply carriesFrom_ofExcept gains.scope.exit gains
    rintro ⟨frame, outer⟩ ⟨_, wider⟩ ⟨rfl, wide⟩
    exact carriesFrom_record_in quiet gains wide _ _

end Coupling

namespace Session

variable {settings : Settings σ} {first second : Session σ} {name : String} {value : Value}
  {place : Nat} {text : String}

theorem Gains.begun (gains : first.Gains name value place second) :
    (first.begun settings).Gains name value place (second.begun settings) := by
  simp only [Session.begun, gains.program_eq]
  exact gains.logged_entry settings _ none

/-- Programs that do not mention a variable run in the same way with it and without it. -/
theorem carriesFrom_program_without (quiet : settings.hooks = .none)
    (gains : first.Gains name value place second)
    (unmentioned : ∀ token ∈ first.program, token.Mentions (· ≠ name)) :
    (Coupling.without name value place).CarriesFrom first second (Eval.program settings)
      (Eval.program settings) fun _ => True := by
  have bracketed : (Coupling.without name value place : Coupling σ σ).Bracketed (· ≠ name)
      settings settings := Coupling.bracketed_without quiet
  simp only [Coupling.CarriesFrom, Eval.EnsuresBoth, Eval.Ensures, Eval.program_begun quiet,
    gains.program_eq]
  exact bracketed.evaluate unmentioned _ _ gains.begun

/--
An evaluation without handlers neither sees nor changes a variable that no word of the program
names. Whatever the variable is bound to and at which place of the top level it stands, the
evaluation has the same outcome with it as without it and logs the same steps apart from the
bindings that they keep. It keeps the variable in its place among the bindings that it leaves, which
otherwise are the same in the same order, as is all else in the session.
-/
theorem parse_unmentioned (quiet : settings.hooks = .none) {session : Session σ} {wider : Scope}
    (gains : session.scope.Gains name value place wider)
    (unmentioned : ∀ token ∈ (session.feed text).lexer.tokens,
      token.kind = .word → token.text ≠ name) :
    let ended := session.parse settings text
    let wide := ({ session with scope := wider } : Session σ).parse settings text
    wide.1 = ended.1 ∧ wide.2.log.unbound = ended.2.log.unbound ∧
      ended.2.scope.Gains name value place wide.2.scope ∧
      wide.2 = { ended.2 with scope := wide.2.scope, log := wide.2.log } := by
  have prepared : (session.feed text).prepare.Gains name value place
      (({ session with scope := wider } : Session σ).feed text).prepare := ⟨gains, rfl, rfl⟩
  have both := carriesFrom_program_without quiet prepared unmentioned
  dsimp only
  rw [parse_of_quiet quiet, parse_of_quiet quiet]
  cases ran : Eval.program settings (session.feed text).prepare with
  | ok result finished =>
      rcases both.of_ok ran with ⟨wideFinished, wideRan, _, finishedGains⟩
      rw [wideRan]
      have dropped := Gains.dropText finishedGains
      exact ⟨rfl, dropped.log, dropped.scope, dropped.rest⟩
  | error failure finished =>
      rcases both.of_error ran with ⟨wideFinished, wideRan, _, finishedGains⟩
      rw [wideRan]
      have dropped := (Gains.unwind finishedGains).dropText
      exact ⟨congrArg Except.error (Gains.report_eq finishedGains failure), dropped.log,
        dropped.scope, dropped.rest⟩

theorem parse_unmentioned_between :
    let settings : Settings Unit := { verbose := true }
    let scope : Scope := { top := .ofList [("x", .integer 1), ("y", .uninitialized)] }
    let wider : Scope :=
      { top := .ofList [("x", .integer 1), ("z", .text "z"), ("y", .uninitialized)] }
    let text := "let w = x + 1; \x7b let x = \"z\"; y = w \x7d y"
    let ended := ({ fresh () with scope } : Session Unit).parse settings text
    let wide := ({ fresh () with scope := wider } : Session Unit).parse settings text
    ended.1.toOption = some (.integer 2) ∧ wide.1 = ended.1 ∧
      wide.2.log.unbound = ended.2.log.unbound ∧ ended.2.scope.Gains "z" (.text "z") 1 wide.2.scope := by
  intro settings scope wider text
  have gains : scope.Gains "z" (.text "z") 1 wider := ⟨⟨by decide, by decide⟩, rfl⟩
  have run : (∀ token ∈ (({ fresh () with scope } : Session Unit).feed text).lexer.tokens,
        token.kind = .word → token.text ≠ "z") ∧
      (({ fresh () with scope } : Session Unit).parse settings text).1.toOption =
        some (.integer 2) := by decide +kernel
  rcases run with ⟨unmentioned, result⟩
  have quiet : settings.hooks = .none := rfl
  have outcome := parse_unmentioned quiet gains unmentioned
  generalize ({ fresh () with scope } : Session Unit).parse settings text = ended at *
  generalize ({ fresh () with scope := wider } : Session Unit).parse settings text = wide at *
  exact ⟨result, outcome.1, outcome.2.1, outcome.2.2.1⟩

end Session

end BlockCalc
