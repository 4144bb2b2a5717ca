import BlockCalc.Proofs.Carrying
import BlockCalc.Proofs.Recording
import Mathlib.Data.List.Induction
import Mathlib.Data.List.Nodup

/-!
# The chain of states

A log may be told anything, also in dictionaries that are recorded or edited once more. Then an
entry shows what its dictionary holds last, but it stays where it is, and as it is otherwise:
`after` is what one use does to a log, and from it follows what any number of uses do. So the states
of a log have different names, and each entry is found by its number. An evaluation makes a
dictionary for each step, which names no states, and handlers edit nothing in it but discarded
names. So the log of every evaluation is a chain that leads from the seed through all states to the
last one.
-/

namespace BlockCalc

/-- The names with their values that link no states, in their order. -/
def Table.details (table : Table Json) : List (String × Json) :=
  table.entries.filter fun (name, _) => name ≠ "from_state_id" ∧ name ≠ "to_state_id"

theorem filter_insertEntry {α : Type} {keeps : String × α → Bool} {name : String}
    (drops : ∀ value, keeps (name, value) = false) (value : α) (entries : List (String × α)) :
    (insertEntry name value entries).filter keeps = entries.filter keeps := by
  induction entries with
  | nil => simp [insertEntry, drops]
  | cons entry rest ih =>
      rcases entry with ⟨key, old⟩
      rw [insertEntry]
      split
      · rename_i same
        simp [same, drops]
      · simp only [List.filter_cons, ih]

theorem Table.details_insert {name : String}
    (links : name = "from_state_id" ∨ name = "to_state_id") (table : Table Json) (value : Json) :
    (table.insert name value).details = table.details := by
  apply filter_insertEntry
  rcases links with rfl | rfl <;> simp

theorem Table.details_insertIfNew {name : String}
    (links : name = "from_state_id" ∨ name = "to_state_id") (table : Table Json) (value : Json) :
    (table.insertIfNew name value).details = table.details := by
  rw [insertIfNew]
  split
  · rfl
  · exact details_insert links table value

theorem stateId_injective : Function.Injective stateId := by
  -- Leading zeros do not change the number that the digits of a name write.
  have number (index : Nat) : Nat.ofDigitChars 10 ((stateId index).toList.drop 2) 0 = index := by
    simp [stateId, Nat.ofDigitChars_append, Nat.ofDigitChars_replicate_zero,
      Nat.ofDigitChars_ten_toDigits]
  intro index other same
  rw [← number index, same, number other]

theorem stateId_ne_seedId (index : Nat) : stateId index ≠ seedId := by
  intro same
  have second := congrArg (fun id : String => id.toList[1]?) same
  simp [stateId, seedId] at second

/-- The name of the state before the step of an index. -/
def stateBefore : Nat → String
  | 0 => seedId
  | index + 1 => stateId index

theorem stateBefore_injective : Function.Injective stateBefore := by
  intro index other same
  cases index with
  | zero =>
      cases other with
      | zero => rfl
      | succ other => exact absurd same.symm (stateId_ne_seedId other)
  | succ index =>
      cases other with
      | zero => exact absurd same (stateId_ne_seedId index)
      | succ other => exact congrArg Nat.succ (stateId_injective same)

namespace StepLog

/-- Each entry has the index at which it stands. -/
def Indexed (log : StepLog) : Prop :=
  ∀ (index : Nat) entry, log.entries[index]? = some entry → entry.index = index

theorem indexed_empty : empty.Indexed := by
  intro index entry found
  simp [empty] at found

theorem Indexed.push {log : StepLog} (indexed : log.Indexed) {entry : Entry}
    (index : entry.index = log.entries.size) : (log.push entry).Indexed := by
  intro place other found
  rw [StepLog.push, Array.getElem?_push] at found
  split at found
  · rename_i last
    cases found
    rw [index, last]
  · exact indexed place other found

/-- Entries that only get other records keep their places. -/
theorem Indexed.of_same {log changed : StepLog} (indexed : log.Indexed)
    (same : ∀ (index : Nat) entry, changed.entries[index]? = some entry →
      ∃ record, log.entries[index]? = some { entry with record }) :
    changed.Indexed := by
  intro index entry found
  rcases same index entry found with ⟨record, before⟩
  exact indexed index { entry with record } before

theorem getElem?_rewrite {log : StepLog} {dictionary : Nat} {contents : Table Json} (index : Nat) :
    (log.rewrite dictionary contents).entries[index]? =
      log.entries[index]?.map fun entry =>
        if entry.dictionary = some dictionary then { entry with record := contents }
        else entry := by
  rw [rewrite, Array.getElem?_map]

theorem Indexed.rewrite {log : StepLog} (indexed : log.Indexed) (dictionary : Nat)
    (contents : Table Json) : (log.rewrite dictionary contents).Indexed := by
  apply indexed.of_same
  intro index entry found
  rw [getElem?_rewrite, Option.map_eq_some_iff] at found
  rcases found with ⟨before, there, rfl⟩
  refine ⟨before.record, ?_⟩
  rw [there]
  split <;> rfl

@[simp]
theorem size_rewrite (log : StepLog) (dictionary : Nat) (contents : Table Json) :
    (log.rewrite dictionary contents).entries.size = log.entries.size := by
  simp [StepLog.rewrite]

@[simp]
theorem size_add (log : StepLog) (entry : Entry) :
    (log.add entry).entries.size = log.entries.size + 1 := by
  rw [add]
  split <;> simp [push]

theorem Indexed.add {log : StepLog} (indexed : log.Indexed) {entry : Entry}
    (index : entry.index = log.entries.size) : (log.add entry).Indexed := by
  rw [StepLog.add]
  split
  · exact indexed.push index
  · exact (indexed.rewrite _ _).push (by rw [index, size_rewrite])

section Indexed

variable {log : StepLog} (indexed : log.Indexed)

include indexed

/-- The entry of an index is found, although the search for it starts at the end. -/
theorem Indexed.find?_eq (index : Nat) : log.find? index = log.entries[index]? := by
  have isThere {entry : Entry} (mem : entry ∈ log.entries.toList) :
      log.entries[entry.index]? = some entry := by
    rcases List.mem_iff_getElem?.mp mem with ⟨place, found⟩
    rw [Array.getElem?_toList] at found
    rw [indexed place entry found, found]
  cases found : log.entries[index]? with
  | none =>
      rw [find?, List.find?_eq_none]
      intro entry mem same
      rw [beq_iff_eq, Int.natCast_inj] at same
      rw [List.mem_reverse] at mem
      rw [← same, isThere mem] at found
      cases found
  | some entry =>
      have present : (log.find? index).isSome = true := by
        rw [find?, List.find?_isSome]
        refine ⟨entry, ?_, by simp [indexed index entry found]⟩
        rw [List.mem_reverse]
        exact Array.mem_toList_iff.mpr (Array.mem_of_getElem? found)
      rcases Option.isSome_iff_exists.mp present with ⟨last, isLast⟩
      have same := List.find?_some isLast
      have mem := List.mem_of_find?_eq_some isLast
      rw [beq_iff_eq, Int.natCast_inj] at same
      rw [List.mem_reverse] at mem
      rw [isLast, ← found, ← same, isThere mem]

theorem Indexed.find?_eq_none {index : Int} (outside : index < 0 ∨ log.entries.size ≤ index) :
    log.find? index = none := by
  rcases outside with negative | beyond
  · rw [find?, List.find?_eq_none]
    intro entry _ same
    rw [beq_iff_eq] at same
    omega
  · obtain ⟨index, rfl⟩ : ∃ place : Nat, index = place := ⟨index.toNat, by omega⟩
    rw [indexed.find?_eq, Array.getElem?_eq_none_iff]
    exact Int.ofNat_le.mp beyond

theorem Indexed.lastId_eq : log.lastId = stateBefore log.entries.size := by
  rw [lastId, Array.back?_eq_getElem?]
  cases size : log.entries.size with
  | zero => simp [size, stateBefore]
  | succ last =>
      obtain ⟨entry, found⟩ : ∃ entry, log.entries[last]? = some entry :=
        Option.isSome_iff_exists.mp (by simp [size])
      rw [Nat.add_sub_cancel, found]
      simp only [Entry.id, indexed last _ found, stateBefore]

end Indexed

/-- The names of the states that a log leads through, the seed first. -/
def states (log : StepLog) : List String :=
  seedId :: log.entries.toList.map (·.id)

theorem Indexed.states_eq {log : StepLog} (indexed : log.Indexed) :
    log.states = (List.range (log.entries.size + 1)).map stateBefore := by
  have ids : log.entries.toList.map (·.id) = (List.range log.entries.size).map stateId := by
    apply List.ext_getElem?
    intro index
    rw [List.getElem?_map, List.getElem?_map, Array.getElem?_toList]
    cases found : log.entries[index]? with
    | none =>
        rw [Array.getElem?_eq_none_iff] at found
        rw [List.getElem?_eq_none (by simpa using found)]
        rfl
    | some entry =>
        have inRange := (Array.getElem?_eq_some_iff.mp found).1
        rw [List.getElem?_range inRange]
        simp only [Option.map_some, Entry.id, indexed index entry found]
  rw [states, ids, List.range_succ_eq_map, List.map_cons, List.map_map]
  rfl

theorem Indexed.nodup_states {log : StepLog} (indexed : log.Indexed) : log.states.Nodup := by
  rw [indexed.states_eq]
  exact List.Nodup.map stateBefore_injective List.nodup_range

end StepLog

/-- The steps lead from one state to another: each starts where the one before it ends. -/
inductive Chain : String → List Entry → String → Prop where
  | nil (state : String) : Chain state [] state
  | cons {before last : String} {entry : Entry} {rest : List Entry}
      (source : entry.record.get? "from_state_id" = some (.text before))
      (target : entry.record.get? "to_state_id" = some (.text entry.id))
      (further : Chain entry.id rest last) :
      Chain before (entry :: rest) last

theorem Chain.concat {before last : String} {entries : List Entry} {entry : Entry}
    (chain : Chain before entries last)
    (source : entry.record.get? "from_state_id" = some (.text last))
    (target : entry.record.get? "to_state_id" = some (.text entry.id)) :
    Chain before (entries ++ [entry]) entry.id := by
  induction chain with
  | nil state => exact .cons source target (.nil entry.id)
  | cons firstSource firstTarget _ ih => exact .cons firstSource firstTarget (ih source)

/-- A chain does not depend on what its entries say besides their links. -/
theorem Chain.modify {before last : String} {entries : List Entry} {index : Nat}
    {change : Entry → Entry} (chain : Chain before entries last)
    (sameId : ∀ entry, (change entry).id = entry.id)
    (sameSource : ∀ entry,
      (change entry).record.get? "from_state_id" = entry.record.get? "from_state_id")
    (sameTarget : ∀ entry,
      (change entry).record.get? "to_state_id" = entry.record.get? "to_state_id") :
    Chain before (entries.modify index change) last := by
  induction chain generalizing index with
  | nil state =>
      rw [List.modify_nil]
      exact .nil state
  | @cons before last entry rest source target further ih =>
      cases index with
      | zero =>
          rw [List.modify_zero_cons]
          refine .cons ((sameSource entry).trans source) ?_ (by rwa [sameId])
          rw [sameTarget, sameId, target]
      | succ index =>
          rw [List.modify_succ_cons]
          exact .cons source target ih

/-- What somebody who keeps a log of steps may tell it of a step. -/
structure Recording where
  /-- What is told, if anything is. -/
  told : Option (Table Json) := none
  /-- The dictionary that it is told in, if that is recorded or edited once more. -/
  dictionary : Option Nat := none
  location : Option Location := none
  statement : Option String := none
  bindings : Option (Table String) := none

/-- The record that the log completes. -/
def Recording.given (recording : Recording) : Table Json :=
  recording.told.getD .empty

/-- What may happen to a log. -/
inductive LogUse where
  /-- A step is recorded. -/
  | record (recording : Recording)
  /-- Whoever recorded a dictionary edits it. -/
  | edit (dictionary : Nat) (contents : Table Json)

namespace LogUse

/-- The step that is recorded. -/
def recording? : LogUse → Option Recording
  | record recording => some recording
  | edit _ _ => none

/-- The dictionary that is recorded or edited. -/
def dictionary? : LogUse → Option Nat
  | record recording => recording.dictionary
  | edit dictionary _ => some dictionary

/-- The use writes into a dictionary, which then is one that somebody keeps. -/
def Touches (use : LogUse) (dictionary : Option Nat) : Prop :=
  dictionary ≠ none ∧ use.dictionary? = dictionary

end LogUse

/-- The entry keeps what it is made of, and links the state `before` to its own. -/
structure Entry.Keeps (entry : Entry) (recording : Recording) (before : String) : Prop where
  location : entry.location = recording.location
  statement : entry.statement = recording.statement
  bindings : entry.bindings = recording.bindings
  target : entry.record.get? "to_state_id" = some (.text entry.id)
  source : entry.record.get? "from_state_id" =
    some ((recording.given.get? "from_state_id").getD (.text before))
  details : entry.record.details = recording.given.details

namespace StepLog

/-- The entry that a recording makes. -/
def entryOf (log : StepLog) (recording : Recording) : Entry :=
  log.nextEntry recording.given recording.location recording.statement recording.bindings
    recording.dictionary

/-- The log after a use. -/
def after (log : StepLog) : LogUse → StepLog
  | .record recording => log.add (log.entryOf recording)
  | .edit dictionary contents => log.rewrite dictionary contents

/-- The log after all uses. -/
def afterAll (log : StepLog) (uses : List LogUse) : StepLog :=
  uses.foldl after log

theorem afterAll_append (log : StepLog) (uses later : List LogUse) :
    log.afterAll (uses ++ later) = (log.afterAll uses).afterAll later :=
  List.foldl_append

theorem Indexed.after {log : StepLog} (indexed : log.Indexed) (use : LogUse) :
    (log.after use).Indexed := by
  cases use with
  | record recording => exact indexed.add rfl
  | edit dictionary contents => exact indexed.rewrite dictionary contents

theorem Indexed.afterAll {log : StepLog} (indexed : log.Indexed) (uses : List LogUse) :
    (log.afterAll uses).Indexed := by
  induction uses generalizing log with
  | nil => exact indexed
  | cons use rest ih => exact ih (indexed.after use)

theorem size_afterAll (log : StepLog) (uses : List LogUse) :
    (log.afterAll uses).entries.size =
      log.entries.size + (uses.filterMap (·.recording?)).length := by
  induction uses generalizing log with
  | nil => rfl
  | cons use rest ih =>
      change ((log.after use).afterAll rest).entries.size = _
      rw [ih]
      cases use with
      | record recording =>
          simp only [after, size_add, LogUse.recording?, List.filterMap_cons, List.length_cons]
          omega
      | edit dictionary contents => simp only [after, size_rewrite, LogUse.recording?,
          List.filterMap_cons]

/-- The entry that has just been recorded says what the recording told. -/
theorem Indexed.keeps_entryOf {log : StepLog} (indexed : log.Indexed) (recording : Recording) :
    (log.entryOf recording).Keeps recording (stateBefore log.entries.size) where
  location := rfl
  statement := rfl
  bindings := rfl
  target := Table.get?_insert_self _ _ _
  source := by
    simp [entryOf, nextEntry, Table.get?_insert, Table.get?_insertIfNew, indexed.lastId_eq]
  details := by
    rw [entryOf, nextEntry, Table.details_insert (Or.inr rfl),
      Table.details_insertIfNew (Or.inl rfl)]

theorem getElem?_add_self (log : StepLog) (entry : Entry) :
    (log.add entry).entries[log.entries.size]? = some entry := by
  rw [add]
  split
  · exact Array.getElem?_push_size
  · rename_i dictionary _
    rw [← size_rewrite log dictionary entry.record]
    exact Array.getElem?_push_size

/-- An entry stays where it is, and its record stays what it is unless the use touches it. -/
theorem getElem?_after {log : StepLog} {index : Nat} {entry : Entry}
    (found : log.entries[index]? = some entry) (use : LogUse) :
    ∃ record, (log.after use).entries[index]? = some { entry with record } ∧
      (¬use.Touches entry.dictionary → record = entry.record) := by
  have inRange : index < log.entries.size := (Array.getElem?_eq_some_iff.mp found).1
  have rewritten (dictionary : Nat) (contents : Table Json) :
      ∃ record, (log.rewrite dictionary contents).entries[index]? = some { entry with record } ∧
        (entry.dictionary ≠ some dictionary → record = entry.record) := by
    rw [getElem?_rewrite, found, Option.map_some]
    split
    · exact ⟨contents, rfl, fun other => absurd ‹_› other⟩
    · exact ⟨entry.record, rfl, fun _ => rfl⟩
  cases use with
  | edit dictionary contents =>
      rcases rewritten dictionary contents with ⟨record, there, same⟩
      refine ⟨record, there, fun untouched => same fun touched => untouched ?_⟩
      exact ⟨by simp [touched], touched.symm⟩
  | record recording =>
      rw [after, add]
      split
      · refine ⟨entry.record, ?_, fun _ => rfl⟩
        rw [push, Array.getElem?_push_lt inRange, ← found, Array.getElem?_eq_getElem inRange]
      · rename_i dictionary kept
        rcases rewritten dictionary (log.entryOf recording).record with ⟨record, there, same⟩
        refine ⟨record, ?_, fun untouched => same fun touched => untouched ?_⟩
        · have stillInRange := (Array.getElem?_eq_some_iff.mp there).1
          rw [push, Array.getElem?_push_lt stillInRange, ← there,
            Array.getElem?_eq_getElem stillInRange]
        · exact ⟨by simp [touched], by rw [touched]; exact kept⟩

theorem getElem?_afterAll {log : StepLog} {index : Nat} {entry : Entry}
    (found : log.entries[index]? = some entry) (uses : List LogUse) :
    ∃ record, (log.afterAll uses).entries[index]? = some { entry with record } ∧
      ((∀ use ∈ uses, ¬use.Touches entry.dictionary) → record = entry.record) := by
  induction uses generalizing log entry with
  | nil => exact ⟨entry.record, found, fun _ => rfl⟩
  | cons use rest ih =>
      rcases getElem?_after found use with ⟨middle, there, kept⟩
      rcases ih there with ⟨record, still, keptOn⟩
      refine ⟨record, still, ?_⟩
      intro untouched
      rw [List.forall_mem_cons] at untouched
      rw [keptOn untouched.2, kept untouched.1]

/-- Entries that are made of the same dictionary have the same record. -/
def Sharing (log : StepLog) : Prop :=
  ∀ entry ∈ log.entries, ∀ other ∈ log.entries,
    entry.dictionary ≠ none → entry.dictionary = other.dictionary → entry.record = other.record

theorem sharing_empty : empty.Sharing := by
  intro entry mem
  simp [empty] at mem

theorem Sharing.rewrite {log : StepLog} (sharing : log.Sharing) (dictionary : Nat)
    (contents : Table Json) : (log.rewrite dictionary contents).Sharing := by
  intro entry mem other otherMem kept same
  simp only [StepLog.rewrite, Array.mem_map] at mem otherMem
  rcases mem with ⟨before, there, rfl⟩
  rcases otherMem with ⟨otherBefore, otherThere, rfl⟩
  have dictionaries (entry : Entry) :
      (if entry.dictionary = some dictionary then { entry with record := contents }
        else entry).dictionary = entry.dictionary := by
    split <;> rfl
  rw [dictionaries] at kept same
  rw [dictionaries] at same
  by_cases touched : before.dictionary = some dictionary
  · rw [if_pos touched, if_pos (same ▸ touched)]
  · rw [if_neg touched, if_neg (same ▸ touched)]
    exact sharing before there otherBefore otherThere kept same

theorem Sharing.add {log : StepLog} (sharing : log.Sharing) (entry : Entry) :
    (log.add entry).Sharing := by
  rw [StepLog.add]
  split
  · rename_i unkept
    intro first firstMem second secondMem kept same
    rcases Array.mem_push.mp firstMem with firstThere | rfl
    · rcases Array.mem_push.mp secondMem with secondThere | rfl
      · exact sharing first firstThere second secondThere kept same
      · exact absurd (same.trans unkept) kept
    · exact absurd unkept kept
  · rename_i dictionary isKept
    have rewritten : ∀ other ∈ (log.rewrite dictionary entry.record).entries,
        other.dictionary = some dictionary → other.record = entry.record := by
      intro other mem touched
      simp only [StepLog.rewrite, Array.mem_map] at mem
      rcases mem with ⟨before, _, rfl⟩
      split at touched
      · simp [*]
      · simp [*] at *
    intro first firstMem second secondMem kept same
    rcases Array.mem_push.mp firstMem with firstThere | rfl
    · rcases Array.mem_push.mp secondMem with secondThere | rfl
      · exact sharing.rewrite dictionary entry.record first firstThere second secondThere kept same
      · exact rewritten first firstThere (same.trans isKept)
    · rcases Array.mem_push.mp secondMem with secondThere | rfl
      · exact (rewritten second secondThere (same.symm.trans isKept)).symm
      · rfl

theorem Sharing.afterAll {log : StepLog} (sharing : log.Sharing) (uses : List LogUse) :
    (log.afterAll uses).Sharing := by
  induction uses generalizing log with
  | nil => exact sharing
  | cons use rest ih =>
      cases use with
      | record recording => exact ih (sharing.add _)
      | edit dictionary contents => exact ih (sharing.rewrite dictionary contents)

/-- The entries are numbered, and lead from the seed through all states to the last one. -/
structure Linked (log : StepLog) : Prop where
  indexed : log.Indexed
  chain : Chain seedId log.entries.toList log.lastId

theorem linked_empty : empty.Linked where
  indexed := indexed_empty
  chain := .nil seedId

/-- One more step whose record does not name the state before it goes on with the chain. -/
theorem Linked.push {log : StepLog} (linked : log.Linked) {record : Table Json}
    (unlinked : record.get? "from_state_id" = none) (location : Option Location)
    (statement : Option String) (bindings : Option (Table String)) :
    (log.push (log.nextEntry record location statement bindings)).Linked where
  indexed := linked.indexed.push rfl
  chain := by
    simp only [StepLog.push, Array.toList_push, lastId, Array.back?_push]
    apply linked.chain.concat
    · simp [nextEntry, Table.get?_insert, Table.get?_insertIfNew, unlinked, lastId]
    · simp [nextEntry, Entry.id]

/-- Discarded names are no links. -/
theorem Linked.rediscard {log : StepLog} (linked : log.Linked) (discarded : List String) :
    (log.rediscard discarded).Linked where
  indexed := by
    apply linked.indexed.of_same
    intro index entry found
    rw [StepLog.rediscard, Array.getElem?_modify] at found
    split at found
    · rw [Option.map_eq_some_iff] at found
      rcases found with ⟨before, there, rfl⟩
      exact ⟨before.record, there⟩
    · exact ⟨entry.record, found⟩
  chain := by
    have sameLast : (log.rediscard discarded).lastId = log.lastId := by
      simp only [lastId, Array.back?_eq_getElem?, StepLog.rediscard, Array.size_modify,
        Array.getElem?_modify, if_true]
      cases log.entries[log.entries.size - 1]? <;> rfl
    rw [sameLast, StepLog.rediscard, Array.toList_modify]
    apply linked.chain.modify
    · intro entry
      rfl
    · intro entry
      simp [Table.get?_insert]
    · intro entry
      simp [Table.get?_insert]

end StepLog

theorem Step.get?_source (step : Step) :
    (Table.ofList step.fields).get? "from_state_id" = none := by
  rw [Table.get?_ofList step.nodup_fields]
  cases step <;> rfl

namespace Eval

variable {σ α : Type} {settings : Settings σ}

/-- The log is linked after the action if it was before, however the action ends. -/
def Links (action : Eval σ α) : Prop :=
  ∀ session, session.log.Linked →
    Ensures action session (fun _ after => after.log.Linked) (fun _ after => after.log.Linked)

namespace Links

theorem pure (result : α) : Links (Pure.pure result : Eval σ α) :=
  fun _ linked => linked

theorem bind {β : Type} {action : Eval σ α} {next : α → Eval σ β} (first : Links action)
    (second : ∀ result, Links (next result)) : Links (action >>= next) := by
  intro session linked
  apply (first session linked).bind
  intro result after stillLinked
  exact second result after stillLinked

theorem get_bind {next : Session σ → Eval σ α} (links : ∀ session, Links (next session)) :
    Links (get >>= next) := by
  intro session
  exact links session session

theorem ofExcept (outcome : Except Cause α) : Links (ofExcept outcome : Eval σ α) := by
  intro session linked
  cases outcome <;> exact linked

theorem setScope (scope : Scope) : Links (setScope scope : Eval σ Unit) :=
  fun _ linked => linked

end Links

/-- Handlers edit nothing of the log but discarded names. -/
theorem links_react (reaction : Reaction σ) (discarded : Option (List String))
    (crashed : String → Failure) : Links (react reaction discarded crashed) := by
  intro session linked
  have left : (reaction.leave discarded session).log.Linked := by
    simp only [Reaction.leave]
    split
    · exact linked.rediscard _
    · exact linked
  simp only [react, ensures_bind, ensures_modify]
  split <;> exact left

theorem links_tell (listeners : List (Listener σ)) (notice : Notice) :
    Links (tell notice listeners) := by
  induction listeners generalizing notice with
  | nil => exact .pure notice
  | cons listener rest ih =>
      apply Links.get_bind
      intro session
      apply (links_react _ _ _).bind
      intro _
      exact ih _

theorem links_follow (rules : List (StepRule σ)) (index : Nat) (location : Option Location)
    (step : Step) : Links (follow index location step rules) := by
  induction rules generalizing step with
  | nil => exact .pure step
  | cons rule rest ih =>
      rw [follow]
      split
      · apply Links.get_bind
        intro session
        apply (links_react _ _ _).bind
        intro _
        exact ih _
      · exact ih step

theorem links_emit (notice : Notice) : Links (emit settings notice) :=
  (links_tell _ notice).bind fun _ => .pure ()

theorem links_recordShared (step : Step) (location : Option Location) :
    Links (recordShared settings step location) := by
  intro session linked
  rw [Ensures, recordShared_eq]
  exact links_follow _ _ _ _ _ (linked.push step.get?_source _ _ _)

theorem links_record (step : Step) (location : Option Location) :
    Links (record settings step location) :=
  (links_recordShared step location).bind fun _ => .pure ()

theorem links_enterBlock (location : Location) : Links (enterBlock settings location) := by
  rw [enterBlock_eq]
  apply Links.get_bind
  intro session
  apply (Links.setScope _).bind
  intro _
  apply (links_record _ _).bind
  intro _
  apply Links.get_bind
  intro _
  exact links_emit _

theorem links_exitBlock (location : Location) : Links (exitBlock settings location) := by
  apply Links.get_bind
  intro session
  apply (Links.ofExcept session.scope.exit).bind
  intro (frame, outer)
  apply (Links.setScope outer).bind
  intro _
  apply (links_recordShared _ _).bind
  intro _
  exact links_emit _

theorem links_openGroup (bracket : Bracket) (location : Location) :
    Links (openGroup settings bracket location) := by
  intro session linked
  simp only [openGroup, ensures_bind, ensures_get]
  split <;> exact linked

theorem links_closeGroup (next : Option Token) : Links (closeGroup next : Eval σ Unit) := by
  intro session linked
  simp only [closeGroup, ensures_bind, ensures_get]
  split
  · exact linked
  · split <;> exact linked

end Eval

namespace Coupling

variable {σ α : Type} {settings : Settings σ}

/-- An evaluation coupled with itself, whose log is linked. -/
def linked : Coupling σ σ where
  related first second := first = second ∧ first.log.Linked

theorem carries_linked {action : Eval σ α} (links : Eval.Links action) :
    (linked : Coupling σ σ).Carries action action fun _ => True := by
  rintro session _ ⟨rfl, held⟩
  apply Eval.EnsuresBoth.self_iff.mpr
  exact (links session held).mono (fun _ _ still => ⟨trivial, rfl, still⟩)
    fun _ _ still => ⟨trivial, rfl, still⟩

/-- Whatever the handlers are, an evaluation keeps its log linked. -/
theorem bracketed_linked :
    (linked : Coupling σ σ).Bracketed (fun _ => True) settings settings where
  sameFile := rfl
  sameSource related := by rw [related.1]
  sameLast related := by rw [related.1]
  sameHas related _ := by rw [related.1]
  sameRead related _ := by rw [related.1]
  fails _ := trivial
  closed := Value.closed_true
  goodRead _ _ := trivial
  reduceStep _ _ _ := carries_linked (Eval.links_record _ _)
  declare _ _ := carries_linked <| .get_bind fun _ =>
    (Eval.Links.setScope _).bind fun _ => Eval.links_record _ _
  assign _ _ _ _ _ _ _ := carries_linked <| .get_bind fun _ =>
    (Eval.Links.ofExcept _).bind fun _ =>
      (Eval.Links.setScope _).bind fun _ => Eval.links_record _ _
  advance := carries_linked fun _ linked => linked
  openGroup _ _ := carries_linked (Eval.links_openGroup _ _)
  closeGroup _ := carries_linked (Eval.links_closeGroup _)
  enterBlock _ := carries_linked (Eval.links_enterBlock _)
  exitBlock _ := carries_linked (Eval.links_exitBlock _)

end Coupling

namespace Eval

variable {σ : Type} {settings : Settings σ}

theorem links_program : Links (program settings) := by
  apply (links_emit .parseStart).bind
  intro _
  apply Links.get_bind
  intro _
  apply (links_record _ none).bind
  intro _
  apply Links.get_bind
  intro session started linked
  have bracketed : (Coupling.linked : Coupling σ σ).Bracketed (fun _ => True) settings settings :=
    Coupling.bracketed_linked
  have mentions : ∀ token ∈ session.program, token.Mentions fun _ => True :=
    fun token _ => token.mentions_true
  have carries := bracketed.evaluate mentions
  exact (EnsuresBoth.self_iff.mp (carries started started ⟨rfl, linked⟩)).mono
    (fun _ _ holds => holds.2.2) fun _ _ holds => holds.2.2

end Eval

theorem Session.linked_parse {σ : Type} (settings : Settings σ) (session : Session σ)
    (text : String) : (session.parse settings text).2.log.Linked := by
  have programLinks : Eval.Links (Eval.program settings) := Eval.links_program
  have links := programLinks (session.feed text).prepare StepLog.linked_empty
  rw [parse]
  cases ran : Eval.program settings (session.feed text).prepare with
  | ok value finished =>
      have linked := links.of_ok ran
      have told : Eval.Ensures (Eval.emit settings (.parseEnd value)) finished.dropText _ _ :=
        Eval.links_emit (.parseEnd value) finished.dropText linked
      dsimp only
      cases ends : Eval.emit settings (.parseEnd value) finished.dropText with
      | ok _ after => exact told.of_ok ends
      | error failure after => exact told.of_error ends
  | error failure finished =>
      have linked := links.of_error ran
      dsimp only
      cases finished.caught? failure with
      | none => exact linked
      | some failure =>
          have told := Eval.links_tell (settings.hooks.listeners .onError)
            (.onError (finished.report failure)) finished.unwind linked
          dsimp only
          cases ends : Eval.tell (.onError (finished.report failure))
              (settings.hooks.listeners .onError) finished.unwind with
          | ok _ after =>
              have stillLinked := told.of_ok ends
              exact stillLinked
          | error other after =>
              have stillLinked := told.of_error ends
              exact stillLinked

/-- A dictionary that is recorded twice shows the last link in both entries. -/
example :
    let twice : LogUse := .record { told := some .empty, dictionary := some 0 }
    ((StepLog.empty.afterAll [twice, twice]).entries.toList.map fun entry =>
      entry.record.get? "to_state_id") = [some (.text "s_000001"), some (.text "s_000001")] := by
  cbv

end BlockCalc
